import Webserveau.OriginTargets

/-!
Targets with a scheme and a host compared with those that begin with a slash.
Behind scheme and authority both are parsed as one text. A slash that ends the target is
left alone, so a host with nothing behind its slash becomes the first segment of the path.
-/
namespace Webserveau.AbsoluteTargets

open ByteStrings OrderedMaps Formats Requests PathSegments PathConfinement OriginTargets

/-- The parse of what is behind the authority and the first slash. -/
def parseText (r : Request) (text : Bytes) : Checked (ℤ × Request) := do
  let (path, query) ← extractPath text
  let uri := { r.resHints.parsedUri with query := query, pathInfo := [] }
  let (res, path) ← checkPath path
  let uri := { uri with path := path }
  if res ≠ 0 then return (r.setParsedUri uri).fillError 400 (ascii "too many ../ in uri")
  let uri ← prunePath uri
  let uri ← prunePercent uri
  return (0, r.setParsedUri uri)

theorem parseURI_text {r : Request} {q : Bytes} (h : pruneScheme r.uri = .ok (0, q)) :
    r.parseURI = parseText r (behind 47 (behind 64 q)) := by
  have hat : ascii "@" = [64] := rfl
  have hslash : ascii "/" = [47] := rfl
  unfold Request.parseURI parseText
  rw [hat, hslash]
  simp only [h, pruneDelim_eq, bind, Except.bind]
  rw [if_neg (not_not_intro rfl)]

/-- The raw target is carried along. -/
theorem parseText_uri (r : Request) (uri text : Bytes) :
    parseText { r with uri := uri } text =
      (parseText r text).map fun out => (out.1, { out.2 with uri := uri }) := by
  unfold parseText
  cases extractPath text with
  | error e => rfl
  | ok out =>
    obtain ⟨path, query⟩ := out
    show (checkPath path >>= _) = Except.map _ (checkPath path >>= _)
    cases checkPath path with
    | error e => rfl
    | ok out =>
      obtain ⟨res, path⟩ := out
      simp only [bind, Except.bind]
      by_cases hres : res ≠ 0
      · rw [if_pos hres, if_pos hres]
        rfl
      · rw [if_neg hres, if_neg hres]
        cases prunePath { r.resHints.parsedUri with query := query, pathInfo := [], path := path }
          with
        | error e => rfl
        | ok uri' =>
          dsimp only
          cases prunePercent uri' with
          | error e => rfl
          | ok uri'' => rfl

/-- The code and the parts of a uri that a parse leaves. -/
def parts (uri : URI) : Bytes × Bytes × Bytes × Bytes × Bytes :=
  (uri.path, uri.root, uri.filename, uri.extension, uri.query)

/-- Two targets get one code and the same parts. -/
def ParsedAlike (r : Request) (uri₁ uri₂ : Bytes) : Prop :=
  ∃ code r₁ r₂, Request.parseURI { r with uri := uri₁ } = .ok (code, r₁) ∧
    Request.parseURI { r with uri := uri₂ } = .ok (code, r₂) ∧
    parts r₁.resHints.parsedUri = parts r₂.resHints.parsedUri

/-- A target with scheme and host. -/
def absolute (host p : Bytes) : Bytes := ascii "http://" ++ (host ++ 47 :: p)

theorem pruneScheme_absolute (host p : Bytes) :
    pruneScheme (absolute host p) = .ok (0, host ++ 47 :: p) := by
  have hfind : find (ascii "://") (absolute host p) = some 4 :=
    find_append_of_some (by decide) _
  have htake : (absolute host p).take (4 + 3) = ascii "http://" := rfl
  have hdrop : (absolute host p).drop (0 + (4 + 3)) = host ++ 47 :: p := rfl
  unfold pruneScheme
  rw [hfind]
  simp only [substr_zero, htake, bind, Except.bind]
  rw [if_neg (not_not_intro rfl), erase_of_le _ (Nat.zero_le _), hdrop]
  rfl

/-- What is parsed of a host with a slash and a text behind it. -/
theorem behind_host {host p : Bytes} (hhost : 47 ∉ host) (hat : 64 ∉ host) (hp : 64 ∉ p) :
    behind 47 (behind 64 (host ++ 47 :: p)) = if p = [] then host ++ [47] else p := by
  have hnone : (64 : UInt8) ∉ host ++ 47 :: p := by
    intro hmem
    rcases List.mem_append.mp hmem with hmem | hmem
    · exact hat hmem
    · rcases List.mem_cons.mp hmem with hmem | hmem
      · exact absurd hmem (by decide)
      · exact hp hmem
  rw [behind_of_not_mem hnone, behind_around hhost]
  by_cases hnil : p = []
  · rw [if_pos hnil, if_pos hnil, hnil]
  · rw [if_neg hnil, if_neg hnil]

/-- A target that begins with a slash and does not end there. -/
theorem parseURI_rest {r : Request} {t : Bytes} (huri : r.uri = 47 :: t) (hne : t ≠ [])
    (hat : 64 ∉ t) (hscheme : ¬ SCHEME <:+: r.uri) : r.parseURI = parseText r t := by
  have hprune : pruneScheme r.uri = .ok (0, 47 :: t) := by
    rw [huri] at hscheme ⊢
    rw [pruneScheme_origin, if_neg hscheme]
  have hbehind := @behind_host [] _ (by simp) (by simp) hat
  rw [if_neg hne] at hbehind
  rw [parseURI_text hprune]
  exact congrArg _ hbehind

theorem percentDecoded_eq_nil {s : Bytes} (h : percentDecoded s = []) : s = [] := by
  revert h
  fun_cases percentDecoded s with
  | case1 => exact fun _ => rfl
  | case2 c => exact nofun
  | case3 c a => exact nofun
  | case4 c a b rest hdecode => exact nofun
  | case5 c a b rest hkeep => exact nofun

/-- A host in front of the last slash stays in the path. -/
theorem parseText_host {r r' : Request} {host : Bytes} (hne : host ≠ []) (hslash : 47 ∉ host)
    (hquery : 63 ∉ host) (h : parseText r (host ++ [47]) = .ok (0, r')) :
    r'.resHints.parsedUri.path ≠ [47] := by
  have hextract : extractPath (host ++ [47]) = .ok (host ++ [47], []) := by
    have hnone : find (ascii "?") (host ++ [47]) = none := by
      refine (find_singleton 63 _).trans (if_neg ?_)
      intro hmem
      rcases List.mem_append.mp hmem with hmem | hmem
      · exact hquery hmem
      · exact absurd (List.mem_singleton.mp hmem) (by decide)
    unfold extractPath
    rw [hnone]
    rfl
  have hsegs : pathSegments (host ++ [47]) = [host, []] ∨ pathSegments (host ++ [47]) = [[]] := by
    have hsplit : segments (host ++ [47]) = [host, []] := by
      rw [show host ++ [47] = host ++ 47 :: [] from rfl, segments_append,
        segments_of_not_mem hslash]
      rfl
    unfold pathSegments withoutDot
    split
    · rename_i hdot
      right
      have hhost : host = [46] := by
        match host, hslash, hdot with
        | [], _, _ => exact absurd rfl hne
        | [c], _, hdot =>
          have hc : some c = some 46 := hdot.1
          rw [Option.some.inj hc]
        | c :: d :: t, hslash, hdot =>
          have hd : some d = some 47 := hdot.2
          rw [Option.some.inj hd] at hslash
          exact absurd (by simp) hslash
      subst hhost
      rfl
    · left
      rw [hsplit]
      rfl
  unfold parseText at h
  rw [hextract] at h
  simp only [bind, Except.bind] at h
  rcases checkPath_eq (host ++ [47]) with ⟨path', hcheck⟩ | ⟨inner, last, v, hinner, hv, hcheck⟩
  · rw [hcheck] at h
    have hcode : (400 : ℤ) = 0 := (Prod.mk.inj (Except.ok.inj h)).1
    exact absurd hcode (by decide)
  · rw [hcheck] at h
    dsimp only at h
    rw [if_neg (not_not_intro rfl)] at h
    have hpath : [47].intercalate (v ++ [last]) = host ++ [47] ∨
        [47].intercalate (v ++ [last]) = [] := by
      rcases hsegs with hsegs | hsegs
      · rw [hsegs] at hinner
        change [host] ++ [[]] = inner ++ [last] at hinner
        obtain ⟨hinner, hlast⟩ := List.append_inj' hinner rfl
        subst hinner
        rw [← hlast]
        by_cases hup : host = ascii ".."
        · rw [hup] at hv
          cases hv
        · left
          have hkept : resolve (ascii "..") [] [host] = some [host] := if_neg hup
          rw [hkept, Option.some.injEq] at hv
          rw [← hv]
          simp [List.intercalate]
      · right
        rw [hsegs] at hinner
        change [] ++ [[]] = inner ++ [last] at hinner
        obtain ⟨hinner, hlast⟩ := List.append_inj' hinner rfl
        subst hinner
        rw [← hlast]
        cases hv
        rfl
    cases hprune : prunePath { r.resHints.parsedUri with
        query := []
        pathInfo := []
        path := [47].intercalate (v ++ [last]) } with
    | error e =>
      rw [hprune] at h
      cases h
    | ok uri =>
      have huri : uri.path = [47].intercalate (v ++ [last]) := prunePath_path hprune
      obtain ⟨uri', hpercent, hroute⟩ := prunePercent_route uri
      rw [hprune] at h
      dsimp only at h
      rw [hpercent] at h
      have hr : r.setParsedUri uri' = r' := (Prod.mk.inj (Except.ok.inj h)).2
      have hdecoded : r'.resHints.parsedUri.path = percentDecoded uri.path := by
        rw [← hr]
        exact congrArg Prod.fst hroute
      rw [hdecoded, huri]
      intro hsame
      rcases hpath with hpath | hpath
      · rw [hpath, show host ++ [47] = host ++ 47 :: [] from rfl, percentDecoded_append] at hsame
        have hnil : percentDecoded host = [] :=
          (List.append_inj' (show percentDecoded host ++ _ = [] ++ [47] from hsame) rfl).1
        exact hne (percentDecoded_eq_nil hnil)
      · rw [hpath] at hsame
        cases hsame

/-- A single slash is parsed as the path of the root. -/
theorem parseURI_slash {r r' : Request} (huri : r.uri = [47]) {code : ℤ}
    (h : r.parseURI = .ok (code, r')) : code = 0 ∧ r'.resHints.parsedUri.path = [47] := by
  obtain ⟨code', s, hparse, hsettled⟩ := parseURI_origin (t := []) huri
  rw [h, Except.ok.injEq, Prod.mk.injEq] at hparse
  obtain ⟨rfl, rfl⟩ := hparse
  have htaken : taken r.uri = some [47] := by
    rw [huri]
    decide
  have hcheck : checkPath [47] = .ok (0, [47]) := by decide
  have hprune : prunePath { path := [47] } =
      .ok { path := [47], root := [47], extension := ascii "/" } := by decide
  rw [htaken] at hsettled
  unfold settled at hsettled
  simp only [hcheck, hprune, bind, Except.bind] at hsettled
  rw [if_neg (not_not_intro rfl)] at hsettled
  obtain ⟨hcode, hroute⟩ := Prod.mk.inj (Except.ok.inj hsettled)
  exact ⟨hcode.symm, (congrArg Prod.fst hroute).symm⟩

/-- A target with scheme and host and the target without them agree when something is behind
the slash, and only then. -/
theorem parsedAlike_iff (r : Request) {host : Bytes} (p : Bytes) (hne : host ≠ [])
    (hhost : ∀ c ∈ host, c ≠ 47 ∧ c ≠ 63 ∧ c ≠ 64) (hat : 64 ∉ p) (hscheme : ¬ SCHEME <:+: p) :
    ParsedAlike r (absolute host p) (47 :: p) ↔ p ≠ [] := by
  have hslash : 47 ∉ host := fun h => (hhost 47 h).1 rfl
  have hquery : 63 ∉ host := fun h => (hhost 63 h).2.1 rfl
  have hathost : 64 ∉ host := fun h => (hhost 64 h).2.2 rfl
  have habsolute : Request.parseURI { r with uri := absolute host p } =
      parseText { r with uri := absolute host p } (if p = [] then host ++ [47] else p) := by
    rw [parseURI_text (pruneScheme_absolute host p), behind_host hslash hathost hat]
  have horigin : ¬ SCHEME <:+: 47 :: p := by
    intro h
    rcases List.infix_cons_iff.mp h with h | h
    · obtain ⟨_, ht⟩ := h
      exact absurd (List.cons.inj ht).1 (by decide)
    · exact hscheme h
  constructor
  · intro ⟨code, r₁, r₂, h₁, h₂, hparts⟩ hnil
    subst hnil
    obtain ⟨hcode, hpath⟩ := parseURI_slash rfl h₂
    rw [habsolute, if_pos rfl, hcode] at h₁
    exact parseText_host hne hslash hquery h₁ ((congrArg Prod.fst hparts).trans hpath)
  · intro hp
    have hrest : Request.parseURI { r with uri := 47 :: p } =
        parseText { r with uri := 47 :: p } p := parseURI_rest rfl hp hat horigin
    obtain ⟨code, r₂, h₂, -⟩ := parseURI_origin (r := { r with uri := 47 :: p }) rfl
    rw [if_neg hp, parseText_uri r (absolute host p) p] at habsolute
    rw [parseText_uri r (47 :: p) p] at hrest
    rw [hrest] at h₂
    unfold ParsedAlike
    rw [habsolute, hrest]
    cases hparse : parseText r p with
    | error e =>
      rw [hparse] at h₂
      cases h₂
    | ok out => exact ⟨out.1, _, _, rfl, rfl, rfl⟩

theorem parsedAlike_dots : ParsedAlike {} (absolute (ascii "h") (ascii "a/../b.py?x=/1"))
    (47 :: ascii "a/../b.py?x=/1") :=
  (parsedAlike_iff {} _ (by decide) (by decide +kernel) (by decide) (by decide)).mpr
    (by decide)

/-- The root of a host is not the root of its files. -/
theorem root_not_alike : ¬ ParsedAlike {} (absolute (ascii "h") []) (47 :: []) := by
  intro ⟨code, r₁, r₂, h₁, h₂, hparts⟩
  have hpath₁ : (Request.parseURI { uri := absolute (ascii "h") [] }).toOption.any
      (fun out => out.2.resHints.parsedUri.path = ascii "h/") = true := by decide +kernel
  have hpath₂ : (Request.parseURI { uri := [47] }).toOption.any
      (fun out => out.2.resHints.parsedUri.path = ascii "/") = true := by decide +kernel
  rw [h₁] at hpath₁
  rw [h₂] at hpath₂
  have hh : r₁.resHints.parsedUri.path = ascii "h/" := of_decide_eq_true hpath₁
  have hs : r₂.resHints.parsedUri.path = ascii "/" := of_decide_eq_true hpath₂
  have hsame : r₁.resHints.parsedUri.path = r₂.resHints.parsedUri.path := congrArg Prod.fst hparts
  rw [hh, hs] at hsame
  exact absurd hsame (by decide)

end Webserveau.AbsoluteTargets
