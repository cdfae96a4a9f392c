import Webserveau.AbsoluteTargets
import Webserveau.PathInfos
import Webserveau.PathSpellings

/-!
Default uris of directories.
The default uri is appended to the raw target, which is then parsed and matched again. A
target with a query takes it into the query, so the path stays that of the directory.
-/
namespace Webserveau.IndexTargets

open ByteStrings OrderedMaps Formats Requests Checks PathSegments PathConfinement OriginTargets
  AbsoluteTargets DirListings PathInfos PathSpellings QueryRouting

/-- What a parse makes of a path and a query. -/
theorem parseText_settled {text a q : Bytes} (h : extractPath text = .ok (a, q)) (r : Request) :
    ∃ code r', parseText r text = .ok (code, r') ∧
      settled r.resHints.parsedUri (some a) = .ok (code, route r'.resHints.parsedUri) ∧
      r'.resHints.parsedUri.query = (if code = 0 then percentDecoded q else q) ∧
      r'.uri = r.uri := by
  obtain ⟨⟨code, rt⟩, hsettled⟩ := settled_ok r.resHints.parsedUri (some a)
  unfold settled at hsettled
  dsimp only at hsettled
  unfold parseText settled
  rw [h]
  dsimp only
  simp only [bind, Except.bind] at hsettled ⊢
  cases hcheck : checkPath a with
  | error e =>
    rw [hcheck] at hsettled
    cases hsettled
  | ok out =>
    obtain ⟨res, path⟩ := out
    rw [hcheck] at hsettled
    dsimp only at hsettled ⊢
    by_cases hres : res ≠ 0
    · rw [if_pos hres, if_pos hres]
      exact ⟨_, _, rfl, rfl, rfl, rfl⟩
    · rw [if_neg hres] at hsettled ⊢
      rw [if_neg hres, prunePath_map]
      dsimp only
      cases hprune : prunePath { path := path } with
      | error e =>
        rw [hprune] at hsettled
        cases hsettled
      | ok parts =>
        have hpath : parts.path = path := prunePath_path hprune
        dsimp only [Except.map]
        unfold prunePercent
        simp only [translatePercent_eq, bind, Except.bind]
        refine ⟨_, _, rfl, ?_, rfl, rfl⟩
        rw [hpath.symm]
        rfl

/-- An accepted path is settled alike whatever was there before. -/
theorem settled_accepted {old : URI} {a : Bytes} {rt : Bytes × Bytes × Bytes × Bytes}
    (h : settled old (some a) = .ok (0, rt)) (old' : URI) :
    settled old' (some a) = .ok (0, rt) := by
  unfold settled at h ⊢
  dsimp only at h ⊢
  simp only [bind, Except.bind] at h ⊢
  cases hcheck : checkPath a with
  | error e =>
    rw [hcheck] at h
    cases h
  | ok out =>
    rw [hcheck] at h
    dsimp only at h ⊢
    by_cases hres : out.1 ≠ 0
    · rw [if_pos hres] at h
      have hcode : (400 : ℤ) = 0 := (Prod.mk.inj (Except.ok.inj h)).1
      exact absurd hcode (by decide)
    · rw [if_neg hres] at h ⊢
      exact h

theorem extensionOf_ne_slash {filename extension : Bytes} (h : extensionOf filename = .ok extension) :
    percentDecoded extension ≠ [47] := by
  unfold extensionOf at h
  split at h
  · cases h
    decide
  · rename_i i hdot
    obtain ⟨a, b, hs, hlength⟩ := rfind_eq_some hdot
    have hdrop : filename.drop i = 46 :: b := by
      rw [hs, ← hlength, List.append_assoc, List.drop_left]
      rfl
    rw [substrFrom_of_le (by
      rw [hs, List.length_append, List.length_append, hlength, Nat.add_assoc]
      exact Nat.le_add_right _ _), hdrop] at h
    cases h
    rw [percentDecoded_cons (by decide)]
    intro hsame
    exact absurd (List.cons.inj hsame).1 (by decide)

/-- Only a path that is empty or ends with a slash gets the extension of directories. -/
theorem prunePath_named {uri uri' : URI} (h : prunePath uri = .ok uri') (hne : uri.path ≠ [])
    (hlast : uri.path.getLast? ≠ some 47) : percentDecoded uri'.extension ≠ [47] := by
  unfold prunePath at h
  rw [if_neg (not_or.mpr ⟨hne, hlast⟩)] at h
  obtain ⟨root, -, h⟩ := bind_eq_ok_iff.mp h
  obtain ⟨filename, -, h⟩ := bind_eq_ok_iff.mp h
  obtain ⟨extension, hextension, h⟩ := bind_eq_ok_iff.mp h
  cases h
  exact extensionOf_ne_slash hextension

theorem segments_extend {d : Bytes} (hd : 47 ∉ d) (s : Bytes) :
    ∃ front back, segments s = front ++ [back] ∧ segments (s ++ d) = front ++ [back ++ d] := by
  induction hlength : s.length using Nat.strong_induction_on generalizing s with
  | h n ih =>
    by_cases hs : 47 ∈ s
    · obtain ⟨a, b, rfl, ha, -, -⟩ := split_first hs
      have hshort : b.length < n := by
        rw [← hlength, List.length_append, List.length_cons]
        omega
      obtain ⟨front, back, hsegs, hlonger⟩ := ih b.length hshort b rfl
      refine ⟨a :: front, back, ?_, ?_⟩
      · rw [segments_append, segments_of_not_mem ha, hsegs]
        rfl
      · rw [List.append_assoc, List.cons_append, segments_append, segments_of_not_mem ha, hlonger]
        rfl
    · refine ⟨[], s, segments_of_not_mem hs, segments_of_not_mem ?_⟩
      intro hmem
      rcases List.mem_append.mp hmem with hmem | hmem
      · exact hs hmem
      · exact hd hmem

theorem withoutDot_extend {d : Bytes} (hd : 47 ∉ d) (a : Bytes) :
    withoutDot (a ++ d) = withoutDot a ++ d := by
  unfold withoutDot
  match a with
  | [] =>
    have hnot : ¬ (([] ++ d)[0]? = some 46 ∧ ([] ++ d)[1]? = some 47) := by
      intro hslash
      exact hd (List.mem_of_getElem? hslash.2)
    rw [if_neg hnot]
    rfl
  | [c] =>
    have hnot : ¬ (([c] ++ d)[0]? = some 46 ∧ ([c] ++ d)[1]? = some 47) := by
      intro hslash
      have hfirst : d[0]? = some 47 := hslash.2
      exact hd (List.mem_of_getElem? hfirst)
    have hsingle : ¬ ([c][0]? = some 46 ∧ [c][1]? = some 47) := by
      intro hslash
      cases hslash.2
    rw [if_neg hnot, if_neg hsingle]
  | c :: c' :: rest =>
    by_cases hslash : c = 46 ∧ c' = 47
    · obtain ⟨rfl, rfl⟩ := hslash
      rfl
    · have hfront : ¬ ((c :: c' :: rest)[0]? = some 46 ∧ (c :: c' :: rest)[1]? = some 47) := by
        intro hboth
        exact hslash ⟨Option.some.inj hboth.1, Option.some.inj hboth.2⟩
      rw [if_neg hfront]
      exact if_neg hfront

/-- A text without a slash makes the last segment longer. -/
theorem pathSegments_extend {d : Bytes} (hd : 47 ∉ d) {a last : Bytes} {inner : List Bytes}
    (h : pathSegments a = inner ++ [last]) : pathSegments (a ++ d) = inner ++ [last ++ d] := by
  obtain ⟨front, back, hsegs, hlonger⟩ := segments_extend hd (withoutDot a)
  rw [pathSegments_eq, hsegs] at h
  rw [pathSegments_eq, withoutDot_extend hd, hlonger]
  cases front with
  | nil =>
    obtain ⟨rfl, hback⟩ := List.append_inj' (show [] ++ [back] = _ from h) rfl
    rw [← (List.cons.inj hback).1]
    rfl
  | cons first front =>
    rw [List.cons_append, tidy_concat] at h ⊢
    obtain ⟨hinner, hback⟩ := List.append_inj' h rfl
    rw [← hinner, ← (List.cons.inj hback).1]

/-- The last segment stands at the end of a path. -/
theorem intercalate_ends (v : List Bytes) (last : Bytes) :
    ∃ front, [47].intercalate (v ++ [last]) = front ++ last := by
  by_cases hv : v = []
  · subst hv
    exact ⟨[], List.intercalate_singleton⟩
  · refine ⟨[47].intercalate v ++ [47], ?_⟩
    rw [intercalate_append hv (by simp), List.intercalate_singleton, List.append_assoc]
    rfl

/-- A path with a name behind its last slash is accepted, and it is no directory. -/
theorem settled_named {a d : Bytes} {old : URI} {rt : Bytes × Bytes × Bytes × Bytes}
    (h : settled old (some a) = .ok (0, rt)) (hne : d ≠ []) (hd : 47 ∉ d) (old' : URI) :
    ∃ rt', settled old' (some (a ++ d)) = .ok (0, rt') ∧ rt'.2.2.2 ≠ [47] := by
  unfold settled at h ⊢
  dsimp only at h ⊢
  simp only [bind, Except.bind] at h ⊢
  rcases checkPath_resolved a with ⟨-, path', hcheck⟩ | ⟨inner, last, v, hsegs, hv, -⟩
  · rw [hcheck] at h
    have hcode : (400 : ℤ) = 0 := (Prod.mk.inj (Except.ok.inj h)).1
    exact absurd hcode (by decide)
  · have hlonger := pathSegments_extend hd hsegs
    rcases checkPath_resolved (a ++ d) with ⟨hnone, -⟩ | ⟨inner', last', v', hsegs', hv', hcheck⟩
    · rw [hlonger, List.dropLast_concat, hv] at hnone
      cases hnone
    · rw [hlonger] at hsegs'
      obtain ⟨-, hlast⟩ := List.append_inj' hsegs' rfl
      obtain ⟨front, hfront⟩ := intercalate_ends v' last'
      have hpath : [47].intercalate (v' ++ [last']) = (front ++ last) ++ d := by
        rw [hfront, ← (List.cons.inj hlast).1, List.append_assoc]
      have hnonempty : (front ++ last) ++ d ≠ [] := List.append_ne_nil_of_right_ne_nil _ hne
      have hend : ((front ++ last) ++ d).getLast? ≠ some 47 := by
        rw [List.getLast?_append_of_ne_nil _ hne]
        intro hslash
        exact hd (List.mem_of_getLast? hslash)
      rw [hcheck]
      dsimp only
      rw [if_neg (not_not_intro rfl), hpath]
      obtain ⟨out, hout⟩ := settled_ok old' (some (a ++ d))
      unfold settled at hout
      dsimp only at hout
      simp only [bind, Except.bind] at hout
      rw [hcheck] at hout
      dsimp only at hout
      rw [if_neg (not_not_intro rfl), hpath] at hout
      cases hprune : prunePath { path := (front ++ last) ++ d } with
      | error e =>
        rw [hprune] at hout
        cases hout
      | ok parts => exact ⟨_, rfl, prunePath_named hprune hnonempty hend⟩

theorem mem_percentDecoded {s : Bytes} (h : 47 ∈ s) : 47 ∈ percentDecoded s := by
  obtain ⟨x, y, rfl, -, -, -⟩ := split_first h
  rw [percentDecoded_append]
  exact List.mem_append_right _ (List.mem_cons_self ..)

theorem window_of_read {a b : UInt8} (h : (getInt [a, b] 16 0).1 = 0) : a ≠ 47 ∧ b ≠ 47 := by
  constructor
  · intro ha
    subst ha
    exact (getInt_slash b).1 h
  · intro hb
    subst hb
    exact (getInt_slash a).2 h

theorem percentDecoded_cons_ne {d : Bytes} (hd : 47 ∈ d) (c : UInt8) :
    percentDecoded (c :: d) ≠ [c] := by
  intro h
  match d, hd with
  | [a], _ => cases h
  | a :: b :: rest, hd =>
    rw [percentDecoded] at h
    split at h
    · rename_i hread
      obtain ⟨ha, hb⟩ := window_of_read hread.2
      have hrest := percentDecoded_eq_nil (List.cons.inj h).2
      rw [hrest] at hd
      rcases List.mem_cons.mp hd with hd | hd
      · exact ha hd.symm
      · exact hb (List.mem_singleton.mp hd).symm
    · have hnil := percentDecoded_eq_nil (List.cons.inj h).2
      cases hnil

/-- More text behind a text is seen in what is decoded when there is a slash in it. -/
theorem percentDecoded_longer {d : Bytes} (hd : 47 ∈ d) (q : Bytes) :
    percentDecoded (q ++ d) ≠ percentDecoded q := by
  fun_induction percentDecoded q with
  | case1 =>
    intro h
    have hnil : d = [] := percentDecoded_eq_nil h
    rw [hnil] at hd
    cases hd
  | case2 c => exact percentDecoded_cons_ne hd c
  | case3 c a =>
    intro h
    cases d with
    | nil => cases hd
    | cons b rest =>
      rw [List.cons_append, List.cons_append, List.nil_append, percentDecoded] at h
      split at h
      · rename_i hread
        obtain ⟨ha, hb⟩ := window_of_read hread.2
        have hrest := (List.cons.inj h).2
        have hslash : 47 ∈ rest := by
          rcases List.mem_cons.mp hd with hd | hd
          · exact absurd hd.symm hb
          · exact hd
        have hmem := mem_percentDecoded hslash
        rw [hrest] at hmem
        exact ha (List.mem_singleton.mp hmem).symm
      · exact percentDecoded_cons_ne hd a (List.cons.inj h).2
  | case4 c a b rest hread ih =>
    intro h
    rw [List.cons_append, List.cons_append, List.cons_append, percentDecoded, if_pos hread] at h
    exact ih (List.cons.inj h).2
  | case5 c a b rest hkept ih =>
    intro h
    rw [List.cons_append, List.cons_append, List.cons_append, percentDecoded, if_neg hkept] at h
    exact ih (List.cons.inj h).2

theorem percentDecoded_length_le (s : Bytes) : (percentDecoded s).length ≤ s.length := by
  fun_induction percentDecoded s with
  | case1 => exact Nat.le_refl _
  | case2 c => exact Nat.le_refl _
  | case3 c a => exact Nat.le_refl _
  | case4 c a b rest hread ih =>
    simp only [List.length_cons]
    omega
  | case5 c a b rest hkept ih =>
    simp only [List.length_cons] at ih ⊢
    omega

/-- Free of at signs and schemes. -/
def Clean (s : Bytes) : Prop := 64 ∉ s ∧ ¬ SCHEME <:+: s

theorem parseURI_clean {r : Request} {t : Bytes} (huri : r.uri = 47 :: t) (h : Clean r.uri) :
    r.parseURI = parseText r (text t) := by
  obtain ⟨hat, hscheme⟩ := h
  have hat' : 64 ∉ t := by
    intro hmem
    exact hat (huri ▸ List.mem_cons_of_mem 47 hmem)
  by_cases hne : t = []
  · subst hne
    have hprune : pruneScheme r.uri = .ok (0, [47]) := by
      rw [huri] at hscheme ⊢
      rw [pruneScheme_origin, if_neg hscheme]
    exact parseURI_text hprune
  · have htext : text t = t := if_neg hne
    rw [htext]
    exact parseURI_rest huri hne hat' hscheme

/-- A target with a scheme behind its slash is refused, and becomes the query as it is. -/
theorem parseURI_refused {r : Request} {t : Bytes} (huri : r.uri = 47 :: t)
    (h : SCHEME <:+: r.uri) :
    ∃ code r', r.parseURI = .ok (code, r') ∧
      r'.resHints.parsedUri = { r.resHints.parsedUri with query := r.uri, pathInfo := [] } := by
  have hprune : pruneScheme r.uri = .ok (1, r.uri) := by
    rw [huri] at h ⊢
    rw [pruneScheme_origin, if_pos h]
  unfold Request.parseURI
  dsimp only
  rw [hprune]
  exact ⟨_, _, rfl, rfl⟩

/-- The request was parsed, matched to a directory, and found a location. -/
structure AtDirectory (host : Host) (r : Request) (target : Bytes) (location : Location) : Prop where
  matched : ∃ r₀ r₁ : Request, r₀.uri = target ∧ r₀.parseURI = .ok (0, r₁) ∧
    host.matchRequest r₁ = .ok (0, r)
  type : r.type = .dir
  rules : r.resHints.locationRules = some location

theorem AtDirectory.facts {host : Host} {r : Request} {t a q : Bytes} {location : Location}
    (h : AtDirectory host r (47 :: t) location) (hclean : Clean (47 :: t))
    (hextract : extractPath (text t) = .ok (a, q)) :
    (∀ old, settled old (some a) = .ok (0, route r.resHints.parsedUri)) ∧
      r.resHints.parsedUri.query = percentDecoded q ∧ r.uri = 47 :: t ∧
      r.resHints.parsedUri.extension = [47] ∧
      host.matchCGIConfig r.resHints.parsedUri.path = none := by
  obtain ⟨⟨r₀, r₁, huri, hparse, hmatch⟩, htype, -⟩ := h
  obtain ⟨location', hin, hr⟩ := matchRequest_dir host r₁ _ hmatch rfl htype
  dsimp only at hr
  have hclean₀ : Clean r₀.uri := by
    rw [huri]
    exact hclean
  obtain ⟨code, s, hs, hsettled, hquery, huri'⟩ := parseText_settled hextract r₀
  rw [parseURI_clean huri hclean₀, hs, Except.ok.injEq, Prod.mk.injEq] at hparse
  obtain ⟨rfl, rfl⟩ := hparse
  have hsame : r.resHints.parsedUri = s.resHints.parsedUri := by rw [hr]; rfl
  rw [hsame]
  refine ⟨fun old => settled_accepted hsettled old, hquery, ?_, hin.slash, hin.cgi⟩
  rw [hr]
  exact huri'.trans huri

/-- The cgi leaves a uri as it is: its identifier ends the path and is the extension, and no
slash was made in the filename by decoding. -/
structure Uncut (identifier : Bytes) (uri : URI) : Prop where
  whole : cutEnd identifier uri.path = uri.path.length
  extension : identifier = uri.extension
  name : nameSplit uri.path = (uri.root, uri.filename)

theorem route_cutAtEnd_iff {uri : URI} {identifier : Bytes}
    (h : cutEnd identifier uri.path ≤ uri.path.length) :
    route (cutAtEnd uri identifier (cutEnd identifier uri.path)) = route uri ↔
      Uncut identifier uri := by
  constructor
  · intro hroute
    obtain ⟨hpath, hrest⟩ := Prod.mk.inj hroute
    obtain ⟨hroot, hrest⟩ := Prod.mk.inj hrest
    obtain ⟨hfilename, hextension⟩ := Prod.mk.inj hrest
    have htake : uri.path.take (cutEnd identifier uri.path) = uri.path := hpath
    have hlength := congrArg List.length htake
    rw [List.length_take] at hlength
    refine ⟨by omega, hextension, ?_⟩
    rw [← htake]
    exact Prod.ext hroot hfilename
  · intro ⟨hwhole, hextension, hname⟩
    have htake : uri.path.take uri.path.length = uri.path := List.take_length
    unfold cutAtEnd route
    rw [hwhole]
    dsimp only
    rw [htake, hname, hextension]

/-- Path, root, filename and extension are those of the target, and the query is unchanged. -/
def Rewritten (host : Host) (r : Request) (uri : Bytes) : Prop :=
  ∃ code r' code' s, host.checkDirRessource r = .ok (code, r') ∧
    Request.parseURI { r with uri := uri } = .ok (code', s) ∧
    route r'.resHints.parsedUri = route s.resHints.parsedUri ∧
    r'.resHints.parsedUri.query = r.resHints.parsedUri.query

/-- A target with or without a query. -/
def targetOf (p : Bytes) : Option Bytes → Bytes
  | none => p
  | some q => p ++ 63 :: q

/-- The rewriting parses the appended target, and matches what that gives. -/
theorem checkDirRessource_eq (host : Host) {r s : Request} {location : Location} {code : ℤ}
    (hrules : r.resHints.locationRules = some location) (hne : location.default_uri ≠ [])
    (hparse : Request.parseURI { r with uri := r.uri ++ location.default_uri } = .ok (code, s)) :
    host.checkDirRessource r = (host.matchRequest s).map fun out =>
      (if out.1 ≠ 0 then RES_NOT_FOUND else 0, out.2) := by
  unfold Host.checkDirRessource Request.parseURISuffix
  rw [hrules]
  dsimp only
  rw [if_pos hne, hparse]
  show (host.matchRequest s >>= _) = _
  cases host.matchRequest s with
  | error e => rfl
  | ok out => rfl

theorem text_append {t d : Bytes} (hd : d ≠ []) : text (t ++ d) = t ++ d :=
  if_neg (List.append_ne_nil_of_right_ne_nil t hd)

/-- Without a query the target of the rewriting is the one that is compared with. -/
theorem rewritten_plain_iff {host : Host} {r : Request} {t : Bytes} {location : Location}
    (h : AtDirectory host r (47 :: t) location) (hne : location.default_uri ≠ [])
    (hmark : 63 ∉ t ++ location.default_uri) (hclean : Clean (47 :: t))
    (hdefault : Clean location.default_uri) :
    Rewritten host r (47 :: t ++ location.default_uri) ↔
      ¬ SCHEME <:+: 47 :: t ++ location.default_uri ∧
        ∀ code s cgi, Request.parseURI { r with uri := 47 :: t ++ location.default_uri } =
          .ok (code, s) → host.matchCGIConfig s.resHints.parsedUri.path = some cgi →
            Uncut cgi.extension s.resHints.parsedUri := by
  have hmark' : 63 ∉ text t := by
    unfold text
    split
    · decide
    · exact fun hmem => hmark (List.mem_append_left _ hmem)
  obtain ⟨-, hquery, huri, -, -⟩ := h.facts hclean (extractPath_plain hmark')
  have hempty : r.resHints.parsedUri.query = [] := hquery
  obtain ⟨code, s, hparse, -⟩ :=
    parseURI_origin (r := { r with uri := 47 :: t ++ location.default_uri }) rfl
  have hcheck := checkDirRessource_eq host h.rules hne (by rw [huri]; exact hparse)
  have hsquery : s.resHints.parsedUri.query = [] ↔ ¬ SCHEME <:+: 47 :: t ++ location.default_uri := by
    by_cases hscheme : SCHEME <:+: 47 :: t ++ location.default_uri
    · obtain ⟨code', s', hrefused, hparts⟩ := parseURI_refused
        (r := { r with uri := 47 :: t ++ location.default_uri }) rfl hscheme
      rw [hparse, Except.ok.injEq, Prod.mk.injEq] at hrefused
      rw [hrefused.2, hparts]
      exact iff_of_false nofun (not_not_intro hscheme)
    · have hat : 64 ∉ 47 :: t ++ location.default_uri := by
        intro hmem
        rcases List.mem_append.mp hmem with hmem | hmem
        · exact hclean.1 hmem
        · exact hdefault.1 hmem
      have htext := parseURI_clean (r := { r with uri := 47 :: t ++ location.default_uri })
        (t := t ++ location.default_uri) rfl ⟨hat, hscheme⟩
      rw [text_append hne] at htext
      obtain ⟨code', s', hs', -, hq, -⟩ := parseText_settled (extractPath_plain hmark)
        { r with uri := 47 :: t ++ location.default_uri }
      rw [htext, hs', Except.ok.injEq, Prod.mk.injEq] at hparse
      rw [← hparse.2, hq]
      refine iff_of_true ?_ hscheme
      split
      · rfl
      · rfl
  have hmatch := matchRequest_uri host s
  unfold Rewritten
  rw [hcheck, hparse, hempty, ← hsquery]
  cases hcgi : host.matchCGIConfig s.resHints.parsedUri.path with
  | none =>
    obtain ⟨code', s', hs', hparts⟩ := hmatch.1 hcgi
    rw [hs']
    constructor
    · intro ⟨_, r', _, s'', hr', hs'', _, hrquery⟩
      rw [Except.ok.injEq, Prod.mk.injEq] at hs''
      cases hr'
      rw [hparts] at hrquery
      refine ⟨hrquery, ?_⟩
      intro code'' s₃ cgi hs₃ hcgi'
      rw [Except.ok.injEq, Prod.mk.injEq] at hs₃
      rw [← hs₃.2, hcgi] at hcgi'
      cases hcgi'
    · intro ⟨hnil, _⟩
      exact ⟨_, s', code, s, rfl, rfl, congrArg route hparts, (congrArg URI.query hparts).trans hnil⟩
  | some cgi =>
    have hcut := hmatch.2 cgi hcgi
    split at hcut
    · rename_i hfits
      obtain ⟨s', hs', -, hparts⟩ := hcut
      rw [hs']
      constructor
      · intro ⟨_, r', _, s'', hr', hs'', hroute, hrquery⟩
        rw [Except.ok.injEq, Prod.mk.injEq] at hs''
        cases hr'
        rw [hparts] at hrquery hroute
        refine ⟨hrquery, ?_⟩
        intro code'' s₃ cgi' hs₃ hcgi'
        rw [Except.ok.injEq, Prod.mk.injEq] at hs₃
        rw [← hs₃.2, hcgi] at hcgi'
        cases hcgi'
        rw [← hs₃.2]
        rw [← hs''.2] at hroute
        exact (route_cutAtEnd_iff hfits).mp hroute
      · intro ⟨hnil, huncut⟩
        refine ⟨_, s', code, s, rfl, rfl, ?_, (congrArg URI.query hparts).trans hnil⟩
        rw [hparts]
        exact (route_cutAtEnd_iff hfits).mpr (huncut code s cgi rfl hcgi)
    · rename_i hlong
      rw [hcut]
      constructor
      · intro ⟨_, _, _, _, hr', _⟩
        cases hr'
      · intro ⟨_, huncut⟩
        exact absurd (huncut code s cgi rfl hcgi).whole fun hwhole => hlong (le_of_eq hwhole)

theorem scheme_append {a d : Bytes} (hd : 47 ∉ d) (h : SCHEME <:+: a ++ d) : SCHEME <:+: a := by
  have hslash : ∀ s, s <:+: d → 47 ∉ s := fun s hs hmem => hd (hs.subset hmem)
  rcases List.infix_append_iff.mp h with h | h | ⟨l₁, l₂, hscheme, hl₁, hl₂⟩
  · exact h
  · exact absurd (by decide) (hslash _ h)
  · have hnil : l₂ = [] := by
      rcases List.eq_nil_or_concat l₂ with hnil | ⟨front, c, hl₂'⟩
      · exact hnil
      · have hlast : (47 : UInt8) = c := by
          have hends := congrArg List.getLast? hscheme
          rw [hl₂', List.concat_eq_append, ← List.append_assoc, List.getLast?_concat] at hends
          exact Option.some.inj hends
        have hmem : 47 ∈ l₂ := by
          rw [hl₂', hlast]
          simp
        exact absurd hmem (hslash _ hl₂.isInfix)
    rw [hnil, List.append_nil] at hscheme
    rw [hscheme]
    exact hl₁.isInfix

/-- With a query the rewriting leaves the path of the directory or changes the query. -/
theorem not_rewritten_query {host : Host} {r : Request} {t q : Bytes} {location : Location}
    (h : AtDirectory host r (47 :: t ++ 63 :: q) location) (hne : location.default_uri ≠ [])
    (hmark : 63 ∉ t) (hmark' : 63 ∉ location.default_uri) (hclean : Clean (47 :: t))
    (hquery : Clean q) (hdefault : Clean location.default_uri) :
    ¬ Rewritten host r (47 :: t ++ location.default_uri) := by
  have hwhole : Clean (47 :: (t ++ 63 :: q)) := by
    constructor
    · intro hmem
      rcases List.mem_append.mp (show 64 ∈ (47 :: t) ++ 63 :: q from hmem) with hmem | hmem
      · exact hclean.1 hmem
      · rcases List.mem_cons.mp hmem with hmem | hmem
        · exact absurd hmem (by decide)
        · exact hquery.1 hmem
    · intro hscheme
      rcases (infix_around (a := 47 :: t) (by decide)).mp hscheme with hscheme | hscheme
      · exact hclean.2 hscheme
      · exact hquery.2 hscheme
  have htext : text (t ++ 63 :: q) = t ++ 63 :: q := text_append (List.cons_ne_nil _ _)
  obtain ⟨hsettled, hrquery, huri, hextension, hcgi⟩ :=
    AtDirectory.facts (t := t ++ 63 :: q) h hwhole (by rw [htext]; exact extractPath_query hmark q)
  intro ⟨_, r', _, s, hr', hs, hroute, hkept⟩
  have hraw : r.uri ++ location.default_uri = 47 :: (t ++ 63 :: (q ++ location.default_uri)) := by
    rw [huri, List.cons_append, List.append_assoc, List.cons_append]
  obtain ⟨code, s', hparse, -⟩ :=
    parseURI_origin (r := { r with uri := r.uri ++ location.default_uri }) hraw
  have hcheck := checkDirRessource_eq host h.rules hne hparse
  have hdecoded : percentDecoded (q ++ location.default_uri) = percentDecoded q ∧
      route s.resHints.parsedUri = route r.resHints.parsedUri := by
    by_cases hscheme : SCHEME <:+: r.uri ++ location.default_uri
    · obtain ⟨code', s'', hrefused, hparts⟩ :=
        parseURI_refused (r := { r with uri := r.uri ++ location.default_uri }) hraw hscheme
      rw [hparse, Except.ok.injEq, Prod.mk.injEq] at hrefused
      rw [← hrefused.2] at hparts
      have hcgi' : host.matchCGIConfig s'.resHints.parsedUri.path = none := by
        rw [hparts]
        exact hcgi
      obtain ⟨code'', r'', hr'', hsame⟩ := (matchRequest_uri host s').1 hcgi'
      rw [hcheck, hr''] at hr'
      cases hr'
      rw [hsame, hparts, hrquery] at hkept
      have hlength := congrArg List.length hkept
      have hle := percentDecoded_length_le q
      have hlong : (r.uri ++ location.default_uri).length = (percentDecoded q).length := hlength
      rw [hraw] at hlong
      simp only [List.length_cons, List.length_append] at hlong
      omega
    · have hat : 64 ∉ r.uri ++ location.default_uri := by
        intro hmem
        rcases List.mem_append.mp hmem with hmem | hmem
        · rw [huri] at hmem
          exact hwhole.1 hmem
        · exact hdefault.1 hmem
      have htext' := parseURI_clean (r := { r with uri := r.uri ++ location.default_uri }) hraw
        ⟨hat, hscheme⟩
      rw [text_append (List.cons_ne_nil _ _)] at htext'
      obtain ⟨code', s'', hs'', hsettled', hsquery, -⟩ :=
        parseText_settled (extractPath_query hmark (q ++ location.default_uri))
          { r with uri := r.uri ++ location.default_uri }
      rw [htext', hs'', Except.ok.injEq, Prod.mk.injEq] at hparse
      rw [hsettled, Except.ok.injEq, Prod.mk.injEq] at hsettled'
      obtain ⟨hzero, hsame⟩ := hsettled'
      rw [← hzero, if_pos rfl] at hsquery
      rw [hparse.2] at hsquery hsame
      have hcgi' : host.matchCGIConfig s'.resHints.parsedUri.path = none := by
        have hpath : r.resHints.parsedUri.path = s'.resHints.parsedUri.path :=
          congrArg Prod.fst hsame
        rw [← hpath]
        exact hcgi
      obtain ⟨code'', r'', hr'', hparts⟩ := (matchRequest_uri host s').1 hcgi'
      rw [hcheck, hr''] at hr'
      cases hr'
      rw [hparts] at hkept hroute
      rw [hsquery, hrquery] at hkept
      exact ⟨hkept, hroute.symm.trans hsame.symm⟩
  obtain ⟨hdecoded, hstays⟩ := hdecoded
  have hslash : 47 ∉ location.default_uri := fun hslash => percentDecoded_longer hslash q hdecoded
  have hclean' : Clean (47 :: t ++ location.default_uri) := by
    constructor
    · intro hmem
      rcases List.mem_append.mp hmem with hmem | hmem
      · exact hclean.1 hmem
      · exact hdefault.1 hmem
    · exact fun hscheme => hclean.2 (scheme_append hslash hscheme)
  have hmarks : 63 ∉ t ++ location.default_uri := by
    intro hmem
    rcases List.mem_append.mp hmem with hmem | hmem
    · exact hmark hmem
    · exact hmark' hmem
  have htext' := parseURI_clean (r := { r with uri := 47 :: t ++ location.default_uri })
    (t := t ++ location.default_uri) rfl hclean'
  rw [text_append hne] at htext'
  obtain ⟨code', s'', hs'', hsettled', -, -⟩ :=
    parseText_settled (extractPath_plain hmarks) { r with uri := 47 :: t ++ location.default_uri }
  rw [htext', hs'', Except.ok.injEq, Prod.mk.injEq] at hs
  obtain ⟨rt, hnamed, hne'⟩ := settled_named (hsettled {}) hne hslash
    r.resHints.parsedUri
  rw [hnamed, Except.ok.injEq, Prod.mk.injEq] at hsettled'
  rw [hsettled'.2, hs.2, hstays] at hne'
  exact hne' hextension

/-- The index takes the place of its directory, query and all, exactly when the target has no
query, the appended target is no scheme, and a cgi that matches it cuts nothing off. -/
theorem rewritten_iff {host : Host} {r : Request} {t : Bytes} {query : Option Bytes}
    {location : Location} (h : AtDirectory host r (targetOf (47 :: t) query) location)
    (hne : location.default_uri ≠ []) (hmark : 63 ∉ t) (hmark' : 63 ∉ location.default_uri)
    (hclean : Clean (47 :: t)) (hquery : ∀ q ∈ query, Clean q)
    (hdefault : Clean location.default_uri) :
    Rewritten host r (47 :: t ++ location.default_uri) ↔
      query = none ∧ ¬ SCHEME <:+: 47 :: t ++ location.default_uri ∧
        ∀ code s cgi, Request.parseURI { r with uri := 47 :: t ++ location.default_uri } =
          .ok (code, s) → host.matchCGIConfig s.resHints.parsedUri.path = some cgi →
            Uncut cgi.extension s.resHints.parsedUri := by
  have hmarks : 63 ∉ t ++ location.default_uri := by
    intro hmem
    rcases List.mem_append.mp hmem with hmem | hmem
    · exact hmark hmem
    · exact hmark' hmem
  cases query with
  | none =>
    rw [rewritten_plain_iff h hne hmarks hclean hdefault]
    exact (and_iff_right rfl).symm
  | some q =>
    refine iff_of_false ?_ fun h => by cases h.1
    exact not_rewritten_query h hne hmark hmark' hclean (hquery q rfl) hdefault

/-- A host with one location, which has an index. -/
def indexHost : Host where
  locationMap := OrderedMap.empty.insert (ascii "*") {
    root := ascii "/x/"
    default_uri := ascii "index.html"
    redir_valid := unredirected }

theorem exists_atDirectory {host : Host} {target d : Bytes}
    (h : (Request.parseURI { uri := target }).toOption.any (fun out => out.1 = 0 ∧
      (host.matchRequest out.2).toOption.any fun out => out.1 = 0 ∧ out.2.type = .dir ∧
        out.2.resHints.locationRules.any fun location => location.default_uri = d) = true) :
    ∃ r location, AtDirectory host r target location ∧ location.default_uri = d := by
  obtain ⟨out, hparse, hout⟩ := exists_of_any h
  obtain ⟨hzero, hmatch⟩ := of_decide_eq_true hout
  obtain ⟨out', hmatch, hout'⟩ := exists_of_any hmatch
  obtain ⟨hzero', htype, hrules⟩ := of_decide_eq_true hout'
  obtain ⟨location, hlocation, hd⟩ := (Option.any_eq_true _ _).mp hrules
  obtain ⟨code, r₁⟩ := out
  obtain ⟨code', r⟩ := out'
  dsimp only at hzero hzero' htype hlocation hmatch
  subst hzero hzero'
  exact ⟨r, location, ⟨⟨_, r₁, rfl, hparse, hmatch⟩, htype, hlocation⟩, of_decide_eq_true hd⟩

theorem index_rewritten : ∃ r location,
    AtDirectory indexHost r (targetOf (47 :: ascii "a/") none) location ∧
      Rewritten indexHost r (47 :: ascii "a/" ++ location.default_uri) := by
  obtain ⟨r, location, hdir, hd⟩ := @exists_atDirectory indexHost
    (47 :: ascii "a/") (ascii "index.html") (by decide +kernel)
  refine ⟨r, location, hdir, (rewritten_iff hdir ?_ (by decide) ?_ ⟨by decide, by decide⟩ ?_
    ?_).mpr ⟨rfl, ?_, ?_⟩⟩
  · rw [hd]
    decide
  · rw [hd]
    decide
  · intro q hq
    cases hq
  · rw [hd]
    exact ⟨by decide, by decide⟩
  · rw [hd]
    decide
  · intro code s cgi _ hcgi
    cases hcgi

/-- The index of `/a/?x` is looked for in the query. -/
theorem query_not_rewritten : ∃ r location,
    AtDirectory indexHost r (targetOf (47 :: ascii "a/") (some (ascii "x"))) location ∧
      location.default_uri = ascii "index.html" ∧
      ¬ Rewritten indexHost r (47 :: ascii "a/" ++ location.default_uri) := by
  obtain ⟨r, location, hdir, hd⟩ := @exists_atDirectory indexHost
    (47 :: ascii "a/" ++ 63 :: ascii "x") (ascii "index.html") (by decide +kernel)
  refine ⟨r, location, hdir, hd, not_rewritten_query hdir ?_ (by decide) ?_
    ⟨by decide, by decide⟩ ⟨by decide, by decide⟩ ?_⟩
  · rw [hd]
    decide
  · rw [hd]
    decide
  · rw [hd]
    exact ⟨by decide, by decide⟩

end Webserveau.IndexTargets
