import Webserveau.PathConfinement

/-!
Targets that begin with a slash.
Such a target has no scheme that could be pruned, so one anywhere in it is refused. What
follows the first at sign of the target, and then the first slash, is the text that is
taken for the path, up to the first question mark; a delimiter that ends the target is
left alone.
-/
namespace Webserveau.OriginTargets

open ByteStrings OrderedMaps Formats Requests PathSegments PathConfinement

/-- What follows the first occurrence of a byte, unless it ends the text. -/
def behind (c : UInt8) (s : Bytes) : Bytes :=
  if c ∈ s.dropLast then (s.dropWhile (· ≠ c)).tail else s

theorem behind_of_not_mem {c : UInt8} {s : Bytes} (h : c ∉ s) : behind c s = s := by
  unfold behind
  rw [if_neg fun hfront => h (List.dropLast_subset s hfront)]

/-- The text around the first occurrence. -/
theorem behind_around {c : UInt8} {a : Bytes} (ha : c ∉ a) (b : Bytes) :
    behind c (a ++ c :: b) = if b = [] then a ++ c :: b else b := by
  have hdrop : (a ++ c :: b).dropWhile (· ≠ c) = c :: b := by
    rw [List.dropWhile_append_of_pos (by
      intro x hx
      rw [decide_eq_true_eq]
      intro h
      exact ha (h ▸ hx))]
    exact List.dropWhile_cons_of_neg (by simp)
  unfold behind
  rw [hdrop, List.tail_cons]
  by_cases hb : b = []
  · subst hb
    have hfront : c ∉ (a ++ [c]).dropLast := by rwa [List.dropLast_concat]
    rw [if_neg hfront, if_pos rfl]
  · have hfront : c ∈ (a ++ c :: b).dropLast := by
      rw [List.dropLast_append_of_ne_nil (List.cons_ne_nil _ _),
        List.dropLast_cons_of_ne_nil hb]
      simp
    rw [if_pos hfront, if_neg hb]

/-- The longest front part without a byte, and the length it has. -/
theorem split_first {c : UInt8} {s : Bytes} (h : c ∈ s) :
    ∃ a b, s = a ++ c :: b ∧ c ∉ a ∧ find [c] s = some a.length ∧
      s.takeWhile (· ≠ c) = a := by
  refine ⟨s.takeWhile (· ≠ c), (s.dropWhile (· ≠ c)).tail, split_at_mem h, ?_, ?_, rfl⟩
  · intro hmem
    have hne := List.mem_takeWhile_imp hmem
    simp at hne
  · rw [find_singleton, if_pos h]

theorem pruneDelim_eq (c : UInt8) (s : Bytes) : pruneDelim s [c] = .ok (behind c s) := by
  unfold pruneDelim
  by_cases hc : c ∈ s
  · obtain ⟨a, b, hs, ha, hfind, -⟩ := split_first hc
    subst hs
    rw [hfind, behind_around ha]
    dsimp only
    by_cases hb : b = []
    · have hlast : ¬ a.length + 1 ≠ (a ++ c :: b).length := by
        rw [hb, List.length_append]
        exact not_not_intro rfl
      rw [if_neg hlast, if_pos hb]
      rfl
    · have hinner : a.length + 1 ≠ (a ++ c :: b).length := by
        have hpos := List.length_pos_of_ne_nil hb
        rw [List.length_append, List.length_cons]
        omega
      rw [if_pos hinner, if_neg hb, erase_of_le _ (Nat.zero_le _), List.take_zero,
        List.nil_append, Nat.zero_add, ← List.drop_drop, List.drop_left]
      rfl
  · rw [find_singleton, if_neg hc, behind_of_not_mem hc]
    rfl

theorem extractPath_plain {a : Bytes} (ha : 63 ∉ a) : extractPath a = .ok (a, []) := by
  have hnone : find (ascii "?") a = none := (find_singleton 63 a).trans (if_neg ha)
  unfold extractPath
  rw [hnone]
  rfl

theorem extractPath_query {a : Bytes} (ha : 63 ∉ a) (q : Bytes) :
    extractPath (a ++ 63 :: q) = .ok (a, q) := by
  have hmem : 63 ∈ a ++ 63 :: q := List.mem_append_right a (List.mem_cons_self ..)
  have htake : (a ++ 63 :: q).takeWhile (· ≠ 63) = a := by
    rw [List.takeWhile_append_of_pos]
    · rw [List.takeWhile_cons_of_neg (by simp), List.append_nil]
    · intro x hx
      rw [decide_eq_true_eq]
      intro h
      exact ha (h ▸ hx)
  have hfind : find (ascii "?") (a ++ 63 :: q) = some a.length := by
    refine (find_singleton 63 _).trans ?_
    rw [if_pos hmem, htake]
  have hdrop : (a ++ 63 :: q).drop (0 + (a.length + 1)) = q := by
    rw [Nat.zero_add, ← List.drop_drop, List.drop_left]
    rfl
  unfold extractPath
  rw [hfind]
  simp only [substr_zero, List.take_left, erase_of_le _ (Nat.zero_le _), bind, Except.bind, hdrop]
  rfl

theorem extractPath_eq (s : Bytes) :
    ∃ query, extractPath s = .ok (s.takeWhile (· ≠ 63), query) := by
  by_cases hc : 63 ∈ s
  · obtain ⟨a, b, hs, ha, -, htake⟩ := split_first hc
    refine ⟨b, ?_⟩
    rw [htake, hs]
    exact extractPath_query ha b
  · refine ⟨[], ?_⟩
    rw [List.takeWhile_eq_self_iff.mpr]
    · exact extractPath_plain hc
    · intro x hx
      rw [decide_eq_true_eq]
      intro h
      exact hc (h ▸ hx)

/-- The mark of a scheme. -/
abbrev SCHEME : Bytes := ascii "://"

theorem pruneScheme_origin (t : Bytes) :
    pruneScheme (47 :: t) = .ok (if SCHEME <:+: 47 :: t then 1 else 0, 47 :: t) := by
  unfold pruneScheme
  split
  · rename_i hnone
    rw [if_neg (find_eq_none_iff.mp hnone)]
    rfl
  · rename_i n hsome
    have hinfix : SCHEME <:+: 47 :: t := find_isSome_iff.mp (by rw [hsome]; rfl)
    have hhttp : (47 :: t).take (n + 3) ≠ ascii "http://" := by
      intro h
      have hhead : (47 : UInt8) = 104 := (List.cons.inj h).1
      exact absurd hhead (by decide)
    simp only [substr_zero, bind, Except.bind]
    rw [if_pos hhttp, if_pos hinfix]
    rfl

/-- The text that is taken for the path of a target, none when the target is refused. -/
def taken (target : Bytes) : Option Bytes :=
  if SCHEME <:+: target then none
  else some ((behind 47 (behind 64 target)).takeWhile (· ≠ 63))

/-- What routing goes by: path, root, filename and extension. -/
def route (uri : URI) : Bytes × Bytes × Bytes × Bytes :=
  (uri.path, uri.root, uri.filename, uri.extension)

/-- The path and its parts, decoded. -/
def decodedRoute (uri : URI) : Bytes × Bytes × Bytes × Bytes :=
  (percentDecoded uri.path, percentDecoded uri.root, percentDecoded uri.filename,
    percentDecoded uri.extension)

/-- The code and the parts a text is settled to, from the parts there were before. -/
def settled (old : URI) : Option Bytes → Checked (ℤ × Bytes × Bytes × Bytes × Bytes)
  | none => return (400, route old)
  | some text => do
    let (res, path) ← checkPath text
    if res ≠ 0 then return (400, route { old with path := path })
    else return (0, decodedRoute (← prunePath { path := path }))

/-- The parts of a path depend on nothing else. -/
theorem prunePath_map (uri : URI) :
    prunePath uri = (prunePath { path := uri.path }).map fun parts => { uri with
      root := parts.root
      filename := parts.filename
      extension := parts.extension } := by
  unfold prunePath
  by_cases hdir : uri.path = [] ∨ uri.path.getLast? = some 47
  · rw [if_pos hdir, if_pos hdir]
    rfl
  · rw [if_neg hdir, if_neg hdir]
    dsimp only
    cases rootOf uri.path (rfind (ascii "/") uri.path) with
    | error e => rfl
    | ok root =>
      cases substrFrom uri.path ((rfind (ascii "/") uri.path).elim 0 (· + 1)) with
      | error e => rfl
      | ok filename =>
        show (extensionOf filename >>= _) = Except.map _ (extensionOf filename >>= _)
        cases extensionOf filename with
        | error e => rfl
        | ok extension => rfl

theorem prunePercent_route (uri : URI) :
    ∃ uri', prunePercent uri = .ok uri' ∧ route uri' = decodedRoute uri := by
  unfold prunePercent
  simp only [translatePercent_eq, bind, Except.bind]
  exact ⟨_, rfl, rfl⟩

theorem parseURI_settled {r : Request} {t : Bytes} (h : r.uri = 47 :: t) :
    (r.parseURI.map fun out => (out.1, route out.2.resHints.parsedUri)) =
      settled r.resHints.parsedUri (taken r.uri) := by
  have hat : ascii "@" = [64] := rfl
  have hslash : ascii "/" = [47] := rfl
  obtain ⟨query, hextract⟩ := extractPath_eq (behind 47 (behind 64 r.uri))
  have hscheme := pruneScheme_origin t
  rw [← h] at hscheme
  unfold Request.parseURI taken
  rw [hat, hslash]
  by_cases hrefused : SCHEME <:+: r.uri
  · rw [if_pos hrefused] at hscheme ⊢
    dsimp only
    rw [hscheme]
    rfl
  · rw [if_neg hrefused] at hscheme ⊢
    dsimp only
    simp only [hscheme, pruneDelim_eq, hextract, bind, Except.bind, settled]
    rw [if_neg (not_not_intro rfl)]
    cases checkPath ((behind 47 (behind 64 r.uri)).takeWhile (· ≠ 63)) with
    | error e => rfl
    | ok out =>
      obtain ⟨res, path⟩ := out
      dsimp only
      by_cases hres : res ≠ 0
      · rw [if_pos hres, if_pos hres]
        rfl
      · rw [if_neg hres, if_neg hres, prunePath_map]
        dsimp only
        cases hprune : prunePath { path := path } with
        | error e => rfl
        | ok parts =>
          have hpath : parts.path = path := prunePath_path hprune
          dsimp only [Except.map]
          obtain ⟨uri', hpercent, hroute⟩ := prunePercent_route {
            filename := parts.filename
            path := path
            root := parts.root
            extension := parts.extension
            query := query }
          rw [hpercent]
          show Except.ok (0, route uri') = Except.ok (0, decodedRoute parts)
          rw [hroute, ← hpath]
          rfl

/-- A text is always settled. -/
theorem settled_ok (old : URI) (text : Option Bytes) : ∃ out, settled old text = .ok out := by
  cases text with
  | none => exact ⟨_, rfl⟩
  | some text =>
    have hprune : ∀ path, ∃ parts, prunePath { path := path } = .ok parts := by
      intro path
      unfold prunePath
      split
      · exact ⟨_, rfl⟩
      · obtain ⟨root, hroot⟩ : ∃ root, rootOf path (rfind (ascii "/") path) = .ok root := by
          unfold rootOf
          split
          · exact ⟨_, rfl⟩
          · exact ⟨_, substr_zero _ _⟩
        have hfits : (rfind (ascii "/") path).elim 0 (· + 1) ≤ path.length := by
          cases hlast : rfind (ascii "/") path with
          | none => exact Nat.zero_le _
          | some i =>
            obtain ⟨a, b, hs, hlen⟩ := rfind_eq_some hlast
            rw [hs, List.length_append, List.length_append, hlen]
            exact Nat.le_add_right _ _
        have hextension : ∀ filename, ∃ extension, extensionOf filename = .ok extension := by
          intro filename
          unfold extensionOf
          split
          · exact ⟨_, rfl⟩
          · rename_i i hdot
            obtain ⟨a, b, hs, hlen⟩ := rfind_eq_some hdot
            refine ⟨_, substrFrom_of_le ?_⟩
            rw [hs, List.length_append, List.length_append, hlen, Nat.add_assoc]
            exact Nat.le_add_right _ _
        obtain ⟨extension, hextension⟩ := hextension (path.drop
          ((rfind (ascii "/") path).elim 0 (· + 1)))
        dsimp only
        rw [hroot, substrFrom_of_le hfits]
        simp only [bind, Except.bind, hextension]
        exact ⟨_, rfl⟩
    unfold settled
    dsimp only
    rcases checkPath_eq text with ⟨path, hcheck⟩ | ⟨inner, last, v, -, -, hcheck⟩
    · rw [hcheck]
      exact ⟨_, rfl⟩
    · obtain ⟨parts, hparts⟩ := hprune ([47].intercalate (v ++ [last]))
      rw [hcheck]
      simp only [bind, Except.bind, hparts]
      exact ⟨_, rfl⟩

/-- A target that begins with a slash is always settled to a code and the parts of a path. -/
theorem parseURI_origin {r : Request} {t : Bytes} (h : r.uri = 47 :: t) :
    ∃ code r', r.parseURI = .ok (code, r') ∧
      settled r.resHints.parsedUri (taken r.uri) = .ok (code, route r'.resHints.parsedUri) := by
  obtain ⟨out, hout⟩ := settled_ok r.resHints.parsedUri (taken r.uri)
  have hmap := parseURI_settled h
  cases hparse : r.parseURI with
  | error e =>
    rw [hparse, hout] at hmap
    cases hmap
  | ok out' =>
    obtain ⟨code, r'⟩ := out'
    rw [hparse] at hmap
    exact ⟨code, r', rfl, hmap.symm⟩

end Webserveau.OriginTargets
