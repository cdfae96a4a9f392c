import Webserveau.PathSegments
import Webserveau.Uris

/-!
Which targets name a parent directory after they have been parsed.
The path of a target is resolved before it is percent-decoded, and its last segment is
never resolved. A parsed path therefore has a parent segment exactly when some segment
that is not climbed over, the last one included, decodes to a text with one.
-/
namespace Webserveau.PathConfinement

open ByteStrings Formats Requests PathSegments

def segments (path : Bytes) : List Bytes := path.splitOn 47

theorem segments_ne_nil (path : Bytes) : segments path ≠ [] := by simp [segments]

theorem segments_append (front back : Bytes) :
    segments (front ++ 47 :: back) = segments front ++ segments back :=
  List.splitOn_append_cons_self front back

theorem segments_of_not_mem {path : Bytes} (h : (47 : UInt8) ∉ path) : segments path = [path] :=
  List.splitOn_eq_singleton h

/-- The names under which a system finds a path: from the working directory, unless the path
begins at the root. -/
def place (cwd : List Bytes) (path : Bytes) : List Bytes :=
  walk (ascii "..") (fun seg => seg = [] ∨ seg = ascii ".")
    (if path.head? = some 47 then [] else cwd) (segments path)

/-- Each step removes one inner segment, and at the end none is left. -/
theorem eraseEach_eq (mid : Bytes) (hmid : (47 : UInt8) ∉ mid) (fuel : ℕ) (path : Bytes)
    (hfuel : path.length < fuel) :
    ∃ path', eraseEach (47 :: mid ++ [47]) (mid.length + 1) fuel path = .ok path' ∧
      segments path' = tidy (fun seg => seg ≠ mid) (segments path) := by
  induction fuel generalizing path with
  | zero => omega
  | succ fuel ih =>
    rw [eraseEach]
    cases hfind : find (47 :: mid ++ [47]) path with
    | none =>
      refine ⟨path, rfl, ?_⟩
      rw [tidy_of_inner]
      intro seg hseg
      have hinfix := infix_of_inner hseg
      rw [find_eq_none_iff] at hfind
      simp only [ne_eq, decide_eq_true_eq]
      intro heq
      rw [heq] at hinfix
      exact hfind hinfix
    | some idx =>
      obtain ⟨front, back, rfl, rfl⟩ := find_eq_some hfind
      have herase : erase (front ++ (47 :: mid ++ [47]) ++ back) front.length (mid.length + 1) =
          .ok (front ++ 47 :: back) := by
        rw [erase_of_le _ (by simp)]
        simp [List.drop_append]
      simp only [List.length_append, List.length_cons, List.length_nil] at hfuel
      obtain ⟨path', hpath', hsegs⟩ := ih (front ++ 47 :: back) (by
        simp only [List.length_append, List.length_cons]
        omega)
      refine ⟨path', ?_, ?_⟩
      · simp only [herase, bind, Except.bind]
        exact hpath'
      · have hlong : segments (front ++ (47 :: mid ++ [47]) ++ back) =
            segments front ++ mid :: segments back := by
          have htext : front ++ (47 :: mid ++ [47]) ++ back =
              front ++ 47 :: (mid ++ 47 :: back) := by simp
          rw [htext, segments_append, segments_append, segments_of_not_mem hmid]
          rfl
        rw [hsegs, hlong, segments_append,
          tidy_middle (by simp) (segments_ne_nil front) (segments_ne_nil back)]

/-- The loop over the segments of a path resolves all of them but the last. -/
theorem resolveSegments_eq (fuel : ℕ) (path : Bytes) (v : List Bytes)
    (hfuel : path.length < fuel) :
    (∃ path' v', resolve (ascii "..") v (segments path).dropLast = none ∧
      resolveSegments fuel path v = .ok (1, path', v')) ∨
    ∃ v', resolve (ascii "..") v (segments path).dropLast = some v' ∧
      resolveSegments fuel path v =
        .ok (0, (segments path).getLast (segments_ne_nil path), v') := by
  induction fuel generalizing path v with
  | zero => omega
  | succ fuel ih =>
    have hslash : ascii "/" = [47] := rfl
    rw [resolveSegments, hslash, find_singleton]
    by_cases hmem : (47 : UInt8) ∈ path
    · have hpath := split_at_mem hmem
      have hseg : (47 : UInt8) ∉ path.takeWhile (· ≠ 47) :=
        fun hin => by simpa using List.mem_takeWhile_imp hin
      have hdrop : path.drop ((path.takeWhile (· ≠ 47)).length + 1) =
          (path.dropWhile (· ≠ 47)).tail := by
        rw [← List.drop_drop, drop_length_takeWhile, List.drop_one]
      simp only [hmem, if_true, substr_zero, take_length_takeWhile, bind, Except.bind,
        erase_of_le _ (Nat.zero_le _), List.take_zero, List.nil_append, Nat.zero_add, hdrop]
      generalize path.takeWhile (· ≠ 47) = seg at hpath hseg
      generalize (path.dropWhile (· ≠ 47)).tail = rest at hpath
      have hsegs : segments path = seg :: segments rest := by
        rw [hpath, segments_append, segments_of_not_mem hseg]
        rfl
      have hlen := congrArg List.length hpath
      rw [List.length_append, List.length_cons] at hlen
      have hinit : (segments path).dropLast = seg :: (segments rest).dropLast := by
        rw [hsegs, List.dropLast_cons_of_ne_nil (segments_ne_nil rest)]
      have hlast : (segments path).getLast (segments_ne_nil path) =
          (segments rest).getLast (segments_ne_nil rest) := by
        simp only [hsegs, List.getLast_cons (segments_ne_nil rest)]
      rw [hinit, hlast, resolve]
      by_cases hup : seg = ascii ".."
      · by_cases hv : v = []
        · left
          refine ⟨rest, v, by rw [if_pos hup, if_pos hv], ?_⟩
          simp [hup, hv, pure, Except.pure]
        · have hv' : v.length ≠ 0 := by simpa using hv
          have hstep : (if seg = ascii ".." then
              if v = [] then none else resolve (ascii "..") v.dropLast (segments rest).dropLast
              else resolve (ascii "..") (v ++ [seg]) (segments rest).dropLast) =
              resolve (ascii "..") v.dropLast (segments rest).dropLast := by
            rw [if_pos hup, if_neg hv]
          rw [hstep]
          simp only [hup, hv', and_false, if_false, ne_eq, not_false_eq_true, and_true, if_true]
          exact ih rest v.dropLast (by omega)
      · have hstep : (if seg = ascii ".." then
            if v = [] then none else resolve (ascii "..") v.dropLast (segments rest).dropLast
            else resolve (ascii "..") (v ++ [seg]) (segments rest).dropLast) =
            resolve (ascii "..") (v ++ [seg]) (segments rest).dropLast := if_neg hup
        rw [hstep]
        simp only [hup, false_and, if_false]
        exact ih rest (v ++ [seg]) (by omega)
    · right
      refine ⟨v, ?_, ?_⟩
      · simp [segments_of_not_mem hmem, resolve]
      · simp only [hmem, if_false, segments_of_not_mem hmem, List.getLast_singleton]
        rfl

/-- Percent-decoding from left to right, with the windows that `getInt` accepts. -/
def percentDecoded : Bytes → Bytes
  | [] => []
  | [c] => [c]
  | [c, a] => [c, a]
  | c :: a :: b :: rest =>
    if c = 37 ∧ (getInt [a, b] 16 0).1 = 0 then
      toByte (getInt [a, b] 16 0).2 :: percentDecoded rest
    else c :: percentDecoded (a :: b :: rest)

theorem percentDecoded_cons {c : UInt8} (hc : c ≠ 37) (s : Bytes) :
    percentDecoded (c :: s) = c :: percentDecoded s := by
  match s with
  | [] => rfl
  | [a] => rfl
  | a :: b :: rest => simp [percentDecoded, hc]

theorem percentDecoded_clean {clean : Bytes} (hclean : (37 : UInt8) ∉ clean) (s : Bytes) :
    percentDecoded (clean ++ s) = clean ++ percentDecoded s := by
  induction clean with
  | nil => rfl
  | cons c clean ih =>
    have hc : c ≠ 37 := fun h => hclean (by simp [h])
    have hrest : (37 : UInt8) ∉ clean := fun h => hclean (List.mem_cons_of_mem _ h)
    rw [List.cons_append, percentDecoded_cons hc, ih hrest, List.cons_append]

/-- The loop of `translatePercent` decodes what lies behind its position. -/
theorem translateFrom_eq (fuel : ℕ) (front s : Bytes) (hfuel : s.length < fuel) :
    translateFrom fuel (front ++ s) front.length = .ok (front ++ percentDecoded s) := by
  induction fuel generalizing front s with
  | zero => omega
  | succ fuel ih =>
    have hpercent : ascii "%" = [37] := rfl
    rw [translateFrom, hpercent, find_singleton, List.drop_left]
    by_cases hmem : (37 : UInt8) ∈ s
    · have hs := split_at_mem hmem
      have hclean : (37 : UInt8) ∉ s.takeWhile (· ≠ 37) :=
        fun hin => by simpa using List.mem_takeWhile_imp hin
      simp only [hmem, if_true]
      generalize s.takeWhile (· ≠ 37) = clean at hs hclean
      generalize (s.dropWhile (· ≠ 37)).tail = tail at hs
      subst hs
      rw [percentDecoded_clean hclean]
      simp only [List.length_append, List.length_cons] at hfuel
      have hjoin : ∀ text : Bytes, front ++ (clean ++ text) = (front ++ clean) ++ text := by simp
      have hcur : front.length + clean.length = (front ++ clean).length := by simp
      have hsmall : tail.length < fuel := by omega
      rw [hjoin, hjoin, hcur]
      generalize front ++ clean = done
      match tail with
      | [] =>
        by_cases hlen : 2 ≤ (done ++ [37]).length
        · have hend : ¬ done.length < (done ++ [37]).length - 2 := by
            simp only [List.length_append, List.length_singleton]
            omega
          simp only [hlen, if_true, hend, if_false]
          rfl
        · obtain rfl : done = [] := by
            simp only [List.length_append, List.length_singleton] at hlen
            exact List.length_eq_zero_iff.mp (by omega)
          exact ih [37] [] hsmall
      | [a] =>
        have hlen : 2 ≤ (done ++ [37, a]).length := by simp
        have hend : ¬ done.length < (done ++ [37, a]).length - 2 := by simp
        simp only [hlen, if_true, hend, if_false]
        rfl
      | a :: b :: rest =>
        have hlen : 2 ≤ (done ++ 37 :: a :: b :: rest).length := by
          simp only [List.length_append, List.length_cons]
          omega
        have hin : done.length < (done ++ 37 :: a :: b :: rest).length - 2 := by
          simp only [List.length_append, List.length_cons]
          omega
        have hwindow : substr (done ++ 37 :: a :: b :: rest) (done.length + 1) 2 = .ok [a, b] := by
          rw [substr_of_le _ (by simp), List.drop_length_add_append]
          rfl
        simp only [List.length_cons] at hsmall
        simp only [hlen, if_true, hin, hwindow, bind, Except.bind, pure, Except.pure]
        by_cases hok : (getInt [a, b] 16 0).1 = 0
        · have herase : erase ((done ++ 37 :: a :: b :: rest).set done.length
              (toByte (getInt [a, b] 16 0).2)) (done.length + 1) 2 =
              .ok ((done ++ [toByte (getInt [a, b] 16 0).2]) ++ rest) := by
            have hset : (done ++ 37 :: a :: b :: rest).set done.length
                (toByte (getInt [a, b] 16 0).2) =
                done ++ toByte (getInt [a, b] 16 0).2 :: a :: b :: rest := by
              rw [List.set_append_right _ _ (Nat.le_refl _)]
              simp
            rw [hset, erase_of_le _ (by simp), Nat.add_assoc, List.take_length_add_append,
              List.drop_length_add_append]
            rfl
          have hnext := ih (done ++ [toByte (getInt [a, b] 16 0).2]) rest (by omega)
          rw [List.length_append, List.length_singleton] at hnext
          simp only [hok, if_true, herase, hnext, percentDecoded, and_self]
          rw [List.append_assoc]
          rfl
        · have hnext := ih (done ++ [37]) (a :: b :: rest)
            (by simp only [List.length_cons]; omega)
          rw [List.length_append, List.length_singleton, List.append_assoc] at hnext
          simp only [hok, if_false, percentDecoded, and_false]
          rw [List.append_assoc] at hnext
          exact hnext
    · have hdecoded : percentDecoded s = s := by
        have h := percentDecoded_clean hmem []
        simpa [percentDecoded] using h
      simp only [hmem, if_false, hdecoded]
      rfl

theorem translatePercent_eq (str : Bytes) : translatePercent str = .ok (percentDecoded str) :=
  translateFrom_eq (str.length + 1) [] str (Nat.lt_succ_self _)

/-- A window with a slash in it is never decoded. -/
theorem getInt_slash (c : UInt8) :
    (getInt [47, c] 16 0).1 ≠ 0 ∧ (getInt [c, 47] 16 0).1 ≠ 0 :=
  Numerals.forall_byte (P := fun c => (getInt [47, c] 16 0).1 ≠ 0 ∧ (getInt [c, 47] 16 0).1 ≠ 0)
    (by decide +kernel) c

theorem percentDecoded_before_slash (c : UInt8) (s : Bytes) :
    percentDecoded (c :: 47 :: s) = c :: 47 :: percentDecoded s := by
  match s with
  | [] => rfl
  | b :: rest =>
    have hwindow := (getInt_slash b).1
    rw [percentDecoded, if_neg (by simp [hwindow]), percentDecoded_cons (by decide)]

/-- The segments of a text are decoded one by one. -/
theorem percentDecoded_append (front back : Bytes) :
    percentDecoded (front ++ 47 :: back) = percentDecoded front ++ 47 :: percentDecoded back := by
  fun_induction percentDecoded front with
  | case1 => exact percentDecoded_cons (by decide) back
  | case2 c => exact percentDecoded_before_slash c back
  | case3 c a =>
    have hwindow := (getInt_slash a).2
    rw [List.cons_append, List.cons_append, List.nil_append, percentDecoded,
      if_neg (by simp [hwindow]), percentDecoded_before_slash]
    rfl
  | case4 c a b rest hdecode ih =>
    rw [List.cons_append, List.cons_append, List.cons_append, percentDecoded, if_pos hdecode, ih]
    rfl
  | case5 c a b rest hkeep ih =>
    rw [List.cons_append, List.cons_append, List.cons_append, percentDecoded, if_neg hkeep]
    simp only [List.cons_append] at ih
    rw [ih]
    rfl

theorem mem_segments_decoded {segs : List Bytes} (hne : segs ≠ []) (seg : Bytes) :
    seg ∈ segments (percentDecoded ([47].intercalate segs)) ↔
      ∃ s ∈ segs, seg ∈ segments (percentDecoded s) := by
  induction segs with
  | nil => exact absurd rfl hne
  | cons first rest ih =>
    by_cases hrest : rest = []
    · subst hrest
      simp
    · rw [List.intercalate_cons_of_ne_nil hrest, List.append_assoc, List.singleton_append,
        percentDecoded_append, segments_append, List.mem_append, ih hrest]
      simp

theorem intercalate_eq (segs : List Bytes) (hne : segs ≠ []) :
    segs.flatMap (fun subpath => ascii "/" ++ subpath) = 47 :: [47].intercalate segs := by
  have hslash : ascii "/" = [47] := rfl
  rw [hslash]
  induction segs with
  | nil => exact absurd rfl hne
  | cons first rest ih =>
    by_cases hrest : rest = []
    · subst hrest
      simp
    · rw [List.flatMap_cons, ih hrest, List.intercalate_cons_of_ne_nil hrest]
      simp

/-- A path without the `./` in front of it. -/
def withoutDot (path : Bytes) : Bytes :=
  if path[0]? = some 46 ∧ path[1]? = some 47 then path.drop 2 else path

/-- The segments of a path, the inner empty and single-dot ones left out. -/
def pathSegments (path : Bytes) : List Bytes :=
  tidy (fun seg => decide (seg ≠ []) && decide (seg ≠ ascii ".")) (segments (withoutDot path))

/-- The loop over segments is the resolution of the segments of the path. -/
theorem checkPath_resolved (path : Bytes) :
    (resolve (ascii "..") [] (pathSegments path).dropLast = none ∧
      ∃ path', checkPath path = .ok (1, path')) ∨
    ∃ inner last v, pathSegments path = inner ++ [last] ∧ resolve (ascii "..") [] inner = some v ∧
      checkPath path = .ok (0, [47].intercalate (v ++ [last])) := by
  have hdot : eraseDotSlash path = .ok (withoutDot path) := by
    unfold eraseDotSlash withoutDot
    split
    · rw [erase_of_le _ (Nat.zero_le _)]
      simp
    · rfl
  obtain ⟨path₁, hpath₁, hsegs₁⟩ := eraseEach_eq [] (by simp)
    ((withoutDot path).length + 1) (withoutDot path) (Nat.lt_succ_self _)
  obtain ⟨path₂, hpath₂, hsegs₂⟩ := eraseEach_eq (ascii ".") (by decide)
    (path₁.length + 1) path₁ (Nat.lt_succ_self _)
  have hslashes : ascii "//" = 47 :: [] ++ [47] := rfl
  have hdots : ascii "/./" = 47 :: ascii "." ++ [47] := rfl
  have htwo : (ascii ".").length + 1 = 2 := rfl
  have hone : ([] : Bytes).length + 1 = 1 := rfl
  rw [hone, ← hslashes] at hpath₁
  rw [htwo, ← hdots] at hpath₂
  have hsegs : segments path₂ = pathSegments path := by
    rw [hsegs₂, hsegs₁, tidy_tidy]
    rfl
  unfold checkPath
  simp only [bind, Except.bind, hdot, hpath₁, hpath₂]
  rcases resolveSegments_eq (path₂.length + 1) path₂ [] (Nat.lt_succ_self _) with
    ⟨path', v', hnone, hrun⟩ | ⟨v, hv, hrun⟩
  · left
    simp only [hrun]
    rw [← hsegs]
    exact ⟨hnone, path', rfl⟩
  · right
    refine ⟨_, (segments path₂).getLast (segments_ne_nil path₂), v, ?_, hv, ?_⟩
    · rw [List.dropLast_append_getLast, hsegs]
    · simp only [hrun]
      rw [intercalate_eq _ (by simp)]
      rfl

theorem checkPath_eq (path : Bytes) :
    (∃ path', checkPath path = .ok (1, path')) ∨
    ∃ inner last v, pathSegments path = inner ++ [last] ∧ resolve (ascii "..") [] inner = some v ∧
      checkPath path = .ok (0, [47].intercalate (v ++ [last])) := by
  rcases checkPath_resolved path with ⟨-, hrefused⟩ | haccepted
  · exact Or.inl hrefused
  · exact Or.inr haccepted

/-- The path of a target: scheme, authority and query are cut off. -/
def targetPath (target : Bytes) : Checked Bytes := do
  let (_, query) ← pruneScheme target
  let query ← pruneDelim query (ascii "@")
  let query ← pruneDelim query (ascii "/")
  let (path, _) ← extractPath query
  return path

/-- A segment of the target that no later climb takes away, or its last segment, decodes
to a text with a parent segment. -/
def NamesParent (target : Bytes) : Prop :=
  ∃ path front seg back, targetPath target = .ok path ∧
    pathSegments path = front ++ seg :: back ∧
    (back = [] ∨ seg ≠ ascii ".." ∧ Survives (ascii "..") back.dropLast) ∧
    ascii ".." ∈ segments (percentDecoded seg)

theorem prunePath_path {uri uri' : URI} (h : prunePath uri = .ok uri') : uri'.path = uri.path := by
  unfold prunePath at h
  split at h
  · obtain rfl : _ = uri' := by simpa [pure, Except.pure] using h
    rfl
  · simp only [bind_eq_ok_iff, pure, Except.pure, Except.ok.injEq] at h
    obtain ⟨root, -, filename, -, extension, -, rfl⟩ := h
    rfl

theorem prunePercent_path {uri uri' : URI} (h : prunePercent uri = .ok uri') :
    uri'.path = percentDecoded uri.path := by
  unfold prunePercent at h
  simp only [translatePercent_eq, bind, Except.bind, pure, Except.pure, Except.ok.injEq] at h
  rw [← h]

/-- An accepted target, step by step. -/
theorem parseURI_accepted {r r' : Request} (h : r.parseURI = .ok (0, r')) :
    ∃ path path', targetPath r.uri = .ok path ∧ checkPath path = .ok (0, path') ∧
      r'.resHints.parsedUri.path = percentDecoded path' := by
  unfold Request.parseURI at h
  simp only [bind_eq_ok_iff] at h
  obtain ⟨⟨res, query⟩, hscheme, h⟩ := h
  split at h
  · simp [pure, Except.pure, Request.fillError] at h
  · simp only [bind_eq_ok_iff] at h
    obtain ⟨query₁, hat, query₂, hslash, ⟨path, query₃⟩, hextract, ⟨res', path'⟩, hcheck, h⟩ := h
    split at h
    · simp [pure, Except.pure, Request.fillError] at h
    · rename_i hres
      simp only [bind_eq_ok_iff] at h
      obtain ⟨uri₁, hprune, uri₂, hpercent, h⟩ := h
      have hstate : r.setParsedUri uri₂ = r' := by simpa [pure, Except.pure] using h
      obtain rfl : res' = 0 := by simpa using hres
      refine ⟨path, path', ?_, hcheck, ?_⟩
      · unfold targetPath
        simp only [bind_eq_ok_iff]
        exact ⟨_, hscheme, _, hat, _, hslash, _, hextract, rfl⟩
      · have hpath : uri₁.path = path' := prunePath_path hprune
        rw [← hstate, ← hpath, ← prunePercent_path hpercent]
        rfl

theorem mem_parsed_iff {path path' : Bytes} (h : checkPath path = .ok (0, path')) (seg : Bytes) :
    seg ∈ segments (percentDecoded path') ↔
      ∃ front s back, pathSegments path = front ++ s :: back ∧
        (back = [] ∨ s ≠ ascii ".." ∧ Survives (ascii "..") back.dropLast) ∧
        seg ∈ segments (percentDecoded s) := by
  rcases checkPath_eq path with ⟨path₁, hfail⟩ | ⟨inner, last, v, hsegs, hv, hok⟩
  · rw [h] at hfail
    simp at hfail
  · obtain rfl : path' = [47].intercalate (v ++ [last]) := by
      rw [h] at hok
      simpa using hok
    rw [mem_segments_decoded (by simp), hsegs]
    constructor
    · intro ⟨s, hs, hseg⟩
      rcases List.mem_append.mp hs with hs | hs
      · obtain ⟨front, back, hinner, hne, hsurvives⟩ := (mem_resolve_iff _ _ hv s).mp hs
        refine ⟨front, s, back ++ [last], by simp [hinner], Or.inr ⟨hne, ?_⟩, hseg⟩
        rwa [List.dropLast_concat]
      · rw [List.mem_singleton] at hs
        exact ⟨inner, s, [], by rw [hs], Or.inl rfl, hseg⟩
    · intro ⟨front, s, back, hsplit, hkept, hseg⟩
      rcases concat_eq_split hsplit with ⟨-, -, hlast⟩ | ⟨back', rfl, hinner⟩
      · exact ⟨s, by simp [hlast], hseg⟩
      · rcases hkept with hnil | ⟨hne, hsurvives⟩
        · simp at hnil
        · rw [List.dropLast_concat] at hsurvives
          have hmem := (mem_resolve_iff _ _ hv s).mpr ⟨front, back', hinner, hne, hsurvives⟩
          exact ⟨s, List.mem_append_left _ hmem, hseg⟩

/-- The path of an accepted target has no parent segment exactly when the target does not
name one. -/
theorem confined_iff (r r' : Request) (h : r.parseURI = .ok (0, r')) :
    (∀ seg ∈ segments r'.resHints.parsedUri.path, seg ≠ ascii "..") ↔ ¬ NamesParent r.uri := by
  obtain ⟨path, path', hpath, hcheck, hparsed⟩ := parseURI_accepted h
  have hmem := mem_parsed_iff hcheck (ascii "..")
  rw [hparsed]
  constructor
  · intro hfree ⟨path₁, front, s, back, hpath₁, hsegs, hkept, hseg⟩
    obtain rfl : path = path₁ := by
      rw [hpath] at hpath₁
      simpa using hpath₁
    exact hfree _ (hmem.mpr ⟨front, s, back, hsegs, hkept, hseg⟩) rfl
  · intro hnames seg hseg hup
    rw [hup] at hseg
    obtain ⟨front, s, back, hsegs, hkept, hdec⟩ := hmem.mp hseg
    exact hnames ⟨path, front, s, back, hpath, hsegs, hkept, hdec⟩

theorem encoded_name_confined :
    ∃ r', Request.parseURI { uri := ascii "/a/../b%41" } = .ok (0, r') ∧
      ((∀ seg ∈ segments r'.resHints.parsedUri.path, seg ≠ ascii "..") ↔
        ¬ NamesParent (ascii "/a/../b%41")) :=
  ⟨_, rfl, confined_iff { uri := ascii "/a/../b%41" } _ rfl⟩

/-- The target `/..` is accepted with the path `..`. -/
theorem not_all_confined :
    ¬ ∀ r r' : Request, r.parseURI = .ok (0, r') →
      ∀ seg ∈ segments r'.resHints.parsedUri.path, seg ≠ ascii ".." := by
  intro h
  have hparse : ∃ r', Request.parseURI { uri := ascii "/.." } = .ok (0, r') ∧
      r'.resHints.parsedUri.path = ascii ".." := ⟨_, rfl, rfl⟩
  obtain ⟨r', hr', hpath⟩ := hparse
  have hfree := h _ r' hr'
  rw [hpath] at hfree
  exact hfree (ascii "..") (by decide) rfl

end Webserveau.PathConfinement
