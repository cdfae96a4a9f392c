import Webserveau.Checks
import Webserveau.QueryRouting

/-!
Spellings of one path.
A slash or a dot with a slash behind any slash of a target is collapsed away as an inner
segment. The first segment is never collapsed, so at the beginning of a path the same
insertion makes another path, unless the segment it changes is climbed away from.
-/
namespace Webserveau.PathSpellings

open ByteStrings OrderedMaps Formats Requests PathSegments PathConfinement OriginTargets
  QueryRouting Checks

/-- Inner segments other than the empty one and the single dot. -/
def isName (seg : Bytes) : Bool := decide (seg ≠ []) && decide (seg ≠ ascii ".")

theorem pathSegments_eq (s : Bytes) : pathSegments s = tidy isName (segments (withoutDot s)) := rfl

/-- The path text of a target without query, at sign or scheme. -/
def text (t : Bytes) : Bytes := if t = [] then [47] else t

theorem taken_simple {t : Bytes} (hquery : 63 ∉ 47 :: t) (hat : 64 ∉ 47 :: t)
    (hscheme : ¬ SCHEME <:+: 47 :: t) : taken (47 :: t) = some (text t) := by
  have hslash : behind 47 (47 :: t) = text t := by
    have haround := behind_around (c := 47) List.not_mem_nil t
    rw [List.nil_append] at haround
    rw [haround]
    unfold text
    split
    · rename_i hnil
      rw [hnil]
    · rfl
  unfold taken
  rw [if_neg hscheme, behind_of_not_mem hat, hslash, List.takeWhile_eq_self_iff.mpr]
  intro x hx
  rw [decide_eq_true_eq]
  intro h
  have hmem : 63 ∈ text t := h ▸ hx
  unfold text at hmem
  split at hmem
  · exact absurd hmem (by decide)
  · exact hquery (List.mem_cons_of_mem 47 hmem)

/-- The path that some segments make when it is not refused for its climbs. -/
def pathOf (segs : List Bytes) : Option Bytes :=
  (resolve (ascii "..") [] segs.dropLast).map fun v =>
    percentDecoded ([47].intercalate (v ++ segs.getLast?.toList))

/-- A simple target is accepted with the path of its segments. -/
theorem parseURI_path {r : Request} {t : Bytes} (h : r.uri = 47 :: t) (hquery : 63 ∉ r.uri)
    (hat : 64 ∉ r.uri) (hscheme : ¬ SCHEME <:+: r.uri) (path : Bytes) :
    (∃ r', r.parseURI = .ok (0, r') ∧ r'.resHints.parsedUri.path = path) ↔
      pathOf (pathSegments (text t)) = some path := by
  obtain ⟨code, r', hparse, hsettled⟩ := parseURI_origin h
  rw [h] at hquery hat hscheme
  rw [h, taken_simple hquery hat hscheme] at hsettled
  unfold settled at hsettled
  dsimp only at hsettled
  have hlhs : (∃ r', r.parseURI = .ok (0, r') ∧ r'.resHints.parsedUri.path = path) ↔
      code = 0 ∧ r'.resHints.parsedUri.path = path := by
    rw [hparse]
    constructor
    · intro ⟨s, hs, hpath⟩
      rw [Except.ok.injEq, Prod.mk.injEq] at hs
      obtain ⟨hcode, rfl⟩ := hs
      exact ⟨hcode, hpath⟩
    · intro ⟨hcode, hpath⟩
      exact ⟨r', by rw [hcode], hpath⟩
  rw [hlhs]
  unfold pathOf
  rcases checkPath_resolved (text t) with ⟨hnone, path', hcheck⟩ |
    ⟨inner, last, v, hsegs, hv, hcheck⟩
  · rw [hcheck] at hsettled
    have hcode : (400 : ℤ) = code := (Prod.mk.inj (Except.ok.inj hsettled)).1
    rw [hnone]
    constructor
    · intro ⟨hzero, _⟩
      omega
    · intro hsome
      cases hsome
  · rw [hcheck] at hsettled
    simp only [bind, Except.bind] at hsettled
    rw [if_neg (not_not_intro rfl)] at hsettled
    rw [hsegs, List.dropLast_concat, hv, List.getLast?_concat]
    cases hprune : prunePath { path := [47].intercalate (v ++ [last]) } with
    | error e =>
      rw [hprune] at hsettled
      cases hsettled
    | ok parts =>
      rw [hprune] at hsettled
      obtain ⟨hcode, hroute⟩ := Prod.mk.inj (Except.ok.inj hsettled)
      have hpath : percentDecoded ([47].intercalate (v ++ [last])) = r'.resHints.parsedUri.path := by
        have hkept : parts.path = [47].intercalate (v ++ [last]) := prunePath_path hprune
        rw [← hkept]
        exact congrArg Prod.fst hroute
      show _ ↔ some (percentDecoded ([47].intercalate (v ++ [last]))) = some path
      rw [hpath, Option.some.injEq]
      constructor
      · intro hboth
        exact hboth.2
      · intro hsame
        exact ⟨hcode.symm, hsame⟩

/-- A first segment in front of a path makes another path. -/
theorem decoded_ne (seg : Bytes) {segs : List Bytes} (h : segs ≠ []) :
    percentDecoded ([47].intercalate (seg :: segs)) ≠ percentDecoded ([47].intercalate segs) := by
  intro heq
  rw [List.intercalate_cons_of_ne_nil h] at heq
  have hdecoded := percentDecoded_append seg ([47].intercalate segs)
  rw [List.append_assoc, List.singleton_append] at heq
  rw [hdecoded] at heq
  have hlen := congrArg List.length heq
  rw [List.length_append, List.length_cons] at hlen
  omega

/-- Paths that differ in the length of their decoded first segments are different. -/
theorem decoded_first_ne {e f : Bytes} (hne : (percentDecoded e).length ≠ (percentDecoded f).length)
    {segs : List Bytes} (h : segs ≠ []) :
    percentDecoded ([47].intercalate (e :: segs)) ≠
      percentDecoded ([47].intercalate (f :: segs)) := by
  intro heq
  rw [List.intercalate_cons_of_ne_nil h, List.intercalate_cons_of_ne_nil h] at heq
  simp only [List.append_assoc, List.singleton_append, percentDecoded_append] at heq
  have hlen := congrArg List.length heq
  simp only [List.length_append, List.length_cons] at hlen
  omega

/-- The first segment of a path is the one that is put in front of it, or it is collapsed
behind that one and climbed away from. -/
def Begins (e b : Bytes) : Prop :=
  ∃ f rest, segments b = f :: rest ∧ rest ≠ [] ∧
    (f = e ∨ isName f = false ∧ ¬ Survives (ascii "..") (rest.dropLast.filter isName))

theorem pathOf_concat (inner : List Bytes) (last : Bytes) :
    pathOf (inner ++ [last]) = (resolve (ascii "..") [] inner).map fun v =>
      percentDecoded ([47].intercalate (v ++ [last])) := by
  unfold pathOf
  rw [List.dropLast_concat, List.getLast?_concat]
  rfl

theorem tidy_concat (keep : Bytes → Bool) (first last : Bytes) (inner : List Bytes) :
    tidy keep (first :: (inner ++ [last])) = (first :: inner.filter keep) ++ [last] := by
  simp [tidy]

theorem resolve_push {seg : Bytes} (h : seg ≠ ascii "..") (v segs : List Bytes) :
    resolve (ascii "..") v (seg :: segs) = resolve (ascii "..") (v ++ [seg]) segs := by
  rw [resolve, if_neg h]

/-- A segment in front of an accepted path. -/
theorem begins_iff {e b path : Bytes} (he : e = [] ∨ e = ascii ".")
    (h : pathOf (tidy isName (segments b)) = some path) :
    pathOf (tidy isName (e :: segments b)) = some path ↔ Begins e b := by
  have hname : isName e = false := by
    rcases he with rfl | rfl
    · rfl
    · rfl
  have hup : e ≠ ascii ".." := by
    rcases he with rfl | rfl
    · decide
    · decide
  obtain ⟨f, rest, hsegs⟩ := List.exists_cons_of_ne_nil (segments_ne_nil b)
  have hbegins : Begins e b ↔ rest ≠ [] ∧
      (f = e ∨ isName f = false ∧ ¬ Survives (ascii "..") (rest.dropLast.filter isName)) := by
    unfold Begins
    rw [hsegs]
    constructor
    · intro ⟨f', rest', hsame, hrest⟩
      obtain ⟨rfl, rfl⟩ := List.cons.inj hsame
      exact hrest
    · intro hrest
      exact ⟨f, rest, rfl, hrest⟩
  rw [hsegs] at h ⊢
  rw [hbegins]
  cases rest using List.reverseRecOn with
  | nil =>
    have hshort : tidy isName [f] = [] ++ [f] := rfl
    have hlong : tidy isName [e, f] = [e] ++ [f] := rfl
    rw [hshort, pathOf_concat] at h
    rw [hlong, pathOf_concat, resolve_push hup]
    have hpath : percentDecoded ([47].intercalate [f]) = path := Option.some.inj h
    constructor
    · intro hsame
      have hboth : percentDecoded ([47].intercalate (e :: [f])) = path := Option.some.inj hsame
      rw [← hpath] at hboth
      exact absurd hboth (decoded_ne e (List.cons_ne_nil f []))
    · intro hrest
      exact absurd rfl hrest.1
  | append_singleton inner last =>
    have hlong : tidy isName (e :: f :: (inner ++ [last])) =
        (e :: (f :: inner).filter isName) ++ [last] := tidy_concat isName e last (f :: inner)
    rw [tidy_concat, pathOf_concat] at h
    rw [hlong, pathOf_concat, resolve_push hup, List.dropLast_concat]
    have hf : f ≠ ascii ".." := by
      intro hclimb
      rw [resolve, if_pos hclimb, if_pos rfl] at h
      cases h
    rw [resolve_push hf] at h
    obtain ⟨v, hv, hpath⟩ := Option.map_eq_some_iff.mp h
    have hne : ∀ x : List Bytes, x ++ [last] ≠ [] := by
      intro x
      simp
    cases hkind : isName f
    · have hfilter : (f :: inner).filter isName = inner.filter isName :=
        List.filter_cons_of_neg (by rw [hkind]; decide)
      rw [hfilter]
      by_cases hsame : f = e
      · subst hsame
        rw [hv]
        exact iff_of_true (congrArg some hpath) ⟨by simp, Or.inl rfl⟩
      · have hother : (percentDecoded e).length ≠ (percentDecoded f).length := by
          have hkinds : f = [] ∨ f = ascii "." := by
            unfold isName at hkind
            by_cases hnil : f = []
            · exact Or.inl hnil
            · exact Or.inr (by simpa [hnil] using hkind)
          rcases he with rfl | rfl
          · rcases hkinds with rfl | rfl
            · exact absurd rfl hsame
            · decide
          · rcases hkinds with rfl | rfl
            · decide
            · exact absurd rfl hsame
        rcases resolve_lowest (ascii "..") e f hv with ⟨hkept, x, rfl, hx⟩ | ⟨hgone, hw⟩
        · have hsurvives : Survives (ascii "..") (inner.filter isName) := hkept
          show (resolve (ascii "..") [e] _).map _ = _ ↔ _
          rw [hx]
          refine iff_of_false ?_ ?_
          · intro heq
            have hdecoded : percentDecoded ([47].intercalate (e :: (x ++ [last]))) = path :=
              Option.some.inj heq
            rw [← hpath] at hdecoded
            exact decoded_first_ne hother (hne x) hdecoded
          · intro hrest
            rcases hrest.2 with hfirst | hclimbed
            · exact hsame hfirst
            · exact hclimbed.2 hsurvives
        · have hclimbed : ¬ Survives (ascii "..") (inner.filter isName) := hgone
          show (resolve (ascii "..") [e] _).map _ = _ ↔ _
          rw [hw]
          exact iff_of_true (congrArg some hpath) ⟨by simp, Or.inr ⟨rfl, hclimbed⟩⟩
    · have hfilter : (f :: inner).filter isName = f :: inner.filter isName :=
        List.filter_cons_of_pos hkind
      have hover : resolve (ascii "..") ([e] ++ [f]) (inner.filter isName) = some (e :: v) :=
        resolve_over (ascii "..") e hv
      rw [hfilter, List.nil_append, resolve_push hf, hover]
      refine iff_of_false ?_ ?_
      · intro heq
        have hdecoded : percentDecoded ([47].intercalate (e :: (v ++ [last]))) = path :=
          Option.some.inj heq
        rw [← hpath] at hdecoded
        exact decoded_ne e (hne v) hdecoded
      · intro hrest
        rcases hrest.2 with hfirst | hclimbed
        · rw [hfirst, hname] at hkind
          cases hkind
        · exact absurd hclimbed.1 (by decide)

theorem segments_slash (s : Bytes) : segments (47 :: s) = [] :: segments s :=
  segments_append [] s

theorem segments_dot (s : Bytes) : segments (ascii "./" ++ s) = ascii "." :: segments s :=
  segments_append (ascii ".") s

theorem withoutDot_slash (s : Bytes) : withoutDot (47 :: s) = 47 :: s := by
  unfold withoutDot
  rw [if_neg]
  intro h
  exact absurd h.1 (by decide : some (47 : UInt8) ≠ some 46)

theorem withoutDot_dot (s : Bytes) : withoutDot (ascii "./" ++ s) = s := by
  unfold withoutDot
  rw [if_pos ⟨rfl, rfl⟩]
  rfl

/-- A path begins with a dot and a slash, or it is left as it is. -/
theorem withoutDot_cases (s : Bytes) : s = ascii "./" ++ withoutDot s ∨ withoutDot s = s := by
  unfold withoutDot
  split
  · rename_i h
    refine Or.inl ?_
    match s, h with
    | c :: d :: s, h =>
      have hc : c = 46 := Option.some.inj h.1
      have hd : d = 47 := Option.some.inj h.2
      rw [hc, hd]
      rfl
  · exact Or.inr rfl

/-- A beginning that is longer than a dot is treated the same whatever follows it. -/
theorem withoutDot_append {front : Bytes} (h : front ≠ ascii ".") :
    ∃ front', ∀ s, withoutDot (front ++ 47 :: s) = front' ++ 47 :: s := by
  match front with
  | [] => exact ⟨[], withoutDot_slash⟩
  | [c] =>
    have hc : c ≠ 46 := by
      intro hdot
      exact h (by rw [hdot]; rfl)
    refine ⟨[c], ?_⟩
    intro s
    unfold withoutDot
    rw [if_neg]
    intro hpair
    exact hc (Option.some.inj hpair.1)
  | c :: d :: front =>
    by_cases hpair : c = 46 ∧ d = 47
    · obtain ⟨rfl, rfl⟩ := hpair
      exact ⟨front, fun s => withoutDot_dot _⟩
    · refine ⟨c :: d :: front, ?_⟩
      intro s
      unfold withoutDot
      rw [if_neg]
      intro hboth
      exact hpair ⟨Option.some.inj hboth.1, Option.some.inj hboth.2⟩

/-- A collapsed segment behind a beginning. -/
theorem tidy_inserted {seg : Bytes} (hseg : isName seg = false) (front s : Bytes) :
    tidy isName (segments front ++ seg :: segments s) =
      tidy isName (segments front ++ segments s) :=
  tidy_middle hseg (segments_ne_nil front) (segments_ne_nil s)

/-- Nothing changes behind the beginning of a path, nor when a dot and a slash are put in
front of a path without one, nor when the path is a mere slash that is doubled. At the
beginning it depends on the first segment. -/
def SamePlace (front back x : Bytes) : Prop :=
  if front = [] then
    if x = ascii "/" then back = [] ∨ Begins [] (withoutDot back)
    else back ≠ [] ∧ (withoutDot back = back ∨ Begins (ascii ".") (withoutDot back))
  else if front = ascii "/." then Begins (if x = ascii "/" then [] else ascii ".") back
  else True

theorem samePlace_later {front back x : Bytes} (hne : front ≠ []) (hdot : front ≠ ascii "/.") :
    SamePlace front back x := by
  unfold SamePlace
  rw [if_neg hne, if_neg hdot]
  trivial

/-- Right behind the first slash. -/
theorem spelled_first {back x path : Bytes} (hx : x = ascii "/" ∨ x = ascii "./")
    (h : pathOf (pathSegments (text back)) = some path) :
    pathOf (pathSegments (text (x ++ back))) = some path ↔ SamePlace [] back x := by
  unfold SamePlace
  rw [if_pos rfl]
  by_cases hnil : back = []
  · subst hnil
    rcases hx with rfl | rfl
    · rw [if_pos rfl]
      exact iff_of_true h (Or.inl rfl)
    · rw [if_neg (by decide)]
      refine iff_of_false ?_ fun hplace => hplace.1 rfl
      intro hdot
      have hsame : pathOf (pathSegments (text (ascii "./" ++ []))) =
          pathOf (pathSegments (text [])) := hdot.trans h.symm
      exact absurd hsame (by decide +kernel)
  · have htext : text back = back := if_neg hnil
    rw [htext] at h
    rcases hx with rfl | rfl
    · have hnew : pathSegments (text (ascii "/" ++ back)) =
          tidy isName ([] :: segments (withoutDot back)) := by
        show tidy isName (segments (withoutDot (47 :: back))) = _
        rw [withoutDot_slash, segments_slash]
        rcases withoutDot_cases back with hdot | hsame
        · conv_lhs => rw [hdot, segments_dot]
          exact tidy_inserted rfl [] (withoutDot back)
        · rw [hsame]
      rw [if_pos rfl, hnew, begins_iff (Or.inl rfl) h]
      constructor
      · intro hbegins
        exact Or.inr hbegins
      · intro hplace
        exact hplace.resolve_left hnil
    · have hnew : pathSegments (text (ascii "./" ++ back)) = tidy isName (segments back) := by
        show tidy isName (segments (withoutDot (ascii "./" ++ back))) = _
        rw [withoutDot_dot]
      rw [if_neg (by decide), hnew]
      by_cases hsame : withoutDot back = back
      · rw [pathSegments_eq, hsame] at h
        exact iff_of_true h ⟨hnil, Or.inl hsame⟩
      · have hdot := (withoutDot_cases back).resolve_right hsame
        have hsegs : segments back = ascii "." :: segments (withoutDot back) := by
          conv_lhs => rw [hdot, segments_dot]
        rw [hsegs, begins_iff (Or.inr rfl) h]
        constructor
        · intro hbegins
          exact ⟨hnil, Or.inr hbegins⟩
        · intro hplace
          exact hplace.2.resolve_left hsame

/-- Right behind a dot at the beginning. -/
theorem spelled_dot {back x path : Bytes} (hx : x = ascii "/" ∨ x = ascii "./")
    (h : pathOf (pathSegments (text (ascii "./" ++ back))) = some path) :
    pathOf (pathSegments (text (ascii "./" ++ (x ++ back)))) = some path ↔
      SamePlace (ascii "/.") back x := by
  have hold : ∀ s, pathSegments (text (ascii "./" ++ s)) = tidy isName (segments s) := by
    intro s
    show tidy isName (segments (withoutDot (ascii "./" ++ s))) = _
    rw [withoutDot_dot]
  rw [hold] at h
  unfold SamePlace
  rw [hold, if_neg (by decide), if_pos rfl]
  rcases hx with rfl | rfl
  · have hsegs : segments (ascii "/" ++ back) = [] :: segments back := segments_slash back
    rw [hsegs, if_pos rfl]
    exact begins_iff (Or.inl rfl) h
  · rw [segments_dot, if_neg (by decide)]
    exact begins_iff (Or.inr rfl) h

/-- Behind the beginning. -/
theorem spelled_later {front back x : Bytes} (hx : x = ascii "/" ∨ x = ascii "./")
    (hfront : front ≠ ascii ".") :
    pathSegments (text (front ++ 47 :: (x ++ back))) = pathSegments (text (front ++ 47 :: back)) := by
  obtain ⟨front', hwithout⟩ := withoutDot_append hfront
  have htext : ∀ s, pathSegments (text (front ++ 47 :: s)) =
      tidy isName (segments front' ++ segments s) := by
    intro s
    have hne : front ++ 47 :: s ≠ [] := by simp
    unfold text
    rw [if_neg hne, pathSegments_eq, hwithout, segments_append]
  rw [htext, htext]
  rcases hx with rfl | rfl
  · have hsegs : segments (ascii "/" ++ back) = [] :: segments back := segments_slash back
    rw [hsegs]
    exact tidy_inserted rfl front' back
  · rw [segments_dot]
    exact tidy_inserted rfl front' back

/-- A slash makes a scheme only behind a colon and a slash. -/
theorem scheme_inserted {front back x : Bytes} (hx : x = ascii "/" ∨ x = ascii "./")
    (h : ¬ SCHEME <:+: front ++ 47 :: back) :
    SCHEME <:+: front ++ 47 :: (x ++ back) ↔ x = ascii "/" ∧ front.getLast? = some 58 := by
  have hslash : SCHEME <:+: front ++ [47] → False :=
    fun hinfix => h (by
      have hlong : front ++ 47 :: back = front ++ [47] ++ back := by simp
      rw [hlong]
      exact hinfix.trans (List.prefix_append _ _).isInfix)
  have hback : SCHEME <:+: 47 :: back → False :=
    fun hin => h (hin.trans (List.suffix_append _ _).isInfix)
  rcases hx with rfl | rfl
  · constructor
    · intro hinfix
      refine ⟨rfl, ?_⟩
      have hsplit : front ++ 47 :: (ascii "/" ++ back) = (front ++ [47]) ++ 47 :: back := by
        simp [ascii]
      rw [hsplit] at hinfix
      rcases List.infix_append_iff.mp hinfix with hleft | hright | ⟨l₁, l₂, hcut, hl₁, hl₂⟩
      · exact (hslash hleft).elim
      · exact (hback hright).elim
      · have hcut' : [58, 47, 47] = l₁ ++ l₂ := hcut
        match l₁, hcut' with
        | [], hcut' =>
          rw [List.nil_append] at hcut'
          rw [← hcut', List.cons_prefix_cons] at hl₂
          exact absurd hl₂.1 (by decide)
        | [a], hcut' =>
          have ha : (58 : UInt8) = a := (List.cons.inj hcut').1
          obtain ⟨pre, hpre⟩ := hl₁
          have hlast := (List.append_inj' hpre rfl).2
          rw [← ha] at hlast
          exact absurd (List.cons.inj hlast).1 (by decide)
        | [a, b], hcut' =>
          have ha : (58 : UInt8) = a := (List.cons.inj hcut').1
          obtain ⟨pre, hpre⟩ := hl₁
          have hpre' : (pre ++ [a]) ++ [b] = front ++ [47] := by
            rw [← hpre]
            simp
          rw [← (List.append_inj' hpre' rfl).1, List.getLast?_concat, ha]
        | a :: b :: c :: l, hcut' =>
          have hwhole : SCHEME <:+: a :: b :: c :: l := by
            simp only [List.cons_append, List.cons.injEq] at hcut'
            obtain ⟨rfl, rfl, rfl, -⟩ := hcut'
            exact ⟨[], l, rfl⟩
          exact (hslash (hwhole.trans hl₁.isInfix)).elim
    · intro ⟨_, hlast⟩
      obtain ⟨front', rfl⟩ := List.getLast?_eq_some_iff.mp hlast
      exact ⟨front', back, by simp [ascii]⟩
  · have hmid : front ++ 47 :: (ascii "./" ++ back) = (front ++ [47]) ++ 46 :: (47 :: back) := by
      simp [ascii]
    rw [hmid, infix_around (by decide)]
    refine iff_of_false ?_ ?_
    · intro hinfix
      rcases hinfix with hinfix | hinfix
      · exact hslash hinfix
      · exact hback hinfix
    · intro hboth
      exact absurd hboth.1 (by decide)

/-- Another spelling of an accepted target, with a slash or a dot and a slash behind one of
its slashes, is accepted with the same path exactly when it makes no scheme and the place
is behind the beginning of the path, or the first segment does not matter. -/
theorem spelling_iff {r r' : Request} {front back x : Bytes} (hx : x = ascii "/" ∨ x = ascii "./")
    (horigin : r.uri.head? = some 47) (hsplit : r.uri = front ++ 47 :: back)
    (hquery : 63 ∉ r.uri) (hat : 64 ∉ r.uri) (hscheme : ¬ SCHEME <:+: r.uri)
    (haccept : r.parseURI = .ok (0, r')) :
    (∃ r'', Request.parseURI { r with uri := front ++ 47 :: (x ++ back) } = .ok (0, r'') ∧
        r''.resHints.parsedUri.path = r'.resHints.parsedUri.path) ↔
      ¬ (x = ascii "/" ∧ front.getLast? = some 58) ∧ SamePlace front back x := by
  have hplain : ∀ c, c ≠ 47 → c ≠ 46 → c ∉ r.uri → c ∉ front ++ 47 :: (x ++ back) := by
    intro c hslash hdot hmem
    rw [hsplit] at hmem
    simp only [List.mem_append, List.mem_cons, not_or] at hmem ⊢
    refine ⟨hmem.1, hmem.2.1, ?_, hmem.2.2⟩
    rcases hx with rfl | rfl
    · simp [ascii, hslash]
    · simp [ascii, hslash, hdot]
  rw [hsplit] at hscheme
  have hmade := scheme_inserted hx hscheme
  by_cases hrefused : SCHEME <:+: front ++ 47 :: (x ++ back)
  · refine iff_of_false ?_ fun h => h.1 (hmade.mp hrefused)
    intro ⟨r'', hparse, _⟩
    obtain ⟨t, ht⟩ : ∃ t, front ++ 47 :: (x ++ back) = 47 :: t := by
      rw [hsplit] at horigin
      cases front with
      | nil => exact ⟨_, rfl⟩
      | cons c front =>
        have hc : c = 47 := Option.some.inj horigin
        exact ⟨_, by rw [hc, List.cons_append]⟩
    obtain ⟨code, s, hcode, hsettled⟩ :=
      parseURI_origin (r := { r with uri := front ++ 47 :: (x ++ back) }) ht
    have hnone : taken (front ++ 47 :: (x ++ back)) = none := by
      unfold taken
      rw [if_pos hrefused]
    rw [hparse, Except.ok.injEq, Prod.mk.injEq] at hcode
    change settled _ (taken (front ++ 47 :: (x ++ back))) = _ at hsettled
    rw [hnone, ← hcode.1] at hsettled
    have hzero : (400 : ℤ) = 0 := (Prod.mk.inj (Except.ok.inj hsettled)).1
    omega
  · have hkept : ∀ {t t' : Bytes}, r.uri = 47 :: t → front ++ 47 :: (x ++ back) = 47 :: t' →
        (∀ path, pathOf (pathSegments (text t)) = some path →
          (pathOf (pathSegments (text t')) = some path ↔ SamePlace front back x)) →
        ((∃ r'', Request.parseURI { r with uri := front ++ 47 :: (x ++ back) } = .ok (0, r'') ∧
          r''.resHints.parsedUri.path = r'.resHints.parsedUri.path) ↔
            ¬ (x = ascii "/" ∧ front.getLast? = some 58) ∧ SamePlace front back x) := by
      intro t t' ht ht' hplace
      have hold := (parseURI_path ht hquery hat (by rwa [hsplit]) _).mp ⟨r', haccept, rfl⟩
      rw [parseURI_path (r := { r with uri := front ++ 47 :: (x ++ back) }) ht'
        (hplain 63 (by decide) (by decide) hquery) (hplain 64 (by decide) (by decide) hat) hrefused _,
        hplace _ hold]
      constructor
      · intro h
        exact ⟨fun hcolon => hrefused (hmade.mpr hcolon), h⟩
      · intro h
        exact h.2
    cases front with
    | nil => exact hkept hsplit rfl fun path h => spelled_first hx h
    | cons c front =>
      rw [hsplit] at horigin
      obtain rfl : c = 47 := Option.some.inj horigin
      refine hkept hsplit rfl ?_
      intro path h
      by_cases hdot : front = ascii "."
      · subst hdot
        exact spelled_dot hx h
      · refine iff_of_true ((congrArg pathOf (spelled_later hx hdot)).trans h) ?_
        exact samePlace_later (List.cons_ne_nil _ _) fun heq => hdot (List.cons.inj heq).2

theorem doubled_slash_same :
    ∃ r' r'', Request.parseURI { uri := ascii "/a/b" } = .ok (0, r') ∧
      Request.parseURI { uri := ascii "/a//b" } = .ok (0, r'') ∧
      r''.resHints.parsedUri.path = r'.resHints.parsedUri.path := by
  have hrun : (Request.parseURI { uri := ascii "/a/b" }).toOption.any (fun out => out.1 = 0) =
      true := by decide +kernel
  obtain ⟨⟨code, r'⟩, hparse, hcode⟩ := exists_of_any hrun
  obtain rfl : code = 0 := of_decide_eq_true hcode
  have hsplit : ({ uri := ascii "/a/b" } : Request).uri = ascii "/a" ++ 47 :: ascii "b" := rfl
  obtain ⟨r'', hparse', hpath⟩ := (spelling_iff (Or.inl rfl) rfl hsplit (by decide) (by decide)
    (by decide) hparse).mpr ⟨by decide, samePlace_later (by decide) (by decide)⟩
  exact ⟨r', r'', hparse, hparse', hpath⟩

/-- A doubled slash at the beginning of a path stays in it. -/
theorem not_all_spellings_same :
    ¬ ∀ (r r' : Request) (front back x : Bytes), x = ascii "/" ∨ x = ascii "./" →
      r.uri.head? = some 47 → r.uri = front ++ 47 :: back → 63 ∉ r.uri → 64 ∉ r.uri →
      ¬ SCHEME <:+: r.uri → r.parseURI = .ok (0, r') →
        ∃ r'', Request.parseURI { r with uri := front ++ 47 :: (x ++ back) } = .ok (0, r'') ∧
          r''.resHints.parsedUri.path = r'.resHints.parsedUri.path := by
  intro h
  have hrun : (Request.parseURI { uri := ascii "/a" }).toOption.any (fun out => out.1 = 0 ∧
      (Request.parseURI { uri := ascii "//a" }).toOption.any fun out' =>
        out'.2.resHints.parsedUri.path ≠ out.2.resHints.parsedUri.path) = true := by
    decide +kernel
  obtain ⟨⟨code, r'⟩, hparse, hcode⟩ := exists_of_any hrun
  obtain ⟨hzero, hother⟩ := of_decide_eq_true hcode
  dsimp only at hzero
  subst hzero
  obtain ⟨out, hparse', hdiffers⟩ := exists_of_any hother
  obtain ⟨r'', hsame, hpath⟩ := h { uri := ascii "/a" } r' [] (ascii "a") (ascii "/") (Or.inl rfl)
    rfl rfl (by decide) (by decide) (by decide) hparse
  change Request.parseURI { uri := ascii "//a" } = _ at hsame
  rw [hparse', Except.ok.injEq] at hsame
  subst hsame
  exact of_decide_eq_true hdiffers hpath

end Webserveau.PathSpellings
