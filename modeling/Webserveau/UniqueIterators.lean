import Webserveau.OrderedMaps

/-!
Iteration over the distinct values of a map.
The iterator remembers the values it has passed and stops only at entries with new ones. A
map may lose the entries of a value once the iterator has passed it: the entries that the
iterator still has to reach are those with values it has not seen.
-/
namespace Webserveau.UniqueIterators

open OrderedMaps

section Firsts

variable {κ ν : Type*} [DecidableEq ν]

/-- The entries with values that are not among the seen ones. -/
def unseen (seen : List ν) (es : List (κ × ν)) : List (κ × ν) := es.filter fun e => e.2 ∉ seen

/-- The first entry of each value that is not among the seen ones. -/
def firsts (seen : List ν) : List (κ × ν) → List (κ × ν)
  | [] => []
  | e :: es => if e.2 ∈ seen then firsts seen es else e :: firsts (e.2 :: seen) es

theorem mem_unseen {seen : List ν} {es : List (κ × ν)} {e : κ × ν} :
    e ∈ unseen seen es ↔ e ∈ es ∧ e.2 ∉ seen := by
  simp [unseen]

/-- Entries with seen values do not matter. -/
theorem firsts_unseen {seen seen' : List ν} (h : seen ⊆ seen') (es : List (κ × ν)) :
    firsts seen' (unseen seen es) = firsts seen' es := by
  induction es generalizing seen' with
  | nil => rfl
  | cons e es ih =>
    by_cases he : e.2 ∈ seen
    · have hskip : unseen seen (e :: es) = unseen seen es := by simp [unseen, he]
      rw [hskip, firsts, if_pos (h he)]
      exact ih h
    · have hkeep : unseen seen (e :: es) = e :: unseen seen es := by simp [unseen, he]
      rw [hkeep, firsts, firsts]
      split
      · exact ih h
      · rw [ih (List.subset_cons_of_subset _ h)]

theorem unseen_cons_eq (v : ν) (seen : List ν) (es : List (κ × ν)) :
    unseen (v :: seen) es = unseen seen (unseen [v] es) := by
  unfold unseen
  rw [List.filter_filter]
  apply List.filter_congr
  intro e _
  simp [Bool.and_comm]

theorem firsts_of_nil {seen : List ν} {es : List (κ × ν)} (h : unseen seen es = []) :
    firsts seen es = [] := by
  rw [← firsts_unseen (List.Subset.refl seen), h, firsts]

/-- The first unseen entry comes first; then what stays may have lost entries with its value. -/
theorem firsts_of_cons {seen : List ν} {es es' rest : List (κ × ν)} {e : κ × ν}
    (h : unseen seen es = e :: rest) (hsame : unseen [e.2] es' = unseen [e.2] es) :
    firsts seen es = e :: firsts (e.2 :: seen) es' ∧
      (unseen (e.2 :: seen) es').length ≤ rest.length := by
  have hnew : e.2 ∉ seen := by
    have he : e ∈ unseen seen es := by
      rw [h]
      exact List.mem_cons_self ..
    exact (mem_unseen.mp he).2
  have hagain : unseen (e.2 :: seen) (unseen seen es) = unseen (e.2 :: seen) es := by
    unfold unseen
    rw [List.filter_filter]
    apply List.filter_congr
    intro d _
    simp
  have hrest : unseen (e.2 :: seen) es' = unseen (e.2 :: seen) rest := by
    rw [unseen_cons_eq, hsame, ← unseen_cons_eq, ← hagain, h]
    simp [unseen]
  constructor
  · rw [← firsts_unseen (List.Subset.refl seen), h, firsts, if_neg hnew,
      ← firsts_unseen (List.Subset.refl _) es', hrest, firsts_unseen (List.Subset.refl _)]
  · rw [hrest]
    apply List.length_filter_le

theorem firsts_values (seen : List ν) (es : List (κ × ν)) :
    ((firsts seen es).map Prod.snd).Nodup ∧
      ∀ v, v ∈ (firsts seen es).map Prod.snd ↔ v ∉ seen ∧ v ∈ es.map Prod.snd := by
  induction es generalizing seen with
  | nil => simp [firsts]
  | cons e es ih =>
    unfold firsts
    split
    · rename_i hseen
      obtain ⟨hnodup, hvalues⟩ := ih seen
      refine ⟨hnodup, ?_⟩
      intro v
      rw [hvalues, List.map_cons, List.mem_cons]
      constructor
      · intro ⟨hv, hmem⟩
        exact ⟨hv, Or.inr hmem⟩
      · intro ⟨hv, hmem⟩
        rcases hmem with rfl | hmem
        · exact absurd hseen hv
        · exact ⟨hv, hmem⟩
    · rename_i hseen
      obtain ⟨hnodup, hvalues⟩ := ih (e.2 :: seen)
      constructor
      · rw [List.map_cons, List.nodup_cons, hvalues]
        exact ⟨fun h => h.1 (List.mem_cons_self ..), hnodup⟩
      · intro v
        rw [List.map_cons, List.mem_cons, hvalues, List.map_cons, List.mem_cons, List.mem_cons,
          not_or]
        constructor
        · intro hv
          rcases hv with rfl | ⟨⟨hne, hv⟩, hmem⟩
          · exact ⟨hseen, Or.inl rfl⟩
          · exact ⟨hv, Or.inr hmem⟩
        · intro ⟨hv, hmem⟩
          by_cases hne : v = e.2
          · exact Or.inl hne
          · exact Or.inr ⟨⟨hne, hv⟩, hmem.resolve_left hne⟩

theorem firsts_subset (seen : List ν) (es : List (κ × ν)) : ∀ e ∈ firsts seen es, e ∈ es := by
  induction es generalizing seen with
  | nil => simp [firsts]
  | cons d es ih =>
    intro e he
    unfold firsts at he
    split at he
    · exact List.mem_cons_of_mem _ (ih _ e he)
    · rcases List.mem_cons.mp he with rfl | he
      · exact List.mem_cons_self ..
      · exact List.mem_cons_of_mem _ (ih _ e he)

/-- In an ordered list each value is met at its smallest key. -/
theorem firsts_least {less : κ → κ → Bool} (seen : List ν) (es : List (κ × ν))
    (hsorted : es.Pairwise fun d e => less d.1 e.1) :
    ∀ e ∈ firsts seen es, ∀ d ∈ es, d.2 = e.2 → d = e ∨ less e.1 d.1 = true := by
  induction es generalizing seen with
  | nil => simp [firsts]
  | cons c es ih =>
    obtain ⟨hc, hes⟩ := List.pairwise_cons.mp hsorted
    intro e he d hd hvalue
    have hnew := ((firsts_values seen (c :: es)).2 e.2).mp (List.mem_map_of_mem he)
    unfold firsts at he
    split at he
    · rename_i hseen
      rcases List.mem_cons.mp hd with rfl | hd
      · exact absurd (hvalue ▸ hseen) hnew.1
      · exact ih seen hes e he d hd hvalue
    · rcases List.mem_cons.mp he with rfl | he
      · rcases List.mem_cons.mp hd with rfl | hd
        · exact Or.inl rfl
        · exact Or.inr (hc d hd)
      · -- A later entry of the result does not have the value of the first one.
        have hlater := ((firsts_values (c.2 :: seen) es).2 e.2).mp (List.mem_map_of_mem he)
        rcases List.mem_cons.mp hd with rfl | hd
        · exact absurd (hvalue ▸ List.mem_cons_self ..) hlater.1
        · exact ih _ hes e he d hd hvalue

end Firsts

section Iterators

variable {κ ν : Type*} {less : κ → κ → Bool}

/-- The entry that an iterator at a key stands at, unless it has been erased. -/
def entryAt (m : OrderedMap κ ν less) (k : κ) : Option (κ × ν) :=
  m.entries.find? fun e => Same less e.1 k

theorem entryAt_of_mem [IsStrictWeakOrder κ (less · ·)] {m : OrderedMap κ ν less} {e : κ × ν}
    (he : e ∈ m.entries) : entryAt m e.1 = some e := by
  have hsome : (entryAt m e.1).isSome = true := by
    rw [entryAt, List.find?_isSome]
    exact ⟨e, he, same_refl e.1⟩
  obtain ⟨d, hd⟩ := Option.isSome_iff_exists.mp hsome
  have hsame : Same less d.1 e.1 = true := by simpa using List.find?_some hd
  obtain ⟨j, -, hone⟩ := OrderedMap.filter_same (OrderedMap.find?_of_mem m he)
  have hd' : d ∈ m.entries.filter fun x => Same less x.1 e.1 :=
    List.mem_filter.mpr ⟨List.mem_of_find?_eq_some hd, hsame⟩
  have he' : e ∈ m.entries.filter fun x => Same less x.1 e.1 :=
    List.mem_filter.mpr ⟨he, same_refl e.1⟩
  rw [hone, List.mem_singleton] at hd' he'
  rw [hd, hd', he']

/-- Maps with the same entries list them in the same order. -/
theorem entries_ext [IsStrictWeakOrder κ (less · ·)] {es es' : List (κ × ν)}
    (hes : es.Pairwise fun d e => less d.1 e.1) (hes' : es'.Pairwise fun d e => less d.1 e.1)
    (h : ∀ e, e ∈ es ↔ e ∈ es') : es = es' := by
  have hirrefl : ∀ {ds : List (κ × ν)}, (ds.Pairwise fun d e => less d.1 e.1) → ds.Nodup := by
    intro ds hds
    refine hds.imp ?_
    rintro d e hless rfl
    exact absurd hless (irrefl_of (less · ·) d.1)
  have hperm : es.Perm es' := (List.perm_ext_iff_of_nodup (hirrefl hes) (hirrefl hes')).mpr h
  apply hperm.eq_of_pairwise _ hes hes'
  intro d e _ _ hde hed
  exact absurd (trans_of (less · ·) hde hed) (irrefl_of (less · ·) d.1)

/-- The entries behind a key. -/
def following (m : OrderedMap κ ν less) (k : κ) : List (κ × ν) :=
  m.entries.filter fun e => less k e.1

/-- The key at which the iterator stands, none at the end, and the values it has passed. -/
structure UniqueValuesMapIterator (κ ν : Type*) where
  baseIt : Option κ
  uniqueValues : List ν

variable [DecidableEq ν]

/-- `++_baseIt` until the end or a value that has not been passed. -/
def skipPassed (passed : List ν) : List (κ × ν) → Option κ
  | [] => none
  | e :: es => if e.2 ∈ passed then skipPassed passed es else some e.1

namespace UniqueValuesMapIterator

/-- The iterator that is made of `begin()`. -/
def start (m : OrderedMap κ ν less) : UniqueValuesMapIterator κ ν where
  baseIt := m.entries.head?.map Prod.fst
  uniqueValues := []

/-- The entry of the iterator; there is none at the end or where it has been erased. -/
def deref (it : UniqueValuesMapIterator κ ν) (m : OrderedMap κ ν less) : Option (κ × ν) :=
  it.baseIt.bind (entryAt m)

def safePreIncrement (it : UniqueValuesMapIterator κ ν) (m : OrderedMap κ ν less) :
    Option (UniqueValuesMapIterator κ ν) := do
  let e ← it.deref m
  let uniqueValues := it.uniqueValues.insert e.2
  return { baseIt := skipPassed uniqueValues (following m e.1), uniqueValues := uniqueValues }

/-- The iterator as it was, and as it is from now on. -/
def safePostIncrement (it : UniqueValuesMapIterator κ ν) (m : OrderedMap κ ν less) :
    Option (UniqueValuesMapIterator κ ν × UniqueValuesMapIterator κ ν) := do
  let it' ← it.safePreIncrement m
  return (it, it')

end UniqueValuesMapIterator

/-- How a loop over an iterator ends, if the rounds it may take are enough. -/
inductive Outcome (α : Type*)
  | running
  | erased
  | done (result : α)

/-- `while (it != end) body((it.safePostIncrement(end))->second)`, with the entries visited. -/
def iterate (body : OrderedMap κ ν less → ν → OrderedMap κ ν less) :
    ℕ → OrderedMap κ ν less → UniqueValuesMapIterator κ ν → List (κ × ν) →
      Outcome (OrderedMap κ ν less × List (κ × ν))
  | 0, _, _, _ => .running
  | rounds + 1, m, it, visited =>
    if it.baseIt.isNone then .done (m, visited)
    else
      match it.safePostIncrement m with
      | none => .erased
      | some (tmp, it) =>
        match tmp.deref m with
        | none => .erased
        | some e => iterate body rounds (body m e.2) it (visited ++ [e])

/-- The iterator stands at the first entry with a value it has not passed. -/
structure Placed (it : UniqueValuesMapIterator κ ν) (m : OrderedMap κ ν less) (seen : List ν) :
    Prop where
  baseIt : it.baseIt = (unseen seen m.entries).head?.map Prod.fst
  uniqueValues : it.uniqueValues = seen

/-- A loop body that erases entries of the visited value only. -/
def Spares (body : OrderedMap κ ν less → ν → OrderedMap κ ν less) : Prop :=
  ∀ m v, unseen [v] (body m v).entries = unseen [v] m.entries

theorem placed_start (m : OrderedMap κ ν less) :
    Placed (UniqueValuesMapIterator.start m) m [] := by
  refine ⟨?_, rfl⟩
  simp [UniqueValuesMapIterator.start, unseen]

theorem skipPassed_eq (passed : List ν) (es : List (κ × ν)) :
    skipPassed passed es = (unseen passed es).head?.map Prod.fst := by
  induction es with
  | nil => rfl
  | cons e es ih =>
    unfold skipPassed
    by_cases he : e.2 ∈ passed
    · rw [if_pos he, ih]
      simp [unseen, he]
    · rw [if_neg he]
      simp [unseen, he]

variable {m : OrderedMap κ ν less} {seen : List ν} {it : UniqueValuesMapIterator κ ν}
  {e : κ × ν} {rest : List (κ × ν)}

/-- Behind the first unseen entry stand all unseen entries with other values. -/
theorem unseen_following (hfirst : unseen seen m.entries = e :: rest) :
    unseen (e.2 :: seen) (following m e.1) = unseen (e.2 :: seen) m.entries := by
  have hsorted : (e :: rest).Pairwise fun c d => less c.1 d.1 := by
    rw [← hfirst]
    exact m.sorted.filter _
  obtain ⟨hrest, -⟩ := List.pairwise_cons.mp hsorted
  unfold unseen following
  rw [List.filter_filter]
  apply List.filter_congr
  intro d hd
  by_cases hnew : d.2 ∈ e.2 :: seen
  · simp [hnew]
  · have hmem : d ∈ unseen seen m.entries :=
      mem_unseen.mpr ⟨hd, fun h => hnew (List.mem_cons_of_mem _ h)⟩
    rw [hfirst] at hmem
    rcases List.mem_cons.mp hmem with rfl | hmem
    · exact absurd (List.mem_cons_self ..) hnew
    · simp [hrest d hmem]

/-- A body that spares the other values does not move the iterator. -/
theorem Placed.body (h : Placed it m (e.2 :: seen)) {m' : OrderedMap κ ν less}
    (hsame : unseen [e.2] m'.entries = unseen [e.2] m.entries) : Placed it m' (e.2 :: seen) := by
  refine ⟨?_, h.uniqueValues⟩
  rw [unseen_cons_eq, hsame, ← unseen_cons_eq]
  exact h.baseIt

variable [IsStrictWeakOrder κ (less · ·)]

/-- An increment starts from an entry of the map and stops at the next unseen one. -/
theorem Placed.safePostIncrement (h : Placed it m seen)
    (hfirst : unseen seen m.entries = e :: rest) :
    it.deref m = some e ∧ ∃ it', it.safePostIncrement m = some (it, it') ∧
      Placed it' m (e.2 :: seen) := by
  have he : e ∈ unseen seen m.entries := by
    rw [hfirst]
    exact List.mem_cons_self ..
  obtain ⟨hmem, hnew⟩ := mem_unseen.mp he
  have hderef : it.deref m = some e := by
    unfold UniqueValuesMapIterator.deref
    rw [h.baseIt, hfirst]
    exact entryAt_of_mem hmem
  have hpassed : it.uniqueValues.insert e.2 = e.2 :: seen := by
    rw [h.uniqueValues]
    exact List.insert_of_not_mem hnew
  refine ⟨hderef, ?_⟩
  unfold UniqueValuesMapIterator.safePostIncrement UniqueValuesMapIterator.safePreIncrement
  rw [hderef]
  refine ⟨_, rfl, ?_, hpassed⟩
  show skipPassed (it.uniqueValues.insert e.2) (following m e.1) = _
  rw [hpassed, skipPassed_eq, unseen_following hfirst]

/-- The loop visits the first entry of each unseen value and ends. -/
theorem iterate_done {body : OrderedMap κ ν less → ν → OrderedMap κ ν less}
    (hbody : Spares body) (rounds : ℕ) (visited : List (κ × ν)) (h : Placed it m seen)
    (hrounds : (unseen seen m.entries).length < rounds) :
    iterate body rounds m it visited =
      .done (((firsts seen m.entries).map Prod.snd).foldl body m,
        visited ++ firsts seen m.entries) := by
  induction rounds generalizing m it seen visited with
  | zero => omega
  | succ rounds ih =>
    unfold iterate
    cases hfirst : unseen seen m.entries with
    | nil =>
      have hend : it.baseIt = none := by rw [h.baseIt, hfirst, List.head?_nil, Option.map_none]
      rw [hend, firsts_of_nil hfirst]
      simp
    | cons e rest =>
      have hplace : it.baseIt = some e.1 := by rw [h.baseIt, hfirst]; rfl
      obtain ⟨hderef, it', hstep, hplaced⟩ := h.safePostIncrement hfirst
      obtain ⟨hleft, hlength⟩ := firsts_of_cons hfirst (hbody m e.2)
      have henough : (unseen (e.2 :: seen) (body m e.2).entries).length < rounds := by
        rw [hfirst, List.length_cons] at hrounds
        omega
      rw [hplace, hstep]
      simp only [Option.isNone_some, Bool.false_eq_true, if_false, hderef]
      rw [ih _ (hplaced.body (hbody m e.2)) henough, hleft]
      simp

/-- All entries with a value are erased. -/
def eraseValue (m : OrderedMap κ ν less) (v : ν) : OrderedMap κ ν less where
  entries := m.entries.filter fun e => e.2 ≠ v
  sorted := m.sorted.filter _

omit [IsStrictWeakOrder κ (less · ·)] in
theorem foldl_eraseValue (vs : List ν) :
    (vs.foldl eraseValue m).entries = unseen vs m.entries := by
  induction vs generalizing m with
  | nil => simp [unseen]
  | cons v vs ih =>
    rw [List.foldl_cons, ih, eraseValue]
    unfold unseen
    rw [List.filter_filter]
    apply List.filter_congr
    intro e _
    simp [Bool.and_comm]

omit [IsStrictWeakOrder κ (less · ·)] in
/-- When all values are erased nothing is left. -/
theorem foldl_eraseValue_firsts (m : OrderedMap κ ν less) :
    ((firsts [] m.entries).map Prod.snd).foldl eraseValue m = OrderedMap.empty := by
  have hall : (((firsts [] m.entries).map Prod.snd).foldl eraseValue m).entries = [] := by
    rw [foldl_eraseValue]
    apply List.filter_eq_nil_iff.mpr
    intro e he
    have hvisited := ((firsts_values [] m.entries).2 e.2).mpr
      ⟨List.not_mem_nil, List.mem_map_of_mem he⟩
    simpa using hvisited
  cases hm : ((firsts [] m.entries).map Prod.snd).foldl eraseValue m with
  | mk entries sorted =>
    rw [hm] at hall
    subst hall
    rfl

/-- A loop that erases each value it visits leaves nothing. -/
theorem iterate_eraseValue (rounds : ℕ) (hrounds : m.entries.length < rounds) :
    iterate eraseValue rounds m (.start m) [] =
      .done (OrderedMap.empty, firsts [] m.entries) := by
  have hspares : Spares (eraseValue : OrderedMap κ ν less → ν → OrderedMap κ ν less) := by
    intro m v
    simp [unseen, eraseValue]
  have hdone := iterate_done hspares rounds [] (placed_start m) (by simpa [unseen] using hrounds)
  rw [hdone, foldl_eraseValue_firsts, List.nil_append]

/-- A loop that leaves the map alone. -/
theorem iterate_alone (rounds : ℕ) (hrounds : m.entries.length < rounds) :
    iterate (fun m _ => m) rounds m (.start m) [] = .done (m, firsts [] m.entries) := by
  have hspares : Spares (fun (m : OrderedMap κ ν less) (_ : ν) => m) := fun _ _ => rfl
  have hdone := iterate_done hspares rounds [] (placed_start m) (by simpa [unseen] using hrounds)
  have hsame : ((firsts [] m.entries).map Prod.snd).foldl (fun m _ => m) m = m := by
    induction (firsts [] m.entries).map Prod.snd with
    | nil => rfl
    | cons v vs ih => exact ih
  rw [hdone, hsame, List.nil_append]

end Iterators

end Webserveau.UniqueIterators
