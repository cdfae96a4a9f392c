import Mathlib

/-!
Objects with addresses.
An arena lists its objects in the order in which they were made. An address stands for
the same object as long as the object is there, and is never used a second time.
-/
namespace Webserveau.Arenas

abbrev Address := ℕ

/-- The objects of one kind, each under its address. -/
structure Arena (α : Type*) where
  objects : List (Address × α)
  next : Address
  below : ∀ o ∈ objects, o.1 < next
  distinct : (objects.map Prod.fst).Nodup

namespace Arena

variable {α : Type*}

def empty : Arena α where
  objects := []
  next := 0
  below := fun o ho => by cases ho
  distinct := List.nodup_nil

/-- The object at an address. -/
def get? (a : Arena α) (p : Address) : Option α :=
  (a.objects.find? fun o => o.1 = p).map Prod.snd

/-- The address of the first object with a property. -/
def search (a : Arena α) (P : α → Bool) : Option Address :=
  (a.objects.find? fun o => P o.2).map Prod.fst

/-- A new object, put at the end; its address is the next one. -/
def alloc (a : Arena α) (v : α) : Arena α where
  objects := a.objects ++ [(a.next, v)]
  next := a.next + 1
  below := by
    intro o ho
    rcases List.mem_append.mp ho with ho | ho
    · exact Nat.lt_succ_of_lt (a.below o ho)
    · rw [List.mem_singleton.mp ho]
      exact Nat.lt_succ_self _
  distinct := by
    rw [List.map_append, List.nodup_append]
    refine ⟨a.distinct, List.nodup_singleton _, ?_⟩
    intro p hp q hq heq
    obtain ⟨o, ho, rfl⟩ := List.mem_map.mp hp
    have hlt := a.below o ho
    rw [heq, List.mem_singleton.mp hq] at hlt
    exact Nat.lt_irrefl _ hlt

/-- A change of the object at an address. -/
def update (a : Arena α) (p : Address) (f : α → α) : Arena α where
  objects := a.objects.map fun o => if o.1 = p then (o.1, f o.2) else o
  next := a.next
  below := by
    intro o ho
    obtain ⟨d, hd, rfl⟩ := List.mem_map.mp ho
    have hlt := a.below d hd
    split
    · exact hlt
    · exact hlt
  distinct := by
    have hkeys : (a.objects.map fun o => if o.1 = p then (o.1, f o.2) else o).map Prod.fst =
        a.objects.map Prod.fst := by
      rw [List.map_map]
      refine List.map_congr_left ?_
      intro o _
      show (if o.1 = p then (o.1, f o.2) else o).1 = o.1
      split
      · rfl
      · rfl
    rw [hkeys]
    exact a.distinct

/-- The object at an address is gone. -/
def free (a : Arena α) (p : Address) : Arena α where
  objects := a.objects.filter fun o => o.1 ≠ p
  next := a.next
  below := fun o ho => a.below o (List.mem_of_mem_filter ho)
  distinct := a.distinct.sublist (List.filter_sublist.map _)

theorem get?_eq_some_iff {a : Arena α} {p : Address} {v : α} :
    a.get? p = some v ↔ (p, v) ∈ a.objects := by
  unfold get?
  constructor
  · intro h
    obtain ⟨o, hfind, rfl⟩ := Option.map_eq_some_iff.mp h
    have hp : o.1 = p := by simpa using List.find?_some hfind
    have hmem := List.mem_of_find?_eq_some hfind
    rw [← hp]
    exact hmem
  · intro h
    cases hfind : a.objects.find? fun o => o.1 = p with
    | none =>
      have hnone := List.find?_eq_none.mp hfind (p, v) h
      simp at hnone
    | some o =>
      have hp : o.1 = p := by simpa using List.find?_some hfind
      have hsame := List.inj_on_of_nodup_map a.distinct (List.mem_of_find?_eq_some hfind) h hp
      rw [hsame]
      rfl

@[simp] theorem get?_empty (p : Address) : (empty : Arena α).get? p = none := rfl

theorem get?_next (a : Arena α) : a.get? a.next = none := by
  rw [Option.eq_none_iff_forall_ne_some]
  intro v h
  exact Nat.lt_irrefl _ (a.below _ (get?_eq_some_iff.mp h))

theorem get?_alloc (a : Arena α) (v : α) (p : Address) :
    (a.alloc v).get? p = if p = a.next then some v else a.get? p := by
  ext w
  rw [get?_eq_some_iff]
  show (p, w) ∈ a.objects ++ [(a.next, v)] ↔ _
  rw [List.mem_append, List.mem_singleton, Prod.mk.injEq]
  split
  · rename_i hp
    have hnew : (p, w) ∉ a.objects := by
      intro hmem
      have hlt := a.below _ hmem
      rw [hp] at hlt
      exact Nat.lt_irrefl _ hlt
    rw [Option.some.injEq]
    constructor
    · intro h
      rcases h with hmem | ⟨-, hvalue⟩
      · exact absurd hmem hnew
      · exact hvalue.symm
    · exact fun hvalue => Or.inr ⟨hp, hvalue.symm⟩
  · rename_i hp
    rw [get?_eq_some_iff]
    simp [hp]

theorem get?_update (a : Arena α) (p : Address) (f : α → α) (q : Address) :
    (a.update p f).get? q = if q = p then (a.get? q).map f else a.get? q := by
  ext w
  rw [get?_eq_some_iff]
  show (q, w) ∈ a.objects.map (fun o => if o.1 = p then (o.1, f o.2) else o) ↔ _
  rw [List.mem_map]
  split
  · rename_i hq
    rw [Option.map_eq_some_iff]
    constructor
    · intro ⟨o, ho, heq⟩
      split at heq
      · obtain ⟨hkey, hvalue⟩ := Prod.mk.inj heq
        refine ⟨o.2, get?_eq_some_iff.mpr ?_, hvalue⟩
        rw [← hkey]
        exact ho
      · rename_i hne
        rw [heq] at hne
        exact absurd hq hne
    · intro ⟨v, hv, hvalue⟩
      refine ⟨(q, v), get?_eq_some_iff.mp hv, ?_⟩
      rw [if_pos hq, hvalue]
  · rename_i hq
    rw [get?_eq_some_iff]
    constructor
    · intro ⟨o, ho, heq⟩
      split at heq
      · rename_i hp
        exact absurd ((congrArg Prod.fst heq).symm.trans hp) hq
      · rwa [← heq]
    · intro h
      exact ⟨(q, w), h, if_neg hq⟩

theorem get?_update_self {a : Arena α} {p : Address} {v : α} (f : α → α)
    (h : a.get? p = some v) : (a.update p f).get? p = some (f v) := by
  rw [get?_update, if_pos rfl, h, Option.map_some]

theorem get?_update_ne {a : Arena α} {p q : Address} (f : α → α) (h : q ≠ p) :
    (a.update p f).get? q = a.get? q := by
  rw [get?_update, if_neg h]

/-- What stands at an address after a change. -/
theorem of_get?_update {a : Arena α} {p q : Address} {f : α → α} {w : α}
    (h : (a.update p f).get? q = some w) :
    (q = p ∧ ∃ v, a.get? p = some v ∧ w = f v) ∨ q ≠ p ∧ a.get? q = some w := by
  by_cases hq : q = p
  · rw [hq, get?_update, if_pos rfl] at h
    obtain ⟨v, hv, hw⟩ := Option.map_eq_some_iff.mp h
    exact Or.inl ⟨hq, v, hv, hw.symm⟩
  · rw [get?_update_ne f hq] at h
    exact Or.inr ⟨hq, h⟩

/-- What stands at an address after an allocation. -/
theorem of_get?_alloc {a : Arena α} {v w : α} {p : Address} (h : (a.alloc v).get? p = some w) :
    p = a.next ∧ w = v ∨ p ≠ a.next ∧ a.get? p = some w := by
  by_cases hp : p = a.next
  · rw [get?_alloc, if_pos hp, Option.some.injEq] at h
    exact Or.inl ⟨hp, h.symm⟩
  · rw [get?_alloc, if_neg hp] at h
    exact Or.inr ⟨hp, h⟩

theorem get?_alloc_of_some {a : Arena α} {v w : α} {p : Address} (h : a.get? p = some w) :
    (a.alloc v).get? p = some w := by
  have hp : p ≠ a.next := by
    intro heq
    rw [heq, get?_next] at h
    cases h
  rw [get?_alloc, if_neg hp, h]

theorem get?_free (a : Arena α) (p q : Address) :
    (a.free p).get? q = if q = p then none else a.get? q := by
  ext w
  rw [get?_eq_some_iff]
  show (q, w) ∈ a.objects.filter (fun o => o.1 ≠ p) ↔ _
  rw [List.mem_filter, decide_eq_true_eq]
  split
  · rename_i hq
    simp [hq]
  · rename_i hq
    rw [get?_eq_some_iff]
    exact and_iff_left hq

theorem of_get?_free {a : Arena α} {p q : Address} {v : α} (h : (a.free p).get? q = some v) :
    q ≠ p ∧ a.get? q = some v := by
  by_cases hq : q = p
  · rw [get?_free, if_pos hq] at h
    cases h
  · rw [get?_free, if_neg hq] at h
    exact ⟨hq, h⟩

theorem get?_free_ne {a : Arena α} {p q : Address} (h : q ≠ p) : (a.free p).get? q = a.get? q := by
  rw [get?_free, if_neg h]

/-- What a search finds is an object with the property. -/
theorem search_some {a : Arena α} {P : α → Bool} {p : Address} (h : a.search P = some p) :
    ∃ v, a.get? p = some v ∧ P v = true := by
  obtain ⟨o, hfind, rfl⟩ := Option.map_eq_some_iff.mp h
  refine ⟨o.2, get?_eq_some_iff.mpr (List.mem_of_find?_eq_some hfind), ?_⟩
  simpa using List.find?_some hfind

theorem search_none {a : Arena α} {P : α → Bool} (h : a.search P = none) {p : Address} {v : α}
    (hv : a.get? p = some v) : P v = false := by
  have hfind := Option.map_eq_none_iff.mp h
  have hnot := List.find?_eq_none.mp hfind _ (get?_eq_some_iff.mp hv)
  simpa using hnot

end Arena

end Webserveau.Arenas
