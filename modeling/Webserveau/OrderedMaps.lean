import Mathlib

/-!
Maps kept in the order of a comparison function, as `std::map` keeps them.
The comparison only has to be a strict weak order: keys that are not ordered
either way are one key, and the spelling stored first stays.
-/
namespace Webserveau.OrderedMaps

variable {κ ν : Type*}

/-- The comparison does not order the two keys either way. -/
def Same (less : κ → κ → Bool) (j k : κ) : Bool := !less j k && !less k j

section Same

variable {less : κ → κ → Bool}

theorem same_iff (j k : κ) : Same less j k = true ↔ ¬ less j k ∧ ¬ less k j := by
  simp [Same]

theorem same_comm (j k : κ) : Same less j k = Same less k j := by
  simp [Same, Bool.and_comm]

variable [IsStrictWeakOrder κ (less · ·)]

theorem not_less_self (k : κ) : less k k = false := by
  simpa using irrefl_of (less · ·) k

theorem same_refl (k : κ) : Same less k k = true := by
  simp [Same, not_less_self]

theorem same_trans {i j k : κ} (hij : Same less i j = true) (hjk : Same less j k = true) :
    Same less i k = true := by
  have hlower : ¬ less i j = true ∧ ¬ less j i = true := (same_iff i j).mp hij
  have hupper : ¬ less j k = true ∧ ¬ less k j = true := (same_iff j k).mp hjk
  have horder : IsStrictWeakOrder κ fun a b => less a b = true := inferInstance
  exact (same_iff i k).mpr (horder.incomp_trans i j k hlower hupper)

theorem same_congr {i j : κ} (h : Same less i j = true) (k : κ) :
    Same less i k = Same less j k := by
  rw [Bool.eq_iff_iff]
  constructor
  · intro hik
    exact same_trans (by rwa [same_comm] at h) hik
  · exact same_trans h

end Same

/-- Finite maps listed in strictly increasing key order. -/
structure OrderedMap (κ ν : Type*) (less : κ → κ → Bool) where
  entries : List (κ × ν)
  sorted : entries.Pairwise fun d e => less d.1 e.1

namespace OrderedMap

variable {less : κ → κ → Bool}

def empty : OrderedMap κ ν less := ⟨[], List.Pairwise.nil⟩

/-- The value stored under a key. -/
def find? (m : OrderedMap κ ν less) (k : κ) : Option ν :=
  (m.entries.find? fun e => Same less e.1 k).map Prod.snd

def insertEntry (less : κ → κ → Bool) (k : κ) (v : ν) : List (κ × ν) → List (κ × ν)
  | [] => [(k, v)]
  | e :: es =>
    if less e.1 k then e :: insertEntry less k v es
    else if less k e.1 then (k, v) :: e :: es
    else (e.1, v) :: es

theorem insertEntry_lower (j k : κ) (v : ν) (es : List (κ × ν))
    (hk : less j k) (hes : ∀ e ∈ es, less j e.1) :
    ∀ e ∈ insertEntry less k v es, less j e.1 := by
  induction es with
  | nil => simpa [insertEntry] using hk
  | cons d es ih =>
    have hd := hes d (List.mem_cons_self ..)
    have hrest : ∀ e ∈ es, less j e.1 := fun e he => hes e (List.mem_cons_of_mem _ he)
    unfold insertEntry
    split
    · intro e he
      rcases List.mem_cons.mp he with rfl | he
      · exact hd
      · exact ih hrest e he
    · split
      · intro e he
        rcases List.mem_cons.mp he with rfl | he
        · exact hk
        · exact hes e he
      · intro e he
        rcases List.mem_cons.mp he with rfl | he
        · exact hd
        · exact hrest e he

section Ordered

variable [IsStrictWeakOrder κ (less · ·)]

theorem insertEntry_sorted (k : κ) (v : ν) (es : List (κ × ν))
    (h : es.Pairwise fun d e => less d.1 e.1) :
    (insertEntry less k v es).Pairwise fun d e => less d.1 e.1 := by
  induction es with
  | nil => simp [insertEntry]
  | cons d es ih =>
    obtain ⟨hd, hes⟩ := List.pairwise_cons.mp h
    unfold insertEntry
    split
    · rename_i hdk
      exact List.pairwise_cons.mpr ⟨insertEntry_lower d.1 k v es hdk hd, ih hes⟩
    · split
      · rename_i hkd
        refine List.pairwise_cons.mpr ⟨?_, h⟩
        intro e he
        rcases List.mem_cons.mp he with rfl | he
        · exact hkd
        · exact trans_of (less · ·) hkd (hd e he)
      · exact List.pairwise_cons.mpr ⟨hd, hes⟩

/-- Assignment through `operator[]`: a stored key keeps its spelling. -/
def insert (m : OrderedMap κ ν less) (k : κ) (v : ν) : OrderedMap κ ν less :=
  ⟨insertEntry less k v m.entries, insertEntry_sorted k v m.entries m.sorted⟩

end Ordered

theorem mem_insertEntry {k : κ} {v : ν} {e : κ × ν} {es : List (κ × ν)}
    (h : e ∈ insertEntry less k v es) :
    e ∈ es ∨ e.2 = v ∧ (e.1 = k ∨ ∃ d ∈ es, d.1 = e.1) := by
  induction es with
  | nil =>
    obtain rfl := List.mem_singleton.mp h
    exact Or.inr ⟨rfl, Or.inl rfl⟩
  | cons d es ih =>
    unfold insertEntry at h
    split at h
    · rcases List.mem_cons.mp h with rfl | h
      · exact Or.inl (List.mem_cons_self ..)
      · rcases ih h with h | ⟨hvalue, hkey⟩
        · exact Or.inl (List.mem_cons_of_mem _ h)
        · refine Or.inr ⟨hvalue, hkey.imp_right ?_⟩
          intro ⟨d', hd', hsame⟩
          exact ⟨d', List.mem_cons_of_mem _ hd', hsame⟩
    · split at h
      · rcases List.mem_cons.mp h with rfl | h
        · exact Or.inr ⟨rfl, Or.inl rfl⟩
        · exact Or.inl h
      · rcases List.mem_cons.mp h with rfl | h
        · exact Or.inr ⟨rfl, Or.inr ⟨d, List.mem_cons_self .., rfl⟩⟩
        · exact Or.inl (List.mem_cons_of_mem _ h)

/-- Removal of the entry under a key. -/
def erase (m : OrderedMap κ ν less) (k : κ) : OrderedMap κ ν less :=
  ⟨m.entries.filter fun e => !Same less e.1 k, m.sorted.filter _⟩

/-- A value that is found is that of an entry. -/
theorem mem_of_find? {m : OrderedMap κ ν less} {k : κ} {v : ν} (h : m.find? k = some v) :
    ∃ e ∈ m.entries, e.2 = v := by
  obtain ⟨e, hfound, hvalue⟩ := Option.map_eq_some_iff.mp h
  exact ⟨e, List.mem_of_find?_eq_some hfound, hvalue⟩

section Lookup

variable [IsStrictWeakOrder κ (less · ·)] (m : OrderedMap κ ν less)

/-- Keys that are not ordered either way find the same value. -/
theorem find?_congr {j k : κ} (h : Same less j k = true) : m.find? j = m.find? k := by
  have hfun : (fun e : κ × ν => Same less e.1 j) = fun e => Same less e.1 k := by
    funext e
    rw [same_comm, same_congr h, same_comm]
  simp only [find?, hfun]

theorem find?_insert_same {j k : κ} (v : ν) (h : Same less j k = true) :
    (m.insert j v).find? k = some v := by
  rw [← find?_congr _ h]
  obtain ⟨es, hes⟩ := m
  simp only [find?, insert]
  clear hes
  induction es with
  | nil => simp [insertEntry, same_refl]
  | cons d es ih =>
    unfold insertEntry
    split
    · rename_i hdj
      have hd : Same less d.1 j = false := by simp [Same, hdj]
      simpa only [List.find?_cons, hd] using ih
    · rename_i hdj
      split
      · simp only [List.find?_cons, same_refl, Option.map_some]
      · rename_i hjd
        have hd : Same less d.1 j = true := by simp [Same, hdj, hjd]
        simp only [List.find?_cons, hd, Option.map_some]

theorem find?_insert_self (k : κ) (v : ν) : (m.insert k v).find? k = some v :=
  find?_insert_same m v (same_refl k)

theorem find?_insert_of_not_same {j k : κ} (v : ν) (h : Same less j k = false) :
    (m.insert j v).find? k = m.find? k := by
  obtain ⟨es, hes⟩ := m
  simp only [find?, insert]
  clear hes
  induction es with
  | nil => simp [insertEntry, h]
  | cons d es ih =>
    unfold insertEntry
    split
    · cases hd : Same less d.1 k with
      | true => simp only [List.find?_cons, hd]
      | false => simpa only [List.find?_cons, hd] using ih
    · rename_i hdj
      split
      · simp only [List.find?_cons, h]
      · rename_i hjd
        have hsame : Same less d.1 j = true := by simp [Same, hdj, hjd]
        have hd : Same less d.1 k = false := by rw [same_congr hsame, h]
        simp only [List.find?_cons, hd]

theorem find?_insert (j k : κ) (v : ν) :
    (m.insert j v).find? k = if Same less j k = true then some v else m.find? k := by
  split
  · rename_i h
    exact find?_insert_same m v h
  · rename_i h
    exact find?_insert_of_not_same m v (by simpa using h)

theorem find?_erase_same {j k : κ} (h : Same less j k = true) : (m.erase j).find? k = none := by
  rw [← find?_congr _ h]
  simp only [find?, erase, Option.map_eq_none_iff, List.find?_eq_none]
  intro e he
  simpa using (List.mem_filter.mp he).2

theorem find?_erase_of_not_same {j k : κ} (h : Same less j k = false) :
    (m.erase j).find? k = m.find? k := by
  obtain ⟨es, hes⟩ := m
  simp only [find?, erase]
  clear hes
  induction es with
  | nil => rfl
  | cons d es ih =>
    by_cases hj : Same less d.1 j = true
    · have hd : Same less d.1 k = false := by rw [same_congr hj, h]
      rw [List.filter_cons_of_neg (by simp [hj])]
      simpa only [List.find?_cons, hd] using ih
    · rw [List.filter_cons_of_pos (by simp [hj])]
      cases hd : Same less d.1 k with
      | true => simp only [List.find?_cons, hd]
      | false => simpa only [List.find?_cons, hd] using ih

/-- The value of an entry is found under its key. -/
theorem find?_of_mem {e : κ × ν} (h : e ∈ m.entries) : m.find? e.1 = some e.2 := by
  obtain ⟨es, hes⟩ := m
  simp only [find?]
  change e ∈ es at h
  induction es with
  | nil => cases h
  | cons d es ih =>
    obtain ⟨hd, hrest⟩ := List.pairwise_cons.mp hes
    rcases List.mem_cons.mp h with heq | h
    · rw [heq, List.find?_cons, same_refl, Option.map_some]
    · have hless : less d.1 e.1 = true := hd e h
      have hnot : Same less d.1 e.1 = false := by simp [Same, hless]
      rw [List.find?_cons, hnot]
      exact ih hrest h

/-- A key that is found has one entry. -/
theorem filter_same {m : OrderedMap κ ν less} {k : κ} {v : ν} (h : m.find? k = some v) :
    ∃ j, Same less j k = true ∧ m.entries.filter (fun e => Same less e.1 k) = [(j, v)] := by
  obtain ⟨es, hes⟩ := m
  simp only [find?] at h ⊢
  induction es with
  | nil => cases h
  | cons d es ih =>
    obtain ⟨hd, hrest⟩ := List.pairwise_cons.mp hes
    cases hsame : Same less d.1 k with
    | false =>
      rw [List.find?_cons, hsame] at h
      rw [List.filter_cons_of_neg (by simp [hsame])]
      exact ih hrest h
    | true =>
      rw [List.find?_cons, hsame] at h
      refine ⟨d.1, hsame, ?_⟩
      rw [List.filter_cons_of_pos (by exact hsame), List.filter_eq_nil_iff.mpr]
      · rw [← Option.some.inj h]
      · intro e he hboth
        have hless : less d.1 e.1 = true := hd e he
        have hequal : Same less d.1 e.1 = true := by
          rw [same_comm] at hboth
          exact same_trans hsame hboth
        exact ((same_iff _ _).mp hequal).1 hless

end Lookup

end OrderedMap

end Webserveau.OrderedMaps
