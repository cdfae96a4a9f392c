import Webserveau.Arenas
import Webserveau.OrderedMaps

/-!
Values that are stored once.
A value is put into an arena only when no object there equals it. A map to addresses shows
values through its arena, and what it shows does not tell that objects are shared.
-/
namespace Webserveau.Interning

open OrderedMaps Arenas

section Pools

variable {α : Type*} {same : α → α → Bool} {a b c : Arena α} {p q : Address} {v w : α}

/-- The first object that equals a value; the value itself is put at the end if none does. -/
def intern (same : α → α → Bool) (a : Arena α) (v : α) : Address × Arena α :=
  match a.search fun w => same w v with
  | some p => (p, a)
  | none => (a.next, a.alloc v)

/-- The comparison tells all values apart. -/
def Exact (same : α → α → Bool) : Prop := ∀ v w, same v w = true ↔ v = w

/-- No two objects are equal. -/
def Distinct (a : Arena α) : Prop :=
  ∀ p q v, a.get? p = some v → a.get? q = some v → p = q

/-- All objects stay as they are. -/
def Keeps (a b : Arena α) : Prop := ∀ p v, a.get? p = some v → b.get? p = some v

theorem Keeps.refl (a : Arena α) : Keeps a a := fun _ _ h => h

theorem distinct_empty : Distinct (Arena.empty : Arena α) := by
  intro p q v h
  cases h

theorem intern_keeps (same : α → α → Bool) (a : Arena α) (v : α) :
    Keeps a (intern same a v).2 := by
  unfold intern
  split
  · exact Keeps.refl a
  · intro p w h
    exact Arena.get?_alloc_of_some h

theorem get?_intern (hsame : Exact same) (a : Arena α) (v : α) :
    (intern same a v).2.get? (intern same a v).1 = some v := by
  unfold intern
  split
  · rename_i p hfound
    obtain ⟨w, hw, hequal⟩ := Arena.search_some hfound
    rwa [← (hsame w v).mp hequal]
  · rw [Arena.get?_alloc, if_pos rfl]

theorem Distinct.intern (ha : Distinct a) (hsame : Exact same) (v : α) :
    Distinct (intern same a v).2 := by
  unfold Interning.intern
  split
  · exact ha
  · rename_i hnone
    have hnew : ∀ p, a.get? p ≠ some v := by
      intro p hp
      have hdiffers := Arena.search_none hnone hp
      rw [(hsame v v).mpr rfl] at hdiffers
      cases hdiffers
    intro p q w hp hq
    rcases Arena.of_get?_alloc hp with ⟨rfl, rfl⟩ | ⟨-, hp₀⟩
    · rcases Arena.of_get?_alloc hq with ⟨rfl, -⟩ | ⟨-, hq₀⟩
      · rfl
      · exact absurd hq₀ (hnew q)
    · rcases Arena.of_get?_alloc hq with ⟨-, rfl⟩ | ⟨-, hq₀⟩
      · exact absurd hp₀ (hnew p)
      · exact ha p q w hp₀ hq₀

end Pools

section Maps

variable {α κ : Type*} {less : κ → κ → Bool} {a b : Arena α} {m m' : OrderedMap κ Address less}
  {values values' : κ → Option α}

/-- A map has an address for each key that has a value, and the value is found there. -/
def Shows (a : Arena α) (m : OrderedMap κ Address less) (values : κ → Option α) : Prop :=
  ∀ k, (m.find? k).map a.get? = (values k).map some

theorem shows_empty (a : Arena α) :
    Shows a (OrderedMap.empty : OrderedMap κ Address less) fun _ => none := fun _ => rfl

theorem Shows.eq_none_iff (h : Shows a m values) (k : κ) :
    m.find? k = none ↔ values k = none := by
  rw [← Option.map_eq_none_iff (f := a.get?), h k, Option.map_eq_none_iff]

theorem Shows.of_some (h : Shows a m values) {k : κ} {v : α} (hk : values k = some v) :
    ∃ p, m.find? k = some p ∧ a.get? p = some v := by
  have hshown := h k
  rw [hk] at hshown
  exact Option.map_eq_some_iff.mp hshown

theorem Shows.keeps (h : Shows a m values) (hab : Keeps a b) : Shows b m values := by
  intro k
  cases hk : values k with
  | none => rw [(h.eq_none_iff k).mpr hk, Option.map_none, Option.map_none]
  | some v =>
    obtain ⟨p, hp, hv⟩ := h.of_some hk
    rw [hp, Option.map_some, Option.map_some, hab p v hv]

/-- Equal values are behind one address. -/
theorem Shows.shared (ha : Distinct a) (h : Shows a m values) (h' : Shows a m' values')
    {k k' : κ} {v : α} (hk : values k = some v) (hk' : values' k' = some v) :
    m.find? k = m'.find? k' := by
  obtain ⟨p, hp, hv⟩ := h.of_some hk
  obtain ⟨q, hq, hv'⟩ := h'.of_some hk'
  rw [hp, hq, ha p q v hv hv']

end Maps

section Stores

variable {α κ : Type*} [DecidableEq κ] {less : κ → κ → Bool} [IsStrictWeakOrder κ (less · ·)]
  {same : α → α → Bool} {a : Arena α} {m : OrderedMap κ Address less}
  {values values' : κ → Option α}

/-- A value, which may be an address, is stored under each of some keys. -/
def store {ν : Type*} (m : OrderedMap κ ν less) (keys : List κ) (v : ν) : OrderedMap κ ν less :=
  keys.foldl (fun m k => m.insert k v) m

theorem find?_store {ν : Type*} {m : OrderedMap κ ν less}
    (hkeys : ∀ j k, Same less j k = true ↔ j = k) (keys : List κ) (v : ν) (k : κ) :
    (store m keys v).find? k = if k ∈ keys then some v else m.find? k := by
  unfold store
  induction keys generalizing m with
  | nil => simp
  | cons j keys ih =>
    rw [List.foldl_cons, ih, OrderedMap.find?_insert]
    simp only [hkeys]
    by_cases hj : j = k
    · simp [hj]
    · simp [hj, Ne.symm hj]

/-- A value that is interned and stored is shown under its keys, and nothing else changes. -/
theorem Shows.store (h : Shows a m values) (hsame : Exact same)
    (hkeys : ∀ j k, Same less j k = true ↔ j = k) {keys : List κ} {v : α}
    (hin : ∀ k ∈ keys, values' k = some v) (hout : ∀ k ∉ keys, values' k = values k) :
    Shows (intern same a v).2 (store m keys (intern same a v).1) values' := by
  have hkept : Shows (intern same a v).2 m values := h.keeps (intern_keeps same a v)
  intro k
  rw [find?_store hkeys]
  split
  · rename_i hk
    rw [hin k hk, Option.map_some, Option.map_some, get?_intern hsame]
  · rename_i hk
    rw [hout k hk]
    exact hkept k

/-- The same for the maps of many holders that share an arena, when one of them stores. -/
theorem Shows.storeAt {ι : Type*} {maps maps' : ι → OrderedMap κ Address less}
    {shown shown' : ι → κ → Option α} (h : ∀ i, Shows a (maps i) (shown i)) (hsame : Exact same)
    (hkeys : ∀ j k, Same less j k = true ↔ j = k) (i : ι) (keys : List κ) (v : α)
    (hmap : maps' i = Interning.store (maps i) keys (intern same a v).1)
    (hmaps : ∀ x, x ≠ i → maps' x = maps x) (hin : ∀ k ∈ keys, shown' i k = some v)
    (hout : ∀ k ∉ keys, shown' i k = shown i k) (hother : ∀ x, x ≠ i → shown' x = shown x)
    (x : ι) : Shows (intern same a v).2 (maps' x) (shown' x) := by
  by_cases hx : x = i
  · subst hx
    rw [hmap]
    exact (h x).store hsame hkeys hin hout
  · rw [hmaps x hx, hother x hx]
    exact (h x).keeps (intern_keeps same a v)

end Stores

end Webserveau.Interning
