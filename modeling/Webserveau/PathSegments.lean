import Webserveau.ByteStrings

/-!
Texts cut into segments by a separator, and the resolution of segments that climb.
Segments between the first and the last are inner segments; collapsing a text removes
inner segments of one kind. Resolution keeps a stack from which a climbing segment takes
the top, so a segment survives exactly when the climbs behind it never outnumber the
names behind it.
-/
namespace Webserveau.PathSegments

variable {α : Type*}

/-- The first and the last segment, and the inner segments that are to be kept. -/
def tidy (keep : List α → Bool) (segs : List (List α)) : List (List α) :=
  segs.take 1 ++ segs.tail.dropLast.filter keep ++ segs.tail.getLast?.toList

theorem tidy_of_inner {keep : List α → Bool} {segs : List (List α)}
    (h : ∀ seg ∈ segs.tail.dropLast, keep seg = true) : tidy keep segs = segs := by
  rw [tidy, List.filter_eq_self.mpr h, List.append_assoc]
  cases segs with
  | nil => rfl
  | cons first rest =>
    have hrest : rest.dropLast ++ rest.getLast?.toList = rest := by
      cases rest using List.reverseRecOn with
      | nil => rfl
      | append_singleton rest last => simp
    simp only [List.tail_cons, hrest]
    rfl

theorem tidy_middle {keep : List α → Bool} {mid : List α} (hmid : keep mid = false)
    {front back : List (List α)} (hfront : front ≠ []) (hback : back ≠ []) :
    tidy keep (front ++ mid :: back) = tidy keep (front ++ back) := by
  obtain ⟨first, front, rfl⟩ := List.exists_cons_of_ne_nil hfront
  obtain ⟨back, last, rfl⟩ : ∃ init last, back = init ++ [last] :=
    ⟨_, _, (List.dropLast_append_getLast hback).symm⟩
  have hlong : front ++ mid :: (back ++ [last]) = (front ++ mid :: back) ++ [last] := by simp
  have hshort : front ++ (back ++ [last]) = (front ++ back) ++ [last] := by simp
  simp only [tidy, List.cons_append, List.tail_cons, hlong, hshort, List.dropLast_concat,
    List.getLast?_concat, List.filter_append, List.filter_cons, hmid]
  rfl

theorem tidy_tidy (keep keep' : List α → Bool) (segs : List (List α)) :
    tidy keep' (tidy keep segs) = tidy (fun seg => keep seg && keep' seg) segs := by
  cases segs with
  | nil => rfl
  | cons first rest =>
    cases rest using List.reverseRecOn with
    | nil => rfl
    | append_singleton rest last =>
      have hinner : tidy keep (first :: (rest ++ [last])) =
          first :: (rest.filter keep ++ [last]) := by simp [tidy]
      rw [hinner]
      simp only [tidy, List.tail_cons, List.dropLast_concat, List.getLast?_concat,
        List.filter_filter, Bool.and_comm]
      rfl

section Separator

variable {sep : α}

/-- Joining two nonempty lists of segments puts one separator between them. -/
theorem intercalate_append {front back : List (List α)} (hfront : front ≠ []) (hback : back ≠ []) :
    [sep].intercalate (front ++ back) =
      [sep].intercalate front ++ sep :: [sep].intercalate back := by
  induction front with
  | nil => exact absurd rfl hfront
  | cons first front ih =>
    by_cases hnil : front = []
    · subst hnil
      rw [List.singleton_append, List.intercalate_cons_of_ne_nil hback]
      simp
    · have hne : front ++ back ≠ [] := by simp [hnil]
      rw [List.cons_append, List.intercalate_cons_of_ne_nil hne, ih hnil,
        List.intercalate_cons_of_ne_nil hnil]
      simp

/-- An inner segment stands between two separators. -/
theorem infix_of_inner [DecidableEq α] {s seg : List α} (h : seg ∈ (s.splitOn sep).tail.dropLast) :
    sep :: seg ++ [sep] <:+: s := by
  obtain ⟨first, rest, hsplit⟩ := List.exists_cons_of_ne_nil (List.splitOn_ne_nil sep s)
  rw [hsplit, List.tail_cons] at h
  obtain ⟨front, back, hrest⟩ := List.append_of_mem h
  have hne : rest ≠ [] := by
    intro hnil
    simp [hnil] at h
  have hrest' : rest = front ++ seg :: (back ++ [rest.getLast hne]) := by
    calc
      rest = rest.dropLast ++ [rest.getLast hne] := (List.dropLast_append_getLast hne).symm
      _ = front ++ seg :: (back ++ [rest.getLast hne]) := by rw [hrest]; simp
  have hjoin : s = [sep].intercalate ((first :: front) ++ seg :: (back ++ [rest.getLast hne])) := by
    calc
      s = [sep].intercalate (s.splitOn sep) := (List.intercalate_splitOn sep).symm
      _ = _ := by
        rw [hsplit]
        conv_lhs => rw [hrest']
        rfl
  have hback : back ++ [rest.getLast hne] ≠ [] := by simp
  rw [hjoin, intercalate_append (by simp) (by simp), List.intercalate_cons_of_ne_nil hback]
  exact ⟨[sep].intercalate (first :: front), [sep].intercalate (back ++ [rest.getLast hne]),
    by simp⟩

end Separator

section Resolution

variable {σ : Type*} [DecidableEq σ]

/-- A stack of names from which each climbing segment takes the top. -/
def resolve (up : σ) : List σ → List σ → Option (List σ)
  | v, [] => some v
  | v, seg :: segs =>
    if seg = up then (if v = [] then none else resolve up v.dropLast segs)
    else resolve up (v ++ [seg]) segs

theorem resolve_append (up : σ) (v front back : List σ) :
    resolve up v (front ++ back) = (resolve up v front).bind fun v => resolve up v back := by
  induction front generalizing v with
  | nil => rfl
  | cons seg front ih =>
    simp only [List.cons_append, resolve]
    split
    · split
      · rfl
      · exact ih _
    · exact ih _

/-- What resolves over some names resolves the same way over more of them. -/
theorem resolve_over (up e : σ) {v segs w : List σ} (h : resolve up v segs = some w) :
    resolve up (e :: v) segs = some (e :: w) := by
  induction segs generalizing v with
  | nil =>
    rw [resolve, Option.some.injEq] at h
    rw [resolve, h]
  | cons seg segs ih =>
    rw [resolve] at h ⊢
    by_cases hseg : seg = up
    · rw [if_pos hseg] at h ⊢
      by_cases hv : v = []
      · rw [if_pos hv] at h
        cases h
      · rw [if_neg hv] at h
        rw [if_neg (List.cons_ne_nil e v), List.dropLast_cons_of_ne_nil hv]
        exact ih h
    · rw [if_neg hseg] at h ⊢
      exact ih h

/-- The lowest name is either never reached, and stays, or taken, and leaves nothing. -/
theorem resolve_lowest (up e f : σ) {v segs w : List σ} (h : resolve up (f :: v) segs = some w) :
    ((∀ p, p <+: segs → 2 * p.count up ≤ p.length + v.length) ∧
      ∃ x, w = f :: x ∧ resolve up (e :: v) segs = some (e :: x)) ∨
    (¬ ∀ p, p <+: segs → 2 * p.count up ≤ p.length + v.length) ∧
      resolve up (e :: v) segs = some w := by
  induction segs generalizing v with
  | nil =>
    rw [resolve, Option.some.injEq] at h
    refine Or.inl ⟨?_, v, h.symm, rfl⟩
    intro p hp
    rw [List.prefix_nil.mp hp]
    exact Nat.zero_le _
  | cons seg segs ih =>
    have hprefixes : ∀ n m : ℕ, (∀ p : List σ,
        2 * (seg :: p).count up ≤ (seg :: p).length + n ↔ 2 * p.count up ≤ p.length + m) →
        (2 * List.count up ([] : List σ) ≤ ([] : List σ).length + n) →
        ((∀ p, p <+: seg :: segs → 2 * p.count up ≤ p.length + n) ↔
          ∀ p, p <+: segs → 2 * p.count up ≤ p.length + m) := by
      intro n m hsame hnil
      constructor
      · intro hall p hp
        exact (hsame p).mp (hall _ ((List.prefix_cons_inj seg).mpr hp))
      · intro hall p hp
        rcases List.prefix_cons_iff.mp hp with rfl | ⟨q, rfl, hq⟩
        · exact hnil
        · exact (hsame q).mpr (hall q hq)
    rw [resolve] at h ⊢
    by_cases hseg : seg = up
    · rw [if_pos hseg, if_neg (List.cons_ne_nil _ _)] at h ⊢
      by_cases hv : v = []
      · subst hv
        refine Or.inr ⟨?_, h⟩
        intro hall
        have hone := hall [seg] (by simp)
        rw [hseg, List.count_singleton_self] at hone
        simp at hone
      · have hpos := List.length_pos_of_ne_nil hv
        rw [List.dropLast_cons_of_ne_nil hv] at h ⊢
        rw [hprefixes v.length v.dropLast.length (by
          intro p
          rw [hseg, List.count_cons_self, List.length_cons, List.length_dropLast]
          omega) (by simp)]
        exact ih h
    · rw [if_neg hseg] at h ⊢
      rw [hprefixes v.length (v ++ [seg]).length (by
        intro p
        rw [List.count_cons_of_ne (by exact hseg), List.length_cons, List.length_append,
          List.length_singleton]
        omega) (by simp)]
      exact ih h

/-- The climbs behind a segment never outnumber the names behind it. -/
def Survives (up : σ) (back : List σ) : Prop :=
  ∀ p, p <+: back → 2 * p.count up ≤ p.length

theorem survives_concat (up seg : σ) (back : List σ) :
    Survives up (back ++ [seg]) ↔
      Survives up back ∧ 2 * (back ++ [seg]).count up ≤ (back ++ [seg]).length := by
  constructor
  · intro h
    exact ⟨fun p hp => h p (hp.trans (List.prefix_append ..)), h _ (List.prefix_refl _)⟩
  · intro ⟨h, hlast⟩ p hp
    rw [List.prefix_concat_iff] at hp
    rcases hp with hp | hp
    · rw [hp]
      exact hlast
    · exact h p hp

omit [DecidableEq σ] in
theorem concat_eq_split {segs front back : List σ} {last seg : σ}
    (h : segs ++ [last] = front ++ seg :: back) :
    (back = [] ∧ segs = front ∧ last = seg) ∨
      ∃ back', back = back' ++ [last] ∧ segs = front ++ seg :: back' := by
  cases back using List.reverseRecOn with
  | nil =>
    obtain ⟨hsegs, hlast⟩ := List.append_inj' h rfl
    exact Or.inl ⟨rfl, hsegs, by simpa using hlast⟩
  | append_singleton back' x =>
    rw [← List.cons_append, ← List.append_assoc] at h
    obtain ⟨hsegs, hlast⟩ := List.append_inj' h rfl
    obtain rfl : last = x := by simpa using hlast
    exact Or.inr ⟨back', rfl, hsegs⟩

/-- A name that no climb reaches, with at least `k` more names than climbs behind it. -/
def Stays (up : σ) (segs : List σ) (k : ℕ) (seg : σ) : Prop :=
  ∃ front back, segs = front ++ seg :: back ∧ seg ≠ up ∧ Survives up back ∧
    2 * back.count up + k ≤ back.length

/-- A climb takes one of the names behind. -/
theorem stays_climb (up : σ) (segs : List σ) (k : ℕ) (seg : σ) :
    Stays up (segs ++ [up]) k seg ↔ Stays up segs (k + 1) seg := by
  have hcount : ∀ back : List σ, (back ++ [up]).count up = back.count up + 1 := by
    intro back
    rw [List.count_append, List.count_singleton_self]
  constructor
  · intro ⟨front, back, hsegs, hseg, hsurvives, hlies⟩
    rcases concat_eq_split hsegs with ⟨-, -, hlast⟩ | ⟨back', rfl, hsegs'⟩
    · exact absurd hlast.symm hseg
    · rw [hcount, List.length_append, List.length_singleton] at hlies
      exact ⟨front, back', hsegs', hseg, ((survives_concat ..).mp hsurvives).1, by omega⟩
  · intro ⟨front, back, hsegs, hseg, hsurvives, hlies⟩
    refine ⟨front, back ++ [up], by simp [hsegs], hseg, ?_, ?_⟩
    · rw [survives_concat, hcount, List.length_append, List.length_singleton]
      exact ⟨hsurvives, by omega⟩
    · rw [hcount, List.length_append, List.length_singleton]
      omega

/-- A name is one more behind those before it, and stays itself. -/
theorem stays_name {up last : σ} (hlast : last ≠ up) (segs : List σ) (k : ℕ) (seg : σ) :
    Stays up (segs ++ [last]) k seg ↔ k = 0 ∧ seg = last ∨ Stays up segs (k - 1) seg := by
  have hcount : ∀ back : List σ, (back ++ [last]).count up = back.count up := by
    intro back
    simp [List.count_append, hlast]
  constructor
  · intro ⟨front, back, hsegs, hseg, hsurvives, hlies⟩
    rcases concat_eq_split hsegs with ⟨rfl, -, heq⟩ | ⟨back', rfl, hsegs'⟩
    · exact Or.inl ⟨by simpa using hlies, heq.symm⟩
    · have hback := ((survives_concat ..).mp hsurvives).1
      have hall := hback back' (List.prefix_refl _)
      rw [hcount, List.length_append, List.length_singleton] at hlies
      exact Or.inr ⟨front, back', hsegs', hseg, hback, by omega⟩
  · rintro (⟨rfl, rfl⟩ | ⟨front, back, hsegs, hseg, hsurvives, hlies⟩)
    · exact ⟨segs, [], rfl, hlast, by simp [Survives], by simp⟩
    · refine ⟨front, back ++ [last], by simp [hsegs], hseg, ?_, ?_⟩
      · rw [survives_concat, hcount, List.length_append]
        exact ⟨hsurvives, by omega⟩
      · rw [hcount, List.length_append, List.length_singleton]
        omega

/-- What lies at least `k` places below the top of the stack. -/
theorem mem_resolve_take (up : σ) (segs : List σ) {v : List σ} (h : resolve up [] segs = some v)
    (k : ℕ) (seg : σ) : seg ∈ v.take (v.length - k) ↔ Stays up segs k seg := by
  induction segs using List.reverseRecOn generalizing v k with
  | nil =>
    obtain rfl : v = [] := by simpa [resolve, eq_comm] using h
    simp [Stays]
  | append_singleton segs last ih =>
    rw [resolve_append] at h
    obtain ⟨w, hw, hlast⟩ := Option.bind_eq_some_iff.mp h
    by_cases hup : last = up
    · subst hup
      have hne : w ≠ [] := by
        intro hnil
        simp [resolve, hnil] at hlast
      obtain rfl : w.dropLast = v := by simpa [resolve, hne] using hlast
      have htake : w.dropLast.take (w.dropLast.length - k) = w.take (w.length - (k + 1)) := by
        rw [List.dropLast_eq_take, List.take_take, List.length_take]
        congr 1
        omega
      rw [htake, ih hw, stays_climb]
    · obtain rfl : w ++ [last] = v := by simpa [resolve, hup] using hlast
      rw [stays_name hup, ← ih hw]
      cases k with
      | zero =>
        have htake : (w ++ [last]).take ((w ++ [last]).length - 0) =
            w.take (w.length - 0) ++ [last] := by simp
        rw [htake, List.mem_append, List.mem_singleton]
        simp [or_comm]
      | succ k =>
        have htake : (w ++ [last]).take ((w ++ [last]).length - (k + 1)) =
            w.take (w.length - k) := by
          rw [List.length_append, List.length_singleton, Nat.add_sub_add_right,
            List.take_append_of_le_length (Nat.sub_le ..)]
        rw [htake]
        simp

/-- The segments that resolution keeps. -/
theorem mem_resolve_iff (up : σ) (segs : List σ) {v : List σ} (h : resolve up [] segs = some v)
    (seg : σ) :
    seg ∈ v ↔ ∃ front back, segs = front ++ seg :: back ∧ seg ≠ up ∧ Survives up back := by
  have hbelow := mem_resolve_take up segs h 0 seg
  rw [Nat.sub_zero, List.take_length] at hbelow
  rw [hbelow]
  constructor
  · intro ⟨front, back, hsegs, hseg, hsurvives, _⟩
    exact ⟨front, back, hsegs, hseg, hsurvives⟩
  · intro ⟨front, back, hsegs, hseg, hsurvives⟩
    exact ⟨front, back, hsegs, hseg, hsurvives, hsurvives back (List.prefix_refl _)⟩

end Resolution

section Walks

variable {σ : Type*} [DecidableEq σ] {up : σ} {stay : σ → Bool}

/-- The place that names lead to from another one: at each name the walk stays, climbs or goes
down. -/
def walk (up : σ) (stay : σ → Bool) (place segs : List σ) : List σ :=
  segs.foldl (fun place seg =>
    if stay seg then place else if seg = up then place.dropLast else place ++ [seg]) place

end Walks

end Webserveau.PathSegments
