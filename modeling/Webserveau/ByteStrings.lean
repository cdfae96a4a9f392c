import Mathlib

/-!
Strings as finite lists with the position discipline of `std::string`.
A search returns the first (or last) occurrence, an absent position plays `npos`,
and the operations that take a position fail when it lies past the end.
The two-symbol delimiter lemmas describe the first delimiter of a joined text.
-/
namespace Webserveau.ByteStrings

abbrev Bytes := List UInt8

/-- The bytes of a literal. -/
def ascii (s : String) : Bytes := s.toList.map fun c => UInt8.ofNat c.toNat

/-- The exception of a position past the end of a string. -/
inductive OutOfRange
  | position
  deriving DecidableEq

abbrev Checked := Except OutOfRange

/-- A sequence of two operations succeeds when both do. -/
theorem bind_eq_ok_iff {α β : Type} {x : Checked α} {f : α → Checked β} {b : β} :
    (x >>= f) = .ok b ↔ ∃ a, x = .ok a ∧ f a = .ok b := by
  cases x with
  | error e => simp [bind, Except.bind]
  | ok a => simp [bind, Except.bind]

variable {α : Type*} [DecidableEq α]

/-- First position of a pattern. -/
def find (pat : List α) : List α → Option ℕ
  | [] => if pat = [] then some 0 else none
  | c :: s => if pat.isPrefixOf (c :: s) then some 0 else (find pat s).map (· + 1)

/-- Last position of a pattern. -/
def rfind (pat : List α) : List α → Option ℕ
  | [] => if pat = [] then some 0 else none
  | c :: s =>
    match rfind pat s with
    | some i => some (i + 1)
    | none => if pat.isPrefixOf (c :: s) then some 0 else none

/-- Characters from a position, at most a given number of them. -/
def substr (s : List α) (pos n : ℕ) : Checked (List α) :=
  if pos ≤ s.length then .ok ((s.drop pos).take n) else .error .position

/-- Characters from a position to the end. -/
def substrFrom (s : List α) (pos : ℕ) : Checked (List α) :=
  if pos ≤ s.length then .ok (s.drop pos) else .error .position

/-- Remove a number of characters from a position on. -/
def erase (s : List α) (pos n : ℕ) : Checked (List α) :=
  if pos ≤ s.length then .ok (s.take pos ++ s.drop (pos + n)) else .error .position

omit [DecidableEq α] in
@[simp] theorem substr_of_le {s : List α} {pos : ℕ} (n : ℕ) (h : pos ≤ s.length) :
    substr s pos n = .ok ((s.drop pos).take n) := by simp [substr, h]

omit [DecidableEq α] in
@[simp] theorem substrFrom_of_le {s : List α} {pos : ℕ} (h : pos ≤ s.length) :
    substrFrom s pos = .ok (s.drop pos) := by simp [substrFrom, h]

omit [DecidableEq α] in
@[simp] theorem substr_zero (s : List α) (n : ℕ) : substr s 0 n = .ok (s.take n) := by
  simp [substr]

omit [DecidableEq α] in
theorem substrFrom_eq_error_iff (s : List α) (pos : ℕ) :
    substrFrom s pos = .error .position ↔ s.length < pos := by
  unfold substrFrom
  split
  · rename_i h
    simp only [reduceCtorEq, false_iff]
    omega
  · rename_i h
    simp only [true_iff]
    omega

omit [DecidableEq α] in
@[simp] theorem erase_of_le {s : List α} {pos : ℕ} (n : ℕ) (h : pos ≤ s.length) :
    erase s pos n = .ok (s.take pos ++ s.drop (pos + n)) := by simp [erase, h]

theorem find_cons (pat : List α) (c : α) (s : List α) :
    find pat (c :: s) = if pat <+: c :: s then some 0 else (find pat s).map (· + 1) := by
  by_cases h : pat <+: c :: s
  · simp [find, h, List.isPrefixOf_iff_prefix.mpr h]
  · have hb : pat.isPrefixOf (c :: s) = false := by
      simpa [← List.isPrefixOf_iff_prefix] using h
    simp [find, h, hb]

/-- A found position splits the text around the first occurrence. -/
theorem find_eq_some {pat s : List α} {i : ℕ} (h : find pat s = some i) :
    ∃ a b, s = a ++ pat ++ b ∧ a.length = i := by
  induction s generalizing i with
  | nil =>
    by_cases hp : pat = []
    · subst pat
      refine ⟨[], [], rfl, ?_⟩
      simpa [find, eq_comm] using h
    · simp [find, hp] at h
  | cons c s ih =>
    rw [find_cons] at h
    split at h
    · rename_i hpre
      obtain ⟨b, hb⟩ := hpre
      refine ⟨[], b, by simpa using hb.symm, ?_⟩
      simpa using h
    · obtain ⟨j, hj, rfl⟩ := Option.map_eq_some_iff.mp h
      obtain ⟨a, b, hs, ha⟩ := ih hj
      exact ⟨c :: a, b, by simp [hs], by simp [ha]⟩

theorem find_eq_none_iff {pat s : List α} : find pat s = none ↔ ¬ pat <:+: s := by
  induction s with
  | nil => by_cases hp : pat = [] <;> simp [find, hp]
  | cons c s ih =>
    rw [find_cons, List.infix_cons_iff]
    split
    · rename_i hpre
      simp [hpre]
    · rename_i hpre
      simp [hpre, ih]

theorem find_isSome_iff {pat s : List α} : (find pat s).isSome ↔ pat <:+: s := by
  rw [← not_iff_not, ← find_eq_none_iff, Option.not_isSome_iff_eq_none]

theorem find_lt_length {pat s : List α} {i : ℕ} (h : find pat s = some i) :
    i + pat.length ≤ s.length := by
  obtain ⟨a, b, rfl, rfl⟩ := find_eq_some h
  simp only [List.length_append]
  omega

/-- Text after the first occurrence does not move it. -/
theorem find_append_of_some {pat s : List α} {i : ℕ} (h : find pat s = some i)
    (t : List α) : find pat (s ++ t) = some i := by
  induction s generalizing i with
  | nil =>
    by_cases hp : pat = []
    · subst pat
      have hi : i = 0 := by simpa [find, eq_comm] using h
      subst i
      cases t <;> simp [find]
    · simp [find, hp] at h
  | cons c s ih =>
    rw [find_cons] at h
    rw [List.cons_append, find_cons]
    split at h
    · rename_i hpre
      have hpre' : pat <+: c :: (s ++ t) := hpre.trans (List.prefix_append (c :: s) t)
      simpa [hpre'] using h
    · rename_i hpre
      obtain ⟨j, hj, rfl⟩ := Option.map_eq_some_iff.mp h
      have hpre' : ¬ pat <+: c :: (s ++ t) := by
        intro hlong
        have hlen : pat.length ≤ (c :: s).length := by
          have := find_lt_length hj
          simp only [List.length_cons]
          omega
        exact hpre (List.prefix_of_prefix_length_le hlong (List.prefix_append (c :: s) t) hlen)
      simp [hpre', ih hj]

omit [DecidableEq α] in
theorem take_length_takeWhile (p : α → Bool) (s : List α) :
    s.take (s.takeWhile p).length = s.takeWhile p :=
  (List.prefix_iff_eq_take.mp (List.takeWhile_prefix p)).symm

omit [DecidableEq α] in
theorem drop_length_takeWhile (p : α → Bool) (s : List α) :
    s.drop (s.takeWhile p).length = s.dropWhile p := by
  have h : s = s.takeWhile p ++ s.dropWhile p := List.takeWhile_append_dropWhile.symm
  calc
    s.drop (s.takeWhile p).length =
        (s.takeWhile p ++ s.dropWhile p).drop (s.takeWhile p).length := by rw [← h]
    _ = s.dropWhile p := List.drop_left

/-- A single symbol is first met after the longest front part without it. -/
theorem find_singleton (c : α) (s : List α) :
    find [c] s = if c ∈ s then some (s.takeWhile (· ≠ c)).length else none := by
  induction s with
  | nil => simp [find]
  | cons d s ih =>
    rw [find_cons]
    by_cases hd : d = c
    · subst d
      simp
    · have hd' : c ≠ d := Ne.symm hd
      simp only [List.cons_prefix_cons, hd', false_and, if_false, ih, List.mem_cons, false_or]
      split <;> simp [hd]

/-- A text around the first occurrence of one of its symbols. -/
theorem split_at_mem {c : α} {s : List α} (h : c ∈ s) :
    s = s.takeWhile (· ≠ c) ++ c :: (s.dropWhile (· ≠ c)).tail := by
  induction s with
  | nil => simp at h
  | cons d s ih =>
    by_cases hd : d = c
    · subst d
      simp
    · have hs : c ∈ s := (List.mem_cons.mp h).resolve_left (Ne.symm hd)
      simpa [hd] using ih hs

theorem rfind_eq_some {pat s : List α} {i : ℕ} (h : rfind pat s = some i) :
    ∃ a b, s = a ++ pat ++ b ∧ a.length = i := by
  induction s generalizing i with
  | nil =>
    simp only [rfind] at h
    split at h
    · rename_i hpat
      cases h
      exact ⟨[], [], by simp [hpat], rfl⟩
    · cases h
  | cons c s ih =>
    simp only [rfind] at h
    split at h
    · rename_i j hj
      cases h
      obtain ⟨a, b, hs, hlen⟩ := ih hj
      exact ⟨c :: a, b, by rw [hs]; rfl, by rw [List.length_cons, hlen]⟩
    · split at h
      · rename_i hpre
        cases h
        obtain ⟨b, hb⟩ := List.isPrefixOf_iff_prefix.mp hpre
        exact ⟨[], b, hb.symm, rfl⟩
      · cases h

/-- The last occurrence is not in front of any other. -/
theorem rfind_append (a pat b : List α) :
    ∃ i, rfind pat (a ++ pat ++ b) = some i ∧ a.length ≤ i := by
  have hhere : ∀ b : List α, ∃ i, rfind pat (pat ++ b) = some i := by
    intro b
    cases hs : pat ++ b with
    | nil =>
      obtain ⟨rfl, -⟩ := List.append_eq_nil_iff.mp hs
      exact ⟨0, rfl⟩
    | cons c s =>
      have hpre : pat.isPrefixOf (c :: s) = true := by
        rw [← hs, List.isPrefixOf_iff_prefix]
        exact List.prefix_append pat b
      simp only [rfind]
      cases rfind pat s with
      | some i => exact ⟨i + 1, rfl⟩
      | none => exact ⟨0, by rw [if_pos hpre]⟩
  induction a with
  | nil =>
    obtain ⟨i, hi⟩ := hhere b
    exact ⟨i, hi, Nat.zero_le i⟩
  | cons c a ih =>
    obtain ⟨i, hi, hle⟩ := ih
    refine ⟨i + 1, ?_, Nat.succ_le_succ hle⟩
    simp only [List.cons_append, rfind, hi]

section Delimiter

variable {a b : α}

/-- The first two-symbol delimiter of a text whose front part is free of it. -/
theorem find_delimiter (hab : a ≠ b) (front back : List α) (h : ¬ [a, b] <:+: front) :
    find [a, b] (front ++ [a, b] ++ back) = some front.length := by
  induction front with
  | nil => simp [find]
  | cons c front ih =>
    have hfront : ¬ [a, b] <:+: front := fun hin => h (List.infix_cons_iff.mpr (Or.inr hin))
    have hhead : ¬ [a, b] <+: c :: (front ++ [a, b] ++ back) := by
      intro hpre
      cases front with
      | nil =>
        simp only [List.nil_append, List.cons_append, List.cons_prefix_cons] at hpre
        exact hab hpre.2.1.symm
      | cons d front =>
        apply h
        simp only [List.cons_append, List.cons_prefix_cons] at hpre
        rw [hpre.1, hpre.2.1]
        exact List.infix_append [] [_, _] front
    rw [List.cons_append, List.cons_append, find_cons, if_neg hhead, ih hfront]
    simp

/-- Everything before the first delimiter is free of it. -/
theorem find_delimiter_front {s : List α} {i : ℕ} (h : find [a, b] s = some i) :
    ¬ [a, b] <:+: s.take i := by
  induction s generalizing i with
  | nil => simp [find] at h
  | cons c s ih =>
    rw [find_cons] at h
    split at h
    · have hi : i = 0 := by simpa [eq_comm] using h
      simp [hi]
    · rename_i hpre
      obtain ⟨j, hj, rfl⟩ := Option.map_eq_some_iff.mp h
      rw [List.take_succ_cons, List.infix_cons_iff]
      rintro (hhead | htail)
      · apply hpre
        exact hhead.trans (List.cons_prefix_cons.mpr ⟨rfl, List.take_prefix j s⟩)
      · exact ih hj htail

/-- The text up to and after the first delimiter, if there is one. -/
def cutAt (a b : α) (s : List α) : Option (List α × List α) :=
  (find [a, b] s).map fun i => (s.take i, s.drop (i + 2))

theorem cutAt_eq_some_iff (hab : a ≠ b) {s front back : List α} :
    cutAt a b s = some (front, back) ↔
      s = front ++ [a, b] ++ back ∧ ¬ [a, b] <:+: front := by
  constructor
  · intro h
    obtain ⟨i, hi, heq⟩ := Option.map_eq_some_iff.mp h
    have hfree := find_delimiter_front hi
    obtain ⟨p, q, rfl, rfl⟩ := find_eq_some hi
    have htake : (p ++ [a, b] ++ q).take p.length = p := by simp
    have hdrop : (p ++ [a, b] ++ q).drop (p.length + 2) = q := by simp
    rw [htake, hdrop] at heq
    rw [htake] at hfree
    obtain ⟨rfl, rfl⟩ := Prod.mk.inj heq
    exact ⟨rfl, hfree⟩
  · rintro ⟨rfl, hfree⟩
    rw [cutAt, find_delimiter hab front back hfree]
    simp

theorem cutAt_eq_none_iff {s : List α} : cutAt a b s = none ↔ ¬ [a, b] <:+: s := by
  rw [cutAt, Option.map_eq_none_iff, find_eq_none_iff]

/-- Text after the first delimiter only lengthens what remains. -/
theorem cutAt_append {s front back : List α} (h : cutAt a b s = some (front, back))
    (t : List α) : cutAt a b (s ++ t) = some (front, back ++ t) := by
  obtain ⟨i, hi, heq⟩ := Option.map_eq_some_iff.mp h
  have hlen := find_lt_length hi
  simp only [List.length_cons, List.length_nil] at hlen
  rw [cutAt, find_append_of_some hi t]
  obtain ⟨rfl, rfl⟩ := Prod.mk.inj heq
  rw [Option.map_some, List.take_append_of_le_length (by omega),
    List.drop_append_of_le_length (by omega)]

theorem cutAt_length {s front back : List α} (h : cutAt a b s = some (front, back)) :
    front.length + 2 + back.length = s.length := by
  obtain ⟨i, hi, heq⟩ := Option.map_eq_some_iff.mp h
  have hlen := find_lt_length hi
  obtain ⟨rfl, rfl⟩ := Prod.mk.inj heq
  simp only [List.length_cons, List.length_nil, List.length_take, List.length_drop] at hlen ⊢
  omega

omit [DecidableEq α] in
/-- A delimiter does not reach across a symbol it is not made of. -/
theorem delimiter_infix_around {c : α} (hca : c ≠ a) (hcb : c ≠ b) (s t : List α) :
    [a, b] <:+: s ++ c :: t ↔ [a, b] <:+: s ∨ [a, b] <:+: t := by
  induction s with
  | nil =>
    rw [List.nil_append, List.infix_cons_iff]
    simp [List.cons_prefix_cons, Ne.symm hca]
  | cons d s ih =>
    rw [List.cons_append, List.infix_cons_iff, ih, List.infix_cons_iff, or_assoc]
    have hfront : [a, b] <+: d :: (s ++ c :: t) ↔ [a, b] <+: d :: s := by
      cases s with
      | nil => simp [List.cons_prefix_cons, Ne.symm hcb]
      | cons e s => simp [List.cons_prefix_cons]
    rw [hfront]

/-- A front part that ends before the end of the first delimiter has no delimiter. -/
theorem cutAt_short_front {s p front back : List α} (h : cutAt a b s = some (front, back))
    (hp : p <+: s) (hlen : p.length < front.length + 2) : cutAt a b p = none := by
  cases hcut : cutAt a b p with
  | none => rfl
  | some cut =>
    obtain ⟨front', back'⟩ := cut
    obtain ⟨t, rfl⟩ := hp
    have hlen' := cutAt_length hcut
    have hjoined := cutAt_append hcut t
    rw [h, Option.some.injEq, Prod.mk.injEq] at hjoined
    rw [hjoined.1] at hlen
    omega

/-- A front part that reaches behind the first delimiter is cut there as well. -/
theorem cutAt_long_front (hab : a ≠ b) {s p front back : List α}
    (h : cutAt a b s = some (front, back)) (hp : p <+: s) (hlen : front.length + 2 ≤ p.length) :
    ∃ back', cutAt a b p = some (front, back') ∧ back' <+: back ∧
      p = front ++ [a, b] ++ back' := by
  obtain ⟨rfl, hfree⟩ := (cutAt_eq_some_iff hab).mp h
  have hfront : front ++ [a, b] <+: p :=
    List.prefix_of_prefix_length_le (List.prefix_append _ back) hp (by simpa using hlen)
  obtain ⟨back', rfl⟩ := hfront
  exact ⟨back', (cutAt_eq_some_iff hab).mpr ⟨rfl, hfree⟩,
    (List.prefix_append_right_inj _).mp hp, rfl⟩

end Delimiter

end Webserveau.ByteStrings
