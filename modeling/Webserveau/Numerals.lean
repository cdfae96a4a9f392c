import Webserveau.ByteStrings

/-!
Positional numerals over ASCII digits and the conversion of `strtol`.
Digits above nine are letters of either case. A canonical numeral of a natural
number reads back as that number, in every base up to sixteen.
-/
namespace Webserveau.Numerals

open ByteStrings

/-- The value of a digit; characters that are no digit are worth 36. -/
def digitValue (c : UInt8) : ℕ :=
  if 48 ≤ c ∧ c ≤ 57 then c.toNat - 48
  else if 65 ≤ c ∧ c ≤ 90 then c.toNat - 55
  else if 97 ≤ c ∧ c ≤ 122 then c.toNat - 87
  else 36

def IsDigit (base : ℕ) (c : UInt8) : Bool := digitValue c < base

/-- The number written by a digit string. -/
def value (base : ℕ) (s : Bytes) : ℕ :=
  s.foldl (fun acc c => acc * base + digitValue c) 0

/-- A nonempty string of digits denoting the number. -/
def Denotes (base : ℕ) (s : Bytes) (n : ℕ) : Prop :=
  s ≠ [] ∧ (∀ c ∈ s, IsDigit base c) ∧ value base s = n

instance (base : ℕ) (s : Bytes) (n : ℕ) : Decidable (Denotes base s n) := by
  unfold Denotes
  infer_instance

/-- The canonical numeral, with lowercase letters. -/
def numeral (base n : ℕ) : Bytes :=
  (Nat.toDigits base n).map fun c => UInt8.ofNat c.toNat

/-- The white space of the C locale. -/
def isSpace (c : UInt8) : Bool := c = 32 || (9 ≤ c && c ≤ 13)

def LONG_MAX : ℤ := 2 ^ 63 - 1
def LONG_MIN : ℤ := -2 ^ 63

/-- `strtol` with a 64-bit `long`: the saturated value and whether `errno` is set. -/
def strtol (s : Bytes) (base : ℕ) : ℤ × Bool :=
  let s := s.dropWhile isSpace
  let negative := s.head? = some 45
  let s := if s.head? = some 45 ∨ s.head? = some 43 then s.tail else s
  let hex := base = 16 ∧ s.head? = some 48 ∧
    (s.tail.head? = some 120 ∨ s.tail.head? = some 88) ∧
    ((s.drop 2).head?.any (IsDigit 16) = true)
  let s := if hex then s.drop 2 else s
  let n : ℤ := value base (s.takeWhile (IsDigit base))
  let x := if negative then -n else n
  if x > LONG_MAX then (LONG_MAX, true)
  else if x < LONG_MIN then (LONG_MIN, true)
  else (x, false)

/-- A property of bytes is checked on the 256 codes. -/
theorem forall_byte {P : UInt8 → Prop} (h : ∀ n < 256, P (UInt8.ofNat n)) (c : UInt8) : P c := by
  have hc := h c.toNat c.toNat_lt
  rwa [UInt8.ofNat_toNat] at hc

theorem value_append_singleton (base : ℕ) (s : Bytes) (c : UInt8) :
    value base (s ++ [c]) = value base s * base + digitValue c := by
  simp [value]

theorem digitValue_digitChar {d : ℕ} (hd : d < 16) :
    digitValue (UInt8.ofNat d.digitChar.toNat) = d := by
  revert d
  decide

theorem numeral_of_lt {base n : ℕ} (h : n < base) :
    numeral base n = [UInt8.ofNat n.digitChar.toNat] := by
  simp [numeral, Nat.toDigits_of_lt_base h]

theorem numeral_of_le {base n : ℕ} (hb : 1 < base) (h : base ≤ n) :
    numeral base n = numeral base (n / base) ++
      [UInt8.ofNat (n % base).digitChar.toNat] := by
  simp [numeral, Nat.toDigits_of_base_le hb h]

/-- A canonical numeral is a digit string of the number it was made from. -/
theorem denotes_numeral {base : ℕ} (hb : 1 < base) (hb' : base ≤ 16) (n : ℕ) :
    Denotes base (numeral base n) n := by
  induction n using Nat.strong_induction_on with
  | h n ih =>
    by_cases hn : n < base
    · have hd := digitValue_digitChar (d := n) (by omega)
      rw [numeral_of_lt hn]
      refine ⟨by simp, ?_, by simp [value, hd]⟩
      intro c hc
      rw [List.mem_singleton.mp hc, IsDigit, hd]
      simpa using hn
    · have hlt : n / base < n := Nat.div_lt_self (by omega) hb
      obtain ⟨-, hdigits, hvalue⟩ := ih (n / base) hlt
      have hmod : n % base < base := Nat.mod_lt n (by omega)
      have hd := digitValue_digitChar (d := n % base) (by omega)
      rw [numeral_of_le hb (by omega)]
      refine ⟨by simp, ?_, ?_⟩
      · intro c hc
        rcases List.mem_append.mp hc with hc | hc
        · exact hdigits c hc
        · rw [List.mem_singleton.mp hc, IsDigit, hd]
          simpa using hmod
      · rw [value_append_singleton, hvalue, hd]
        exact Nat.div_add_mod' n base

theorem value_foldl_congr {base : ℕ} {f : UInt8 → UInt8} {s : Bytes}
    (h : ∀ c ∈ s, digitValue (f c) = digitValue c) : value base (s.map f) = value base s := by
  unfold value
  rw [List.foldl_map]
  apply List.foldl_ext
  intro acc c hc
  rw [h c hc]

theorem digit_not_special {c : UInt8} (h : IsDigit 16 c = true) :
    isSpace c = false ∧ c ≠ 43 ∧ c ≠ 45 ∧ c ≠ 88 ∧ c ≠ 120 := by
  revert h
  exact forall_byte (P := fun c => IsDigit 16 c = true →
    isSpace c = false ∧ c ≠ 43 ∧ c ≠ 45 ∧ c ≠ 88 ∧ c ≠ 120) (by decide +kernel) c

theorem isDigit_mono {b b' : ℕ} (hb : b ≤ b') {c : UInt8} (h : IsDigit b c = true) :
    IsDigit b' c = true := by
  simp only [IsDigit, decide_eq_true_eq] at *
  omega

/-- `strtol` reads a digit string as its number, up to saturation. -/
theorem strtol_denotes {base : ℕ} (hb : base ≤ 16) {s : Bytes} {n : ℕ} (h : Denotes base s n) :
    strtol s base = if (n : ℤ) > LONG_MAX then (LONG_MAX, true) else (n, false) := by
  obtain ⟨hne, hdigits, hvalue⟩ := h
  have hspecial := fun c hc => digit_not_special (isDigit_mono hb (hdigits c hc))
  obtain ⟨d, t, rfl⟩ := List.exists_cons_of_ne_nil hne
  obtain ⟨hspace, hplus, hminus, -, -⟩ := hspecial d (List.mem_cons_self ..)
  have htake : (d :: t).takeWhile (IsDigit base) = d :: t := List.takeWhile_eq_self_iff.mpr hdigits
  have hx : ¬ (t.head? = some 120 ∨ t.head? = some 88) := by
    rintro (hx | hx)
    · have hmem := hspecial 120 (List.mem_cons_of_mem _ (List.mem_of_head? hx))
      exact hmem.2.2.2.2 rfl
    · have hmem := hspecial 88 (List.mem_cons_of_mem _ (List.mem_of_head? hx))
      exact hmem.2.2.2.1 rfl
  have hlow : ¬ (n : ℤ) < LONG_MIN := by
    unfold LONG_MIN
    omega
  unfold strtol
  rw [List.dropWhile_cons_of_neg (by simp [hspace])]
  simp only [List.head?_cons, Option.some.injEq, hplus, hminus, or_self, if_false, List.tail_cons,
    hx, false_and, and_false, htake, hvalue, hlow]

end Webserveau.Numerals
