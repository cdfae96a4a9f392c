import Mathlib
import Webserveau.Numerals
import Webserveau.OrderedMaps

/-!
Constants, character classes and conversions shared by the parsers.
Header names are compared by `i_less`, which folds letter case and stops at a NUL
as `c_str()` does. The order is strict and weak, so header maps are ordered maps.
-/
namespace Webserveau.Formats

open ByteStrings Numerals OrderedMaps

def BUFFER_SIZE : ℕ := 4000
def HEADER_MAX_BUFFER : ℕ := 4
def INT32_MAX : ℤ := 2147483647
def CRLF : Bytes := [13, 10]

/-- Conversion to a 32-bit `int`. -/
def toInt (x : ℤ) : ℤ := (x + 2147483648) % 4294967296 - 2147483648

theorem toInt_of_range {x : ℤ} (h : -2147483648 ≤ x) (h' : x ≤ 2147483647) : toInt x = x := by
  unfold toInt
  omega

theorem toInt_range (x : ℤ) : -2147483648 ≤ toInt x ∧ toInt x ≤ 2147483647 := by
  unfold toInt
  omega

theorem toInt_add_toInt (x y : ℤ) : toInt (toInt x + y) = toInt (x + y) := by
  unfold toInt
  omega

theorem toInt_sub_toInt (x k : ℤ) : toInt (toInt x - k) = toInt (x - k) := by
  unfold toInt
  omega

/-- Conversion to a 64-bit `size_t`. -/
def toSize (x : ℤ) : ℕ := (x % 18446744073709551616).toNat

def isBlank (c : UInt8) : Bool := c = 32 || c = 9

def isalpha (c : UInt8) : Bool := (65 ≤ c && c ≤ 90) || (97 ≤ c && c ≤ 122)

def toUpper (c : UInt8) : UInt8 := if 97 ≤ c ∧ c ≤ 122 then c - 32 else c

def deci : Bytes := ascii "0123456789"
def hexa : Bytes := ascii "0123456789ABCDEF"

/-- The result code and the value left in the reference parameter `res`. -/
def getInt (str : Bytes) (base : ℕ) (res : ℤ) : ℤ × ℤ :=
  let str := str.map toUpper
  let sbase := if base = 10 then deci else if base = 16 then hexa else []
  let idx := (str.takeWhile isBlank).length
  let idx := if str[idx]? = some 43 ∨ str[idx]? = some 45 then idx + 1 else idx
  if idx = str.length then (1, res)
  else if (str.drop idx).any (fun c => !sbase.contains c) then (1, res)
  else
    let (x, errno) := strtol str base
    if errno then (1, toInt x) else (0, toInt x)

theorem toUpper_digit {c : UInt8} (h : IsDigit 16 c = true) :
    digitValue (toUpper c) = digitValue c ∧ IsDigit 16 (toUpper c) = true ∧
      isBlank (toUpper c) = false ∧ hexa.contains (toUpper c) = true ∧
      (IsDigit 10 c = true → deci.contains (toUpper c) = true) := by
  revert h
  exact forall_byte (P := fun c => IsDigit 16 c = true →
    digitValue (toUpper c) = digitValue c ∧ IsDigit 16 (toUpper c) = true ∧
      isBlank (toUpper c) = false ∧ hexa.contains (toUpper c) = true ∧
      (IsDigit 10 c = true → deci.contains (toUpper c) = true)) (by decide +kernel) c

/-- A digit string is converted to its number, cut down to 32 bits, unless `strtol`
finds it out of range. -/
theorem getInt_denotes {base : ℕ} (hb : base = 10 ∨ base = 16) {s : Bytes} {n : ℕ}
    (h : Denotes base s n) (res : ℤ) :
    getInt s base res = if (n : ℤ) > LONG_MAX then (1, toInt LONG_MAX) else (0, toInt n) := by
  obtain ⟨hne, hdigits, hvalue⟩ := h
  have hle : base ≤ 16 := by omega
  have hupper := fun c hc => toUpper_digit (isDigit_mono hle (hdigits c hc))
  have hdenotes : Denotes base (s.map toUpper) n := by
    refine ⟨by simpa using hne, ?_, ?_⟩
    · intro c hc
      obtain ⟨d, hd, rfl⟩ := List.mem_map.mp hc
      rw [IsDigit, (hupper d hd).1]
      exact hdigits d hd
    · rw [value_foldl_congr fun c hc => (hupper c hc).1, hvalue]
  have hset : (s.map toUpper).any
      (fun c => !(if base = 10 then deci else if base = 16 then hexa else []).contains c) =
        false := by
    rw [List.any_eq_false]
    intro c hc
    obtain ⟨d, hd, rfl⟩ := List.mem_map.mp hc
    obtain ⟨-, -, -, hhexa, hdeci⟩ := hupper d hd
    rcases hb with rfl | rfl
    · simpa using hdeci (hdigits d hd)
    · simpa using hhexa
  have hstr := strtol_denotes hle hdenotes
  obtain ⟨d, t, rfl⟩ := List.exists_cons_of_ne_nil hne
  obtain ⟨-, hdigit, hblank, -, -⟩ := hupper d (List.mem_cons_self ..)
  obtain ⟨-, hplus, hminus, -, -⟩ := digit_not_special hdigit
  rw [List.map_cons] at hset hstr
  unfold getInt
  have hfront : (toUpper d :: t.map toUpper).takeWhile isBlank = [] :=
    List.takeWhile_cons_of_neg (by simp [hblank])
  simp only [List.map_cons, hfront, List.length_nil, List.getElem?_cons_zero,
    Option.some.injEq, hplus, hminus, or_self,
    if_false, List.drop_zero, hset, List.length_cons, hstr]
  rw [if_neg (by omega), if_neg (by simp)]
  by_cases hrange : (n : ℤ) > LONG_MAX
  · simp only [hrange, if_true]
  · simp only [hrange, if_false]
    rfl

/-- `IntToString` in base ten and `itostr`. -/
def IntToString (x : ℤ) : Bytes :=
  if x < 0 then 45 :: numeral 10 x.natAbs else numeral 10 x.natAbs

/-- The name of a temporary file, from the clock in microseconds. -/
def generateName (hostname : Option Bytes) (time : ℤ) : Bytes :=
  ascii "./tmp/" ++ hostname.getD [] ++ ascii "_" ++ IntToString time

def lowercase (c : UInt8) : UInt8 := if 65 ≤ c ∧ c ≤ 90 then c + 32 else c

/-- The byte a `char*` points to: strings end with a NUL. -/
def deref (s : Bytes) : UInt8 := s.headD 0

def stricmp : Bytes → Bytes → ℤ
  | [], s2 => - (lowercase (deref s2)).toNat
  | c1 :: s1, s2 =>
    if c1 ≠ 0 ∧ lowercase c1 = lowercase (deref s2) then stricmp s1 s2.tail
    else (lowercase c1).toNat - (lowercase (deref s2)).toNat

def iLess (lhs rhs : Bytes) : Bool := stricmp lhs rhs < 0

/-- What `stricmp` sees of a string: the part before a NUL, in lower case. -/
def folded (s : Bytes) : List ℕ := (s.takeWhile (· ≠ 0)).map fun c => (lowercase c).toNat

theorem lowercase_eq_zero_iff (c : UInt8) : lowercase c = 0 ↔ c = 0 :=
  forall_byte (P := fun c => lowercase c = 0 ↔ c = 0) (by decide +kernel) c

theorem lowercase_pos {c : UInt8} (hc : c ≠ 0) : 0 < (lowercase c).toNat := by
  rw [Nat.pos_iff_ne_zero]
  exact fun h => hc ((lowercase_eq_zero_iff c).mp (UInt8.toNat_inj.mp h))

@[simp] theorem folded_nil : folded [] = [] := rfl

@[simp] theorem folded_cons_zero (s : Bytes) : folded (0 :: s) = [] := by simp [folded]

theorem folded_cons {c : UInt8} (hc : c ≠ 0) (s : Bytes) :
    folded (c :: s) = (lowercase c).toNat :: folded s := by simp [folded, hc]

theorem stricmp_neg_iff (a b : Bytes) : stricmp a b < 0 ↔ folded a < folded b := by
  induction a generalizing b with
  | nil =>
    cases b with
    | nil => simp [stricmp, deref, lowercase]
    | cons d b =>
      by_cases hd : d = 0
      · subst d
        simp [stricmp, deref, lowercase]
      · have hpos := lowercase_pos hd
        simp only [stricmp, deref, List.headD_cons, folded_nil, folded_cons hd, List.nil_lt_cons,
          iff_true]
        omega
  | cons c a ih =>
    by_cases hc : c = 0
    · subst c
      have h0 : lowercase 0 = 0 := rfl
      simp only [stricmp, ne_eq, not_true_eq_false, false_and, if_false, h0, folded_cons_zero]
      cases b with
      | nil => simp [deref, h0]
      | cons d b =>
        by_cases hd : d = 0
        · subst d
          simp [deref, h0]
        · have hpos := lowercase_pos hd
          simp only [deref, List.headD_cons, folded_cons hd, List.nil_lt_cons, iff_true]
          simp
          omega
    · have hlc : lowercase c ≠ 0 := fun h => hc ((lowercase_eq_zero_iff c).mp h)
      rw [folded_cons hc]
      cases b with
      | nil =>
        have h0 : lowercase (deref []) = 0 := rfl
        simp only [stricmp, ne_eq, hc, not_false_eq_true, true_and, h0, hlc, if_false, folded_nil,
          List.not_lt_nil, iff_false]
        simp
      | cons d b =>
        by_cases hd : d = 0
        · subst d
          have h0 : lowercase (deref (0 :: b)) = 0 := rfl
          simp only [stricmp, ne_eq, hc, not_false_eq_true, true_and, h0, hlc, if_false,
            folded_cons_zero, List.not_lt_nil, iff_false]
          simp
        · rw [folded_cons hd, List.cons_lt_cons_iff]
          simp only [stricmp, ne_eq, hc, not_false_eq_true, true_and, deref, List.headD_cons,
            List.tail_cons]
          split
          · rename_i heq
            simp [heq, ih]
          · rename_i hne
            have hne' : (lowercase c).toNat ≠ (lowercase d).toNat :=
              fun h => hne (UInt8.toNat_inj.mp h)
            simp only [hne', false_and, or_false]
            omega

theorem iLess_iff (a b : Bytes) : iLess a b = true ↔ folded a < folded b := by
  rw [iLess, decide_eq_true_iff, stricmp_neg_iff]

instance : IsStrictWeakOrder Bytes (iLess · ·) where
  irrefl a := by simp [iLess_iff]
  trans a b c hab hbc := by
    rw [iLess_iff] at *
    exact lt_trans hab hbc
  incomp_trans a b c hab hbc := by
    simp only [iLess_iff, not_lt] at *
    exact ⟨le_trans hbc.1 hab.1, le_trans hab.2 hbc.2⟩

/-- Two names are one header name exactly when they fold to the same text. -/
theorem same_iLess_iff (a b : Bytes) : Same iLess a b = true ↔ folded a = folded b := by
  rw [same_iff, iLess_iff, iLess_iff, not_lt, not_lt, and_comm, ← le_antisymm_iff]

abbrev HeaderMap := OrderedMap Bytes Bytes iLess

instance : Inhabited HeaderMap := ⟨OrderedMap.empty⟩

end Webserveau.Formats
