import Webserveau.Formats

/-!
Numerals with blanks and a sign in front of them.
`getInt` admits exactly these texts. A number that a `long` cannot hold is refused by
`strtol`; one that a `long` holds and an `int` does not is cut down without a word.
-/
namespace Webserveau.SignedNumerals

open ByteStrings Numerals Formats

/-- The integer a sign makes of a natural number. -/
inductive Sign : Bytes → ℕ → ℤ → Prop
  | none {n : ℕ} : Sign [] n n
  | plus {n : ℕ} : Sign [43] n n
  | minus {n : ℕ} : Sign [45] n (-n)

/-- Blanks, at most one sign, and digits up to the end. -/
structure Written (base : ℕ) (s : Bytes) (x : ℤ) (blanks sign digits : Bytes) (n : ℕ) : Prop where
  text : s = blanks ++ (sign ++ digits)
  blank : ∀ c ∈ blanks, isBlank c = true
  signed : Sign sign n x
  denotes : Denotes base digits n

/-- The text denotes the integer. -/
def Signed (base : ℕ) (s : Bytes) (x : ℤ) : Prop :=
  ∃ blanks sign digits n, Written base s x blanks sign digits n

def InInt (x : ℤ) : Prop := -2 ^ 31 ≤ x ∧ x ≤ 2 ^ 31 - 1

def InLong (x : ℤ) : Prop := LONG_MIN ≤ x ∧ x ≤ LONG_MAX

/-- Blanks and signs are kept by the change of case. -/
theorem toUpper_front (c : UInt8) :
    isBlank (toUpper c) = isBlank c ∧ (toUpper c = 43 ↔ c = 43) ∧ (toUpper c = 45 ↔ c = 45) ∧
      (isBlank c = true → isSpace (toUpper c) = true) :=
  forall_byte (P := fun c => isBlank (toUpper c) = isBlank c ∧ (toUpper c = 43 ↔ c = 43) ∧
    (toUpper c = 45 ↔ c = 45) ∧ (isBlank c = true → isSpace (toUpper c) = true))
    (by decide +kernel) c

/-- The digits a base admits, behind the change of case. -/
theorem toUpper_admitted (c : UInt8) :
    (deci.contains (toUpper c) = true ↔ IsDigit 10 c = true) ∧
      (hexa.contains (toUpper c) = true ↔ IsDigit 16 c = true) :=
  forall_byte (P := fun c => (deci.contains (toUpper c) = true ↔ IsDigit 10 c = true) ∧
    (hexa.contains (toUpper c) = true ↔ IsDigit 16 c = true)) (by decide +kernel) c

def admitted (base : ℕ) : Bytes := if base = 10 then deci else if base = 16 then hexa else []

theorem admitted_iff {base : ℕ} (hb : base = 10 ∨ base = 16) (c : UInt8) :
    (admitted base).contains (toUpper c) = true ↔ IsDigit base c = true := by
  rcases hb with hb | hb
  · subst hb
    exact (toUpper_admitted c).1
  · subst hb
    exact (toUpper_admitted c).2

theorem takeWhile_blanks {blanks s : Bytes} (h : ∀ c ∈ blanks, isBlank c = true)
    (hs : ∀ c ∈ s.head?, isBlank c = false) :
    ((blanks ++ s).map toUpper).takeWhile isBlank = blanks.map toUpper := by
  rw [List.map_append, List.takeWhile_append_of_pos]
  · cases s with
    | nil => simp
    | cons c s =>
      have hc : isBlank (toUpper c) = false := by
        rw [(toUpper_front c).1]
        exact hs c rfl
      rw [List.map_cons, List.takeWhile_cons_of_neg (by simp [hc]), List.append_nil]
  · intro c hc
    obtain ⟨d, hd, rfl⟩ := List.mem_map.mp hc
    rw [(toUpper_front d).1]
    exact h d hd

/-- What is looked at behind the blanks: a sign, and the text behind it. -/
def front (s : Bytes) : Bytes × Bytes :=
  match s with
  | [] => ([], [])
  | c :: s => if c = 43 ∨ c = 45 then ([c], s) else ([], c :: s)

theorem front_append (s : Bytes) : (front s).1 ++ (front s).2 = s := by
  cases s with
  | nil => rfl
  | cons c s =>
    unfold front
    dsimp only
    split
    · rfl
    · rfl

/-- `getInt` behind its blanks. -/
theorem getInt_front {base : ℕ} {blanks s : Bytes} (h : ∀ c ∈ blanks, isBlank c = true)
    (hs : ∀ c ∈ s.head?, isBlank c = false) (res : ℤ) :
    getInt (blanks ++ s) base res =
      if (front s).2 = [] then (1, res)
      else if (front s).2.any (fun c => !(admitted base).contains (toUpper c)) then (1, res)
      else if (strtol ((blanks ++ s).map toUpper) base).2
        then (1, toInt (strtol ((blanks ++ s).map toUpper) base).1)
        else (0, toInt (strtol ((blanks ++ s).map toUpper) base).1) := by
  have hblanks := takeWhile_blanks h hs
  have hhead : ((blanks ++ s).map toUpper)[blanks.length]? = s.head?.map toUpper := by
    rw [List.map_append, List.getElem?_append_right (by simp)]
    simp [List.head?_eq_getElem?]
  have hsign : (((blanks ++ s).map toUpper)[blanks.length]? = some 43 ∨
      ((blanks ++ s).map toUpper)[blanks.length]? = some 45) ↔ (front s).1 ≠ [] := by
    rw [hhead]
    cases s with
    | nil => simp [front]
    | cons c s =>
      have hupper := toUpper_front c
      unfold front
      simp only [List.head?_cons, Option.map_some, Option.some.injEq, hupper.2.1, hupper.2.2.1]
      split
      · rename_i hc
        simp [hc]
      · rename_i hc
        simp [hc]
  have hidx : (if (front s).1 ≠ [] then blanks.length + 1 else blanks.length) =
      (blanks ++ (front s).1).length := by
    cases s with
    | nil => simp [front]
    | cons c s =>
      unfold front
      dsimp only
      split
      · simp
      · simp
  have hjoin : blanks ++ s = (blanks ++ (front s).1) ++ (front s).2 := by
    rw [List.append_assoc, front_append]
  have hdrop : ((blanks ++ s).map toUpper).drop (blanks ++ (front s).1).length =
      (front s).2.map toUpper := by
    rw [← List.map_drop, hjoin, List.drop_left]
  have hend : (blanks ++ (front s).1).length = ((blanks ++ s).map toUpper).length ↔
      (front s).2 = [] := by
    rw [List.length_map, hjoin, @List.length_append _ _ (front s).2, ← List.length_eq_zero_iff]
    omega
  unfold getInt
  simp only [hblanks, List.length_map, hsign, hidx, hdrop, List.any_map]
  rw [List.length_map] at hend
  simp only [hend]
  rfl

/-- `strtol` skips blanks and reads the sign. -/
theorem strtol_written {base : ℕ} (hb : base ≤ 16) {s : Bytes} {x : ℤ}
    {blanks sign digits : Bytes} {n : ℕ} (h : Written base s x blanks sign digits n) :
    strtol (s.map toUpper) base =
      if x > LONG_MAX then (LONG_MAX, true) else if x < LONG_MIN then (LONG_MIN, true)
      else (x, false) := by
  obtain ⟨rfl, hblank, hsigned, hne, hdigits, hvalue⟩ := h
  have hupper := fun c hc => toUpper_digit (isDigit_mono hb (hdigits c hc))
  have hspecial := fun c hc => digit_not_special (hupper c hc).2.1
  have hskip : ∀ c ∈ blanks.map toUpper, isSpace c = true := by
    intro c hc
    obtain ⟨d, hd, rfl⟩ := List.mem_map.mp hc
    exact (toUpper_front d).2.2.2 (hblank d hd)
  have hread : value base ((digits.map toUpper).takeWhile (IsDigit base)) = n := by
    rw [List.takeWhile_eq_self_iff.mpr]
    · rw [value_foldl_congr fun c hc => (hupper c hc).1, hvalue]
    · intro c hc
      obtain ⟨d, hd, rfl⟩ := List.mem_map.mp hc
      rw [IsDigit, (hupper d hd).1]
      exact hdigits d hd
  have hhex : ¬ ((digits.map toUpper).tail.head? = some 120 ∨
      (digits.map toUpper).tail.head? = some 88) := by
    intro hx
    have hmem : ∀ c, (digits.map toUpper).tail.head? = some c → ∃ d ∈ digits, toUpper d = c := by
      intro c hc
      have hin := List.mem_of_mem_tail (List.mem_of_head? hc)
      exact List.mem_map.mp hin
    rcases hx with hx | hx
    · obtain ⟨d, hd, hc⟩ := hmem _ hx
      exact (hspecial d hd).2.2.2.2 hc
    · obtain ⟨d, hd, hc⟩ := hmem _ hx
      exact (hspecial d hd).2.2.2.1 hc
  have hplain : ∀ t, t = digits.map toUpper →
      t.dropWhile isSpace = t ∧ t.head? ≠ some 45 ∧ t.head? ≠ some 43 := by
    intro t ht
    obtain ⟨d, digits, rfl⟩ := List.exists_cons_of_ne_nil hne
    obtain ⟨hspace, hplus, hminus, -, -⟩ := hspecial d (List.mem_cons_self ..)
    subst ht
    rw [List.map_cons]
    refine ⟨List.dropWhile_cons_of_neg (by simp [hspace]), ?_, ?_⟩
    · simpa using hminus
    · simpa using hplus
  obtain ⟨hdrop, hnotMinus, hnotPlus⟩ := hplain _ rfl
  unfold strtol
  rw [List.map_append, List.map_append, List.dropWhile_append_of_pos hskip]
  cases hsigned with
  | none =>
    rw [List.map_nil, List.nil_append, hdrop]
    simp only [hnotMinus, hnotPlus, or_self, if_false, hhex, false_and, and_false, hread]
  | plus =>
    have hfront : ([43] : Bytes).map toUpper = [43] := rfl
    rw [hfront, List.singleton_append, List.dropWhile_cons_of_neg (by decide)]
    simp only [List.head?_cons, Option.some.injEq, or_true, if_true, List.tail_cons, hhex,
      false_and, and_false, if_false, hread]
    rfl
  | minus =>
    have hfront : ([45] : Bytes).map toUpper = [45] := rfl
    rw [hfront, List.singleton_append, List.dropWhile_cons_of_neg (by decide)]
    simp only [List.head?_cons, true_or, if_true, List.tail_cons, hhex,
      false_and, and_false, if_false, hread]

/-- A written integer is converted, cut down to 32 bits, unless a `long` cannot hold it. -/
theorem getInt_written {base : ℕ} (hb : base = 10 ∨ base = 16) {s : Bytes} {x : ℤ}
    (h : Signed base s x) (res : ℤ) :
    getInt s base res = if x > LONG_MAX then (1, toInt LONG_MAX)
      else if x < LONG_MIN then (1, toInt LONG_MIN) else (0, toInt x) := by
  obtain ⟨blanks, sign, digits, n, hwritten⟩ := h
  have hle : base ≤ 16 := by omega
  have hstrtol := strtol_written hle hwritten
  obtain ⟨rfl, hblank, hsigned, hne, hdigits, -⟩ := hwritten
  have hspecial := fun c hc => digit_not_special (isDigit_mono hle (hdigits c hc))
  obtain ⟨d, rest, hcons⟩ := List.exists_cons_of_ne_nil hne
  obtain ⟨hspace, hplus, hminus, -, -⟩ := hspecial d (hcons ▸ List.mem_cons_self ..)
  have hstop : ∀ c ∈ (sign ++ digits).head?, isBlank c = false := by
    cases hsigned with
    | none =>
      intro c hc
      rw [hcons, List.nil_append, List.head?_cons, Option.mem_some_iff] at hc
      subst hc
      exact Bool.eq_false_iff.mpr fun hblank => by
        have hskipped := (toUpper_front d).2.2.2 hblank
        rw [(digit_not_special (toUpper_digit (isDigit_mono hle
          (hdigits d (hcons ▸ List.mem_cons_self ..)))).2.1).1] at hskipped
        cases hskipped
    | plus =>
      intro c hc
      cases hc
      rfl
    | minus =>
      intro c hc
      cases hc
      rfl
  have hfront : (front (sign ++ digits)).2 = digits := by
    cases hsigned with
    | none =>
      rw [hcons, List.nil_append]
      unfold front
      exact congrArg Prod.snd (if_neg (not_or.mpr ⟨hplus, hminus⟩))
    | plus => rfl
    | minus => rfl
  have hadmitted : digits.any (fun c => !(admitted base).contains (toUpper c)) = false := by
    rw [List.any_eq_false]
    intro c hc
    rw [(admitted_iff hb c).mpr (hdigits c hc)]
    decide
  rw [getInt_front hblank hstop, hfront, if_neg hne, hadmitted, if_neg (by decide), hstrtol]
  by_cases hhigh : x > LONG_MAX
  · simp only [hhigh, if_true]
  · simp only [hhigh, if_false]
    by_cases hlow : x < LONG_MIN
    · simp only [hlow, if_true]
    · simp only [hlow, if_false]
      rfl

/-- Nothing but a written integer is converted. -/
theorem signed_of_getInt {base : ℕ} (hb : base = 10 ∨ base = 16) {s : Bytes} {res : ℤ}
    (h : (getInt s base res).1 = 0) : ∃ x, Signed base s x := by
  have hjoin : s.takeWhile isBlank ++ s.dropWhile isBlank = s := List.takeWhile_append_dropWhile
  have hblank : ∀ c ∈ s.takeWhile isBlank, isBlank c = true := fun c hc =>
    List.mem_takeWhile_imp hc
  have hstop : ∀ c ∈ (s.dropWhile isBlank).head?, isBlank c = false := by
    intro c hc
    have hhead := List.head?_dropWhile_not isBlank s
    rw [Option.mem_def.mp hc] at hhead
    simpa using hhead
  rw [← hjoin, getInt_front hblank hstop] at h
  have hfront := front_append (s.dropWhile isBlank)
  have hsign : ∀ n : ℕ, ∃ x, Sign (front (s.dropWhile isBlank)).1 n x := by
    intro n
    cases s.dropWhile isBlank with
    | nil => exact ⟨n, .none⟩
    | cons c t =>
      unfold front
      dsimp only
      split
      · rename_i hc
        rcases hc with hc | hc
        · subst hc
          exact ⟨n, .plus⟩
        · subst hc
          exact ⟨-n, .minus⟩
      · exact ⟨n, .none⟩
  by_cases hnil : (front (s.dropWhile isBlank)).2 = []
  · rw [if_pos hnil] at h
    cases h
  · rw [if_neg hnil] at h
    by_cases hany : (front (s.dropWhile isBlank)).2.any
        (fun c => !(admitted base).contains (toUpper c)) = true
    · rw [if_pos hany] at h
      cases h
    · obtain ⟨x, hx⟩ := hsign (value base (front (s.dropWhile isBlank)).2)
      refine ⟨x, s.takeWhile isBlank, _, _, _, ⟨?_, hblank, hx, hnil, ?_, rfl⟩⟩
      · rw [hfront, hjoin]
      · intro c hc
        rw [Bool.not_eq_true, List.any_eq_false] at hany
        have hadmitted := hany c hc
        rw [Bool.not_eq_true', Bool.not_eq_false] at hadmitted
        exact (admitted_iff hb c).mp hadmitted

theorem getInt_ok_iff {base : ℕ} (hb : base = 10 ∨ base = 16) {s : Bytes} {x : ℤ}
    (h : Signed base s x) (res : ℤ) : (getInt s base res).1 = 0 ↔ InLong x := by
  rw [getInt_written hb h]
  unfold InLong
  constructor
  · intro hzero
    by_cases hhigh : x > LONG_MAX
    · rw [if_pos hhigh] at hzero
      cases hzero
    · rw [if_neg hhigh] at hzero
      by_cases hlow : x < LONG_MIN
      · rw [if_pos hlow] at hzero
        cases hzero
      · exact ⟨Int.not_lt.mp hlow, Int.not_lt.mp hhigh⟩
  · intro ⟨hlow, hhigh⟩
    rw [if_neg (Int.not_lt.mpr hhigh), if_neg (Int.not_lt.mpr hlow)]

theorem getInt_value {base : ℕ} (hb : base = 10 ∨ base = 16) {s : Bytes} {x : ℤ}
    (h : Signed base s x) (hlong : InLong x) (res : ℤ) : (getInt s base res).2 = toInt x := by
  rw [getInt_written hb h, if_neg (Int.not_lt.mpr hlong.2), if_neg (Int.not_lt.mpr hlong.1)]

theorem toInt_eq_iff (x : ℤ) : toInt x = x ↔ InInt x := by
  unfold InInt
  constructor
  · intro h
    have hrange := toInt_range x
    omega
  · intro h
    exact toInt_of_range (by omega) (by omega)

/-- The call succeeds exactly on the texts that denote a number of the range of `int`, and
it gives that number. -/
def Exact (base : ℕ) (s : Bytes) : Prop :=
  ∀ res, ((getInt s base res).1 = 0 ↔ ∃ x, Signed base s x ∧ InInt x) ∧
    ∀ x, Signed base s x → (getInt s base res).1 = 0 → (getInt s base res).2 = x

/-- Parsing is exact but for the numbers that a `long` holds and an `int` does not. -/
theorem exact_iff (base : ℕ) (s : Bytes) (hb : base = 10 ∨ base = 16) :
    Exact base s ↔ ¬ ∃ x, Signed base s x ∧ InLong x ∧ ¬ InInt x := by
  constructor
  · intro hexact ⟨x, hsigned, hlong, hout⟩
    obtain ⟨-, hvalue⟩ := hexact 0
    have hx := hvalue x hsigned ((getInt_ok_iff hb hsigned 0).mpr hlong)
    rw [getInt_value hb hsigned hlong] at hx
    exact hout ((toInt_eq_iff x).mp hx)
  · intro hband res
    have hint : ∀ x, Signed base s x → (getInt s base res).1 = 0 → InInt x := by
      intro x hsigned hzero
      by_contra hout
      exact hband ⟨x, hsigned, (getInt_ok_iff hb hsigned res).mp hzero, hout⟩
    constructor
    · constructor
      · intro hzero
        obtain ⟨x, hsigned⟩ := signed_of_getInt hb hzero
        exact ⟨x, hsigned, hint x hsigned hzero⟩
      · intro ⟨x, hsigned, hlow, hhigh⟩
        refine (getInt_ok_iff hb hsigned res).mpr ⟨?_, ?_⟩
        · unfold LONG_MIN
          omega
        · unfold LONG_MAX
          omega
    · intro x hsigned hzero
      rw [getInt_value hb hsigned ((getInt_ok_iff hb hsigned res).mp hzero)]
      exact (toInt_eq_iff x).mpr (hint x hsigned hzero)

/-- 2^32, which is read as zero. -/
def beyondInt : Bytes := ascii "4294967296"

theorem exact_huge : Exact 16 (ascii " -8000000000000001") := by
  refine (exact_iff 16 _ (Or.inr rfl)).mpr ?_
  intro ⟨x, hsigned, hlong, _⟩
  have hzero := (getInt_ok_iff (Or.inr rfl) hsigned 0).mpr hlong
  revert hzero
  decide

theorem beyondInt_inexact : ¬ Exact 10 beyondInt := by
  intro hexact
  obtain ⟨-, hvalue⟩ := hexact 0
  have hsigned : Signed 10 beyondInt 4294967296 :=
    ⟨[], [], beyondInt, 4294967296, ⟨rfl, nofun, .none, by decide +kernel⟩⟩
  have hzero := hvalue 4294967296 hsigned (by decide)
  revert hzero
  decide

end Webserveau.SignedNumerals
