import Webserveau.PathConfinement
import Webserveau.SignedNumerals

/-!
Percent-decoding compared with its reference.
An escape is a percent sign and two hexadecimal digits. The windows behind a percent sign
are read as signed numbers, so a blank or a sign and one digit are decoded as well.
-/
namespace Webserveau.PercentDecoding

open ByteStrings Numerals Formats Requests PathConfinement SignedNumerals

/-- The byte that two digits denote. -/
def byteOf (a b : UInt8) : UInt8 := UInt8.ofNat (digitValue a * 16 + digitValue b)

/-- The reference: one pass from left to right that never looks at a byte it produced. -/
def decoded : Bytes → Bytes
  | [] => []
  | [c] => [c]
  | [c, a] => [c, a]
  | c :: a :: b :: rest =>
    if c = 37 ∧ IsDigit 16 a = true ∧ IsDigit 16 b = true then byteOf a b :: decoded rest
    else c :: decoded (a :: b :: rest)

/-- An encoding: escapes for any of the bytes, and for every percent sign. -/
inductive Encodes : Bytes → Bytes → Prop
  | nil : Encodes [] []
  | plain {c : UInt8} {s t : Bytes} : c ≠ 37 → Encodes s t → Encodes (c :: s) (c :: t)
  | escape {a b : UInt8} {s t : Bytes} : IsDigit 16 a = true → IsDigit 16 b = true →
      Encodes s t → Encodes (byteOf a b :: s) (37 :: a :: b :: t)

def isFront (c : UInt8) : Bool := isBlank c || c = 43 || c = 45

/-- A percent sign with a blank or a sign and a digit behind it. -/
def Misread (s : Bytes) : Prop :=
  ∃ front a b rest, s = front ++ 37 :: a :: b :: rest ∧ isFront a = true ∧ IsDigit 16 b = true

/-- The windows that are read. -/
theorem window_iff (a b : UInt8) :
    (getInt [a, b] 16 0).1 = 0 ↔
      IsDigit 16 b = true ∧ (IsDigit 16 a = true ∨ isFront a = true) := by
  have hsmall : ∀ {digits : Bytes} {n : ℕ}, Denotes 16 digits n → digits.length ≤ 2 →
      n ≤ 255 := by
    intro digits n h hlength
    obtain ⟨-, hdigits, rfl⟩ := h
    match digits, hlength with
    | [], _ => exact Nat.zero_le _
    | [d], _ =>
      have hd := hdigits d (by simp)
      simp only [IsDigit, decide_eq_true_eq] at hd
      simp only [value, List.foldl_cons, List.foldl_nil]
      omega
    | [d, e], _ =>
      have hd := hdigits d (by simp)
      have he := hdigits e (by simp)
      simp only [IsDigit, decide_eq_true_eq] at hd he
      simp only [value, List.foldl_cons, List.foldl_nil]
      omega
  constructor
  · intro h
    obtain ⟨x, blanks, sign, digits, n, htext, hblank, hsigned, hdenotes⟩ :=
      signed_of_getInt (Or.inr rfl) h
    obtain ⟨hne, hdigits, -⟩ := hdenotes
    obtain ⟨init, d, hsplit⟩ : ∃ init d, digits = init ++ [d] :=
      ⟨digits.dropLast, digits.getLast hne, (List.dropLast_append_getLast hne).symm⟩
    subst hsplit
    have hlast : blanks ++ (sign ++ init) = [a] ∧ d = b := by
      have h' : [a] ++ [b] = (blanks ++ (sign ++ init)) ++ [d] := by
        simpa [List.append_assoc] using htext
      obtain ⟨hfront, hd⟩ := List.append_inj' h' rfl
      exact ⟨hfront.symm, (List.cons.inj hd).1.symm⟩
    obtain ⟨hfront, rfl⟩ := hlast
    refine ⟨hdigits d (by simp), ?_⟩
    rcases List.mem_append.mp (hfront ▸ List.mem_singleton_self a) with hmem | hmem
    · right
      unfold isFront
      rw [hblank a hmem]
      rfl
    · rcases List.mem_append.mp hmem with hmem | hmem
      · right
        unfold isFront
        cases hsigned with
        | none => cases hmem
        | plus =>
          rw [List.mem_singleton.mp hmem]
          rfl
        | minus =>
          rw [List.mem_singleton.mp hmem]
          rfl
      · left
        exact hdigits a (List.mem_append_left _ hmem)
  · intro h
    obtain ⟨hb, ha⟩ := h
    have hdenotes : Denotes 16 [b] (value 16 [b]) := by
      refine ⟨by simp, ?_, rfl⟩
      intro c hc
      rw [List.mem_singleton.mp hc]
      exact hb
    have hvalue := hsmall hdenotes (by simp)
    have hlong : ∀ x : ℤ, -255 ≤ x → x ≤ 255 → InLong x := by
      intro x hlow hhigh
      unfold InLong LONG_MIN LONG_MAX
      omega
    rcases ha with ha | ha
    · have hboth : Denotes 16 [a, b] (value 16 [a, b]) := by
        refine ⟨by simp, ?_, rfl⟩
        intro c hc
        rcases List.mem_cons.mp hc with hc | hc
        · rw [hc]
          exact ha
        · rw [List.mem_singleton.mp hc]
          exact hb
      have hbound := hsmall hboth (by simp)
      refine (getInt_ok_iff (Or.inr rfl)
        ⟨[], [], [a, b], _, ⟨rfl, List.forall_mem_nil _, .none, hboth⟩⟩ 0).mpr (hlong _ ?_ ?_)
      · omega
      · omega
    · unfold isFront at ha
      rw [Bool.or_eq_true, Bool.or_eq_true, decide_eq_true_eq, decide_eq_true_eq] at ha
      rcases ha with (hblank | rfl) | rfl
      · refine (getInt_ok_iff (Or.inr rfl)
          ⟨[a], [], [b], _, ⟨rfl, ?_, .none, hdenotes⟩⟩ 0).mpr (hlong _ ?_ ?_)
        · intro c hc
          rw [List.mem_singleton.mp hc]
          exact hblank
        · omega
        · omega
      · refine (getInt_ok_iff (Or.inr rfl)
          ⟨[], [43], [b], _, ⟨rfl, List.forall_mem_nil _, .plus, hdenotes⟩⟩ 0).mpr (hlong _ ?_ ?_)
        · omega
        · omega
      · refine (getInt_ok_iff (Or.inr rfl)
          ⟨[], [45], [b], _, ⟨rfl, List.forall_mem_nil _, .minus, hdenotes⟩⟩ 0).mpr (hlong _ ?_ ?_)
        · omega
        · omega

theorem digitValue_lt {c : UInt8} (h : IsDigit 16 c = true) : digitValue c < 16 := by
  simpa [IsDigit] using h

/-- A window of two digits is read as the byte that they denote. -/
theorem window_byte {a b : UInt8} (ha : IsDigit 16 a = true) (hb : IsDigit 16 b = true) :
    toByte (getInt [a, b] 16 0).2 = byteOf a b := by
  have hdenotes : Denotes 16 [a, b] (digitValue a * 16 + digitValue b) := by
    refine ⟨by simp, ?_, by simp [value]⟩
    intro c hc
    rcases List.mem_cons.mp hc with hc | hc
    · rw [hc]
      exact ha
    · rw [List.mem_singleton.mp hc]
      exact hb
  have hsigned : Signed 16 [a, b] ((digitValue a * 16 + digitValue b : ℕ) : ℤ) :=
    ⟨[], [], [a, b], _, ⟨rfl, List.forall_mem_nil _, .none, hdenotes⟩⟩
  have ha' := digitValue_lt ha
  have hb' := digitValue_lt hb
  have hlong : InLong ((digitValue a * 16 + digitValue b : ℕ) : ℤ) := by
    unfold InLong LONG_MIN LONG_MAX
    omega
  rw [getInt_value (Or.inr rfl) hsigned hlong, toInt_of_range (by omega) (by omega)]
  unfold toByte byteOf
  congr 1
  omega

theorem front_not_digit {c : UInt8} (h : isFront c = true) : IsDigit 16 c = false :=
  forall_byte (P := fun c => isFront c = true → IsDigit 16 c = false) (by decide +kernel) c h

theorem front_ne {c : UInt8} (h : isFront c = true) : c ≠ 37 := by
  intro hc
  subst hc
  cases h

theorem digit_ne {c : UInt8} (h : IsDigit 16 c = true) : c ≠ 37 := by
  intro hc
  subst hc
  cases h

theorem decoded_cons {c : UInt8} (hc : c ≠ 37) (s : Bytes) : decoded (c :: s) = c :: decoded s := by
  match s with
  | [] => rfl
  | [a] => rfl
  | a :: b :: rest => simp [decoded, hc]

theorem misread_cons (c : UInt8) (s : Bytes) :
    Misread (c :: s) ↔ (c = 37 ∧ ∃ a b rest, s = a :: b :: rest ∧ isFront a = true ∧
      IsDigit 16 b = true) ∨ Misread s := by
  constructor
  · intro ⟨front, a, b, rest, htext, ha, hb⟩
    cases front with
    | nil =>
      obtain ⟨hc, hs⟩ := List.cons.inj htext
      exact Or.inl ⟨hc, a, b, rest, hs, ha, hb⟩
    | cons d front =>
      obtain ⟨-, hs⟩ := List.cons.inj htext
      exact Or.inr ⟨front, a, b, rest, hs, ha, hb⟩
  · intro h
    rcases h with ⟨rfl, a, b, rest, rfl, ha, hb⟩ | ⟨front, a, b, rest, rfl, ha, hb⟩
    · exact ⟨[], a, b, rest, rfl, ha, hb⟩
    · exact ⟨c :: front, a, b, rest, rfl, ha, hb⟩

theorem misread_cons_of_ne {c : UInt8} (hc : c ≠ 37) (s : Bytes) : Misread (c :: s) ↔ Misread s := by
  rw [misread_cons]
  constructor
  · intro h
    exact h.resolve_left fun h => hc h.1
  · exact Or.inr

theorem not_misread_short {s : Bytes} (h : s.length ≤ 2) : ¬ Misread s := by
  intro ⟨front, a, b, rest, htext, _, _⟩
  have hlength := congrArg List.length htext
  simp only [List.length_append, List.length_cons] at hlength
  omega

/-- The windows the code decodes and the reference does not make its result shorter. -/
theorem percentDecoded_cases (s : Bytes) :
    (percentDecoded s = decoded s ∧ ¬ Misread s) ∨
      ((percentDecoded s).length < (decoded s).length ∧ Misread s) := by
  fun_induction percentDecoded s with
  | case1 => exact Or.inl ⟨rfl, not_misread_short (by simp)⟩
  | case2 c => exact Or.inl ⟨rfl, not_misread_short (by simp)⟩
  | case3 c a => exact Or.inl ⟨rfl, not_misread_short (by simp)⟩
  | case4 c a b rest hdecode ih =>
    obtain ⟨rfl, hread⟩ := hdecode
    obtain ⟨hb, ha⟩ := (window_iff a b).mp hread
    rcases ha with ha | ha
    · have hsame : Misread (37 :: a :: b :: rest) ↔ Misread rest := by
        rw [misread_cons, misread_cons_of_ne (digit_ne ha), misread_cons_of_ne (digit_ne hb)]
        constructor
        · intro h
          refine h.resolve_left ?_
          intro hmisread
          obtain ⟨_, a', b', rest', htext, ha', _⟩ := hmisread
          obtain ⟨rfl, -⟩ := List.cons.inj htext
          rw [front_not_digit ha'] at ha
          cases ha
        · exact Or.inr
      rw [hsame, decoded, if_pos ⟨rfl, ha, hb⟩, window_byte ha hb]
      rcases ih with ⟨hih, hclean⟩ | ⟨hih, hmisread⟩
      · exact Or.inl ⟨by rw [hih], hclean⟩
      · right
        refine ⟨?_, hmisread⟩
        rw [List.length_cons, List.length_cons]
        omega
    · right
      have hnot : ¬ ((37 : UInt8) = 37 ∧ IsDigit 16 a = true ∧ IsDigit 16 b = true) := by
        rw [front_not_digit ha]
        simp
      refine ⟨?_, (misread_cons _ _).mpr (Or.inl ⟨rfl, a, b, rest, rfl, ha, hb⟩)⟩
      rw [decoded, if_neg hnot, decoded_cons (front_ne ha), decoded_cons (digit_ne hb)]
      simp only [List.length_cons]
      rcases ih with ⟨hih, -⟩ | ⟨hih, -⟩
      · rw [hih]
        omega
      · omega
  | case5 c a b rest hkeep ih =>
    rw [window_iff] at hkeep
    have hnot : ¬ (c = 37 ∧ IsDigit 16 a = true ∧ IsDigit 16 b = true) :=
      fun h => hkeep ⟨h.1, h.2.2, Or.inl h.2.1⟩
    have hsame : Misread (c :: a :: b :: rest) ↔ Misread (a :: b :: rest) := by
      rw [misread_cons]
      constructor
      · intro h
        refine h.resolve_left ?_
        intro hmisread
        obtain ⟨hc, a', b', rest', htext, ha, hb⟩ := hmisread
        obtain ⟨rfl, htail⟩ := List.cons.inj htext
        obtain ⟨rfl, -⟩ := List.cons.inj htail
        exact hkeep ⟨hc, hb, Or.inr ha⟩
      · exact Or.inr
    rw [hsame, decoded, if_neg hnot]
    rcases ih with ⟨hih, hclean⟩ | ⟨hih, hmisread⟩
    · exact Or.inl ⟨by rw [hih], hclean⟩
    · right
      refine ⟨?_, hmisread⟩
      rw [List.length_cons, List.length_cons]
      omega

/-- Whatever is encoded is decoded to what it was. -/
theorem percentDecoded_encodes {s t : Bytes} (h : Encodes s t) : percentDecoded t = s := by
  induction h with
  | nil => rfl
  | plain hc _ ih => rw [percentDecoded_cons hc, ih]
  | escape ha hb _ ih =>
    have hread := (window_iff _ _).mpr ⟨hb, Or.inl ha⟩
    rw [percentDecoded, if_pos ⟨rfl, hread⟩, window_byte ha hb, ih]

/-- The text is decoded as the reference decodes it, and so is every encoding of it. -/
def Faithful (s : Bytes) : Prop :=
  translatePercent s = .ok (decoded s) ∧ ∀ t, Encodes s t → translatePercent t = .ok s

theorem faithful_iff (s : Bytes) : Faithful s ↔ ¬ Misread s := by
  unfold Faithful
  rw [translatePercent_eq, Except.ok.injEq]
  constructor
  · intro ⟨hsame, _⟩ hmisread
    rcases percentDecoded_cases s with ⟨-, hclean⟩ | ⟨hshorter, -⟩
    · exact hclean hmisread
    · rw [hsame] at hshorter
      exact Nat.lt_irrefl _ hshorter
  · intro hclean
    constructor
    · rcases percentDecoded_cases s with ⟨hsame, -⟩ | ⟨-, hmisread⟩
      · exact hsame
      · exact absurd hmisread hclean
    · intro t h
      rw [translatePercent_eq, percentDecoded_encodes h]

theorem blank_digit_unfaithful : ¬ Faithful (ascii "100% 5") := by
  intro ⟨hsame, _⟩
  revert hsame
  decide

end Webserveau.PercentDecoding
