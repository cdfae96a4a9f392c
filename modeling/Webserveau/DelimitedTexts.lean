import Webserveau.ByteStrings

/-!
Texts made of lines.
A line ends at a delimiter of two symbols. Splitting gives back the lines a text was made
of exactly when none of them contains the delimiter.
-/
namespace Webserveau.DelimitedTexts

open ByteStrings

variable {α : Type*} {a b : α}

/-- The text does not contain the delimiter. -/
def Unbroken (a b : α) (s : List α) : Prop := ¬ [a, b] <:+: s

theorem unbroken_nil : Unbroken a b [] := by
  intro h
  have hlen := h.length_le
  simp at hlen

theorem Unbroken.inside {s t : List α} (h : Unbroken a b s) (ht : t <:+: s) : Unbroken a b t :=
  fun hin => h (hin.trans ht)

theorem unbroken_of_not_mem {s : List α} (h : a ∉ s) : Unbroken a b s :=
  fun hin => h (hin.subset (List.mem_cons_self ..))

/-- A symbol of a joined text is one of the separator or of a part. -/
theorem not_mem_intercalate {c : α} {sep : List α} {parts : List (List α)} (hsep : c ∉ sep)
    (h : ∀ part ∈ parts, c ∉ part) : c ∉ sep.intercalate parts := by
  induction parts with
  | nil => exact List.not_mem_nil
  | cons part parts ih =>
    have hpart := h part (List.mem_cons_self ..)
    have hrest := ih fun p hp => h p (List.mem_cons_of_mem _ hp)
    cases parts with
    | nil =>
      rw [List.intercalate_singleton]
      exact hpart
    | cons next parts =>
      rw [List.intercalate_cons_cons]
      simp only [List.mem_append, not_or]
      exact ⟨⟨hpart, hsep⟩, hrest⟩

/-- Every line with its delimiter. -/
def terminate (a b : α) (lines : List (List α)) : List α := lines.flatMap fun line => line ++ [a, b]

theorem terminate_cons (line : List α) (lines : List (List α)) :
    terminate a b (line :: lines) = line ++ [a, b] ++ terminate a b lines := rfl

theorem terminate_append (lines lines' : List (List α)) :
    terminate a b (lines ++ lines') = terminate a b lines ++ terminate a b lines' :=
  List.flatMap_append

theorem length_le_terminate (lines : List (List α)) : lines.length ≤ (terminate a b lines).length := by
  induction lines with
  | nil => exact Nat.zero_le _
  | cons line lines ih =>
    rw [terminate_cons]
    simp only [List.length_cons, List.length_append]
    omega

variable [DecidableEq α]

omit [DecidableEq α] in
/-- A symbol that the delimiter is not made of joins unbroken texts to an unbroken one. -/
theorem unbroken_around {c : α} (hca : c ≠ a) (hcb : c ≠ b) (s t : List α) :
    Unbroken a b (s ++ c :: t) ↔ Unbroken a b s ∧ Unbroken a b t := by
  unfold Unbroken
  rw [delimiter_infix_around hca hcb, not_or]

/-- A delimiter behind an unbroken front part ends behind it. -/
theorem cutAt_rest_le (hab : a ≠ b) {s t front back : List α} (h : Unbroken a b s)
    (hcut : cutAt a b (s ++ t) = some (front, back)) : back.length ≤ t.length := by
  have hlen := cutAt_length hcut
  rw [List.length_append] at hlen
  obtain ⟨htext, -⟩ := (cutAt_eq_some_iff hab).mp hcut
  by_contra hlong
  have hfront : front ++ [a, b] <+: s := by
    refine List.prefix_of_prefix_length_le ⟨back, htext.symm⟩ (List.prefix_append s t) ?_
    simp only [List.length_append, List.length_cons, List.length_nil]
    omega
  exact h ((List.suffix_append front [a, b]).isInfix.trans hfront.isInfix)

/-- The parts of a text between the delimiters, as long as the bound lasts. -/
def pieces (a b : α) : ℕ → List α → List (List α)
  | 0, s => [s]
  | bound + 1, s =>
    match cutAt a b s with
    | none => [s]
    | some (front, back) => front :: pieces a b bound back

/-- The parts of a text between the delimiters. -/
def splitOn (a b : α) (s : List α) : List (List α) := pieces a b s.length s

theorem pieces_unbroken (hab : a ≠ b) (bound : ℕ) (s : List α) (hbound : s.length ≤ bound) :
    ∀ piece ∈ pieces a b bound s, Unbroken a b piece := by
  induction bound generalizing s with
  | zero =>
    intro piece hpiece
    obtain rfl := List.mem_singleton.mp hpiece
    rw [List.length_eq_zero_iff.mp (Nat.le_zero.mp hbound)]
    exact unbroken_nil
  | succ bound ih =>
    intro piece hpiece
    unfold pieces at hpiece
    cases hcut : cutAt a b s with
    | none =>
      rw [hcut] at hpiece
      obtain rfl := List.mem_singleton.mp hpiece
      exact cutAt_eq_none_iff.mp hcut
    | some cut =>
      obtain ⟨front, back⟩ := cut
      rw [hcut] at hpiece
      have hlen := cutAt_length hcut
      rcases List.mem_cons.mp hpiece with rfl | hrest
      · exact ((cutAt_eq_some_iff hab).mp hcut).2
      · exact ih back (by omega) piece hrest

theorem pieces_terminate (hab : a ≠ b) (lines : List (List α)) (bound : ℕ)
    (hbound : lines.length ≤ bound) (h : ∀ line ∈ lines, Unbroken a b line) :
    pieces a b bound (terminate a b lines) = lines ++ [[]] := by
  induction lines generalizing bound with
  | nil =>
    cases bound with
    | zero => rfl
    | succ bound =>
      have hcut : cutAt a b ([] : List α) = none := cutAt_eq_none_iff.mpr unbroken_nil
      show pieces a b (bound + 1) [] = [[]]
      unfold pieces
      rw [hcut]
  | cons line lines ih =>
    cases bound with
    | zero =>
      simp only [List.length_cons] at hbound
      omega
    | succ bound =>
      have hcut : cutAt a b (terminate a b (line :: lines)) = some (line, terminate a b lines) :=
        (cutAt_eq_some_iff hab).mpr ⟨terminate_cons line lines, h line (List.mem_cons_self ..)⟩
      have hrest := ih bound (by simpa using hbound) fun l hl => h l (List.mem_cons_of_mem _ hl)
      unfold pieces
      rw [hcut]
      show line :: pieces a b bound (terminate a b lines) = line :: lines ++ [[]]
      rw [hrest]
      rfl

/-- The lines before the first empty one and what follows it are those of the text. -/
theorem terminate_blank_inj (hab : a ≠ b) {lines lines' : List (List α)} {s t : List α}
    (h : ∀ line ∈ lines, line ≠ [] ∧ Unbroken a b line)
    (h' : ∀ line ∈ lines', line ≠ [] ∧ Unbroken a b line)
    (heq : terminate a b lines ++ [a, b] ++ s = terminate a b lines' ++ [a, b] ++ t) :
    lines = lines' ∧ s = t := by
  have hfront : ∀ {line : List α} (lines : List (List α)) (s : List α), Unbroken a b line →
      cutAt a b (terminate a b (line :: lines) ++ [a, b] ++ s) =
        some (line, terminate a b lines ++ [a, b] ++ s) := by
    intro line lines s hline
    refine (cutAt_eq_some_iff hab).mpr ⟨?_, hline⟩
    rw [terminate_cons]
    simp only [List.append_assoc]
  have hblank : ∀ s : List α, cutAt a b (terminate a b [] ++ [a, b] ++ s) = some ([], s) :=
    fun s => (cutAt_eq_some_iff hab).mpr ⟨rfl, unbroken_nil⟩
  have hcut := congrArg (cutAt a b) heq
  induction lines generalizing lines' with
  | nil =>
    cases lines' with
    | nil =>
      rw [hblank, hblank] at hcut
      exact ⟨rfl, (Prod.mk.inj (Option.some.inj hcut)).2⟩
    | cons line' lines' =>
      obtain ⟨hne, hline⟩ := h' line' (List.mem_cons_self ..)
      rw [hblank, hfront _ _ hline] at hcut
      exact absurd (Prod.mk.inj (Option.some.inj hcut)).1.symm hne
  | cons line lines ih =>
    obtain ⟨hne, hline⟩ := h line (List.mem_cons_self ..)
    cases lines' with
    | nil =>
      rw [hblank, hfront _ _ hline] at hcut
      exact absurd (Prod.mk.inj (Option.some.inj hcut)).1 hne
    | cons line' lines' =>
      obtain ⟨-, hline'⟩ := h' line' (List.mem_cons_self ..)
      rw [hfront _ _ hline, hfront _ _ hline'] at hcut
      obtain ⟨rfl, hrest⟩ := Prod.mk.inj (Option.some.inj hcut)
      obtain ⟨rfl, rfl⟩ := ih (fun l hl => h l (List.mem_cons_of_mem _ hl))
        (fun l hl => h' l (List.mem_cons_of_mem _ hl)) hrest (congrArg (cutAt a b) hrest)
      exact ⟨rfl, rfl⟩

/-- A text splits into the lines it was made of when none of them contains the delimiter. -/
theorem splitOn_terminate_iff (hab : a ≠ b) (lines : List (List α)) :
    splitOn a b (terminate a b lines) = lines ++ [[]] ↔ ∀ line ∈ lines, Unbroken a b line := by
  constructor
  · intro h line hline
    refine pieces_unbroken hab _ (terminate a b lines) le_rfl line ?_
    show line ∈ splitOn a b (terminate a b lines)
    rw [h]
    exact List.mem_append_left _ hline
  · exact pieces_terminate hab lines _ (length_le_terminate lines)

end Webserveau.DelimitedTexts
