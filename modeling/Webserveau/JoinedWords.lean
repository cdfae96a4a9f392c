import Webserveau.WordReading

/-!
Words that are joined to others.
The next word of a text comes out the same behind a word that is there already, and is then
joined to it. Two slashes alone make a difference: they begin a comment where there is no
word yet, and go on with one where there is.
-/
namespace Webserveau.JoinedWords

open ByteStrings ConfigWords ConfigWords.Reader WordReading

/-- The text has no two slashes on end. -/
def Unslashed (text : Bytes) : Prop := ¬ [47, 47] <:+: text

theorem Unslashed.suffix {text rest : Bytes} (h : Unslashed text) (hrest : rest <:+ text) :
    Unslashed rest := fun hslashes => h (hslashes.trans hrest.isInfix)

/-- A text whose beginning is read away begins with what begins it. -/
theorem Unslashed.of_append {x text rest : Bytes} (h : x ++ rest = 47 :: 47 :: text)
    (hrest : rest <:+ text) : ¬ Unslashed x := by
  obtain ⟨y, rfl⟩ := hrest
  have hx : x = 47 :: 47 :: y := List.append_cancel_right h
  exact fun hplain => hplain ⟨[], y, by rw [hx]; rfl⟩

section Turns

variable {r r' : Reader} {isEscaped isEscaped' : Bool} {dest word word' text rest : Bytes}

theorem quoteFrom_join (dest : Bytes) (h : quoteFrom isEscaped word text = some (word', rest)) :
    quoteFrom isEscaped (dest ++ word) text = some (dest ++ word', rest) := by
  induction text generalizing isEscaped word with
  | nil => cases h
  | cons c text ih =>
    unfold quoteFrom at h ⊢
    split at h
    · rename_i hslash
      rw [if_pos hslash]
      exact ih h
    · rename_i hslash
      rw [if_neg hslash]
      split at h
      · rename_i hquote
        cases h
        rw [if_pos hquote]
      · rename_i hquote
        rw [if_neg hquote, List.append_assoc]
        exact ih h

theorem parseQuote_join (dest : Bytes) (h : r.parseQuote word = .ok (word', r')) :
    r.parseQuote (dest ++ word) = .ok (dest ++ word', r') := by
  unfold parseQuote at h ⊢
  split at h
  · cases h
  · rename_i hgood
    rw [if_neg hgood]
    cases hfrom : quoteFrom false word r.rest with
    | none =>
      rw [hfrom] at h
      cases h
    | some out =>
      rw [hfrom] at h
      cases h
      rw [quoteFrom_join dest hfrom]

/-- A slash in front of text that goes on is looked behind without a trace. -/
theorem turnOn_join {c : UInt8} (dest : Bytes)
    (hturn : turnOn word c ⟨text, false, false⟩ = .next r' isEscaped' word')
    (hplain : word = [] → c = 47 → text.head? ≠ some 47) (hne : r'.rest ≠ []) :
    turnOn (dest ++ word) c ⟨text, false, false⟩ = .next r' isEscaped' (dest ++ word') := by
  have htext : text ≠ [] := by
    rintro rfl
    exact hne (List.suffix_nil.mp (turnOn_leaves (tidy_good []) hturn).suffix)
  obtain ⟨d, text, rfl⟩ := List.exists_cons_of_ne_nil htext
  have hpeek : ∀ w : Bytes, (if c = 47 ∧ w = [] then peek ⟨d :: text, false, false⟩
      else (none, ⟨d :: text, false, false⟩)) =
      (if c = 47 ∧ w = [] then some d else none, ⟨d :: text, false, false⟩) := by
    intro w
    split <;> rfl
  have hcomment : ((if c = 47 ∧ word = [] then some d else none) = some 47 ∨ c = 35) ↔
      c = 35 := by
    apply or_iff_right
    intro hsecond
    split at hsecond
    · rename_i hfirst
      exact hplain hfirst.2 hfirst.1 hsecond
    · cases hsecond
  have hcomment' : ((if c = 47 ∧ dest ++ word = [] then some d else none) = some 47 ∨ c = 35) ↔
      c = 35 := by
    apply or_iff_right
    intro hsecond
    split at hsecond
    · rename_i hfirst
      obtain ⟨-, hword⟩ := List.append_eq_nil_iff.mp hfirst.2
      exact hplain hword hfirst.1 hsecond
    · cases hsecond
  unfold turnOn at hturn ⊢
  by_cases hslash : c = 92
  · rw [if_pos hslash] at hturn ⊢
    cases hturn
    rfl
  · rw [if_neg hslash] at hturn ⊢
    by_cases hquote : c = 34
    · rw [if_pos hquote] at hturn ⊢
      cases hfrom : parseQuote ⟨d :: text, false, false⟩ word with
      | error e =>
        rw [hfrom] at hturn
        cases hturn
      | ok out =>
        obtain ⟨w, r⟩ := out
        rw [hfrom] at hturn
        cases hturn
        rw [parseQuote_join dest hfrom]
    · rw [if_neg hquote] at hturn ⊢
      rw [hpeek] at hturn ⊢
      simp only [hcomment, hcomment'] at hturn ⊢
      by_cases hhash : c = 35
      · rw [if_pos hhash] at hturn ⊢
        cases hturn
        rfl
      · rw [if_neg hhash] at hturn ⊢
        cases hturn
        rw [List.append_assoc]

theorem turn_join (dest : Bytes) (h : Tidy r)
    (hturn : turn r isEscaped word = .next r' isEscaped' word')
    (hplain : isEscaped = false → word = [] → ∀ text, r.rest ≠ 47 :: 47 :: text)
    (hne : r'.rest ≠ []) :
    turn r isEscaped (dest ++ word) = .next r' isEscaped' (dest ++ word') := by
  unfold turn at hturn ⊢
  cases isEscaped with
  | true =>
    cases hturn
    rw [List.append_assoc]
  | false =>
    dsimp only at hturn ⊢
    split at hturn
    · cases hturn
    · rename_i c hpeek
      obtain ⟨rest, rfl⟩ := h.peek_some hpeek
      split at hturn
      · cases hturn
      · rename_i hends
        rw [if_neg hends]
        refine turnOn_join dest hturn ?_ hne
        rintro hword rfl hhead
        obtain ⟨text, rfl⟩ := List.head?_eq_some_iff.mp hhead
        exact hplain rfl hword text rfl

theorem turn_word_join (dest : Bytes) {ret : UInt8} (h : Tidy r)
    (hturn : turn r isEscaped word = .word ret word' r') :
    turn r isEscaped (dest ++ word) = .word ret (dest ++ word') r' := by
  obtain ⟨-, rfl, rfl, -⟩ := turn_word h hturn
  unfold turn at hturn ⊢
  dsimp only at hturn ⊢
  split at hturn
  · cases hturn
    rfl
  · rename_i c hpeek
    split at hturn
    · rename_i hends
      cases hturn
      rw [if_pos hends]
    · exact absurd hturn turnOn_ne_word

end Turns

section Words

variable {r r' : Reader} {isEscaped : Bool} {dest word word' : Bytes} {ret : UInt8}

/-- Two slashes that begin a comment are read away with it. -/
theorem turn_slashes {text : Bytes} {isEscaped' : Bool}
    (hturn : turn ⟨47 :: 47 :: text, false, false⟩ false [] = .next r' isEscaped' word') :
    r'.rest <:+ text := by
  have hcomment : skipComment ⟨47 :: text, false, false⟩ =
      (commentRest text).elim ⟨[], true, true⟩ fun rest => ⟨rest, false, false⟩ :=
    skipComment_cons (by decide) text
  have hnext : Turned.next (skipComment ⟨47 :: text, false, false⟩).skipSpace false [] =
      .next r' isEscaped' word' := hturn
  cases hnext
  cases hrest : commentRest text with
  | none =>
    rw [hcomment, hrest]
    exact List.nil_suffix
  | some rest =>
    rw [hcomment, hrest]
    exact (skipSpace_leaves (tidy_good rest)).suffix.trans (commentRest_suffix hrest)

/-- A loop that stops inside its text joins what it reads to any word. -/
theorem readLoop_join (dest : Bytes) (h : Tidy r)
    (hread : readLoop r isEscaped word = .ok (ret, word', r')) {x : Bytes}
    (hx : r.rest = x ++ r'.rest) (hplain : Unslashed x) (hne : r'.rest ≠ []) :
    readLoop r isEscaped (dest ++ word) = .ok (ret, dest ++ word', r') := by
  refine readLoop_induction (P := fun r isEscaped word =>
    readLoop r isEscaped word = .ok (ret, word', r') → ∀ x, r.rest = x ++ r'.rest → Unslashed x →
      readLoop r isEscaped (dest ++ word) = .ok (ret, dest ++ word', r'))
    ?_ h isEscaped word hread x hx hplain
  intro r isEscaped word htidy ih hread x hx hplain
  rw [readLoop_eq htidy] at hread ⊢
  cases hturn : turn r isEscaped word with
  | word ret₁ word₁ r₁ =>
    rw [hturn] at hread
    cases hread
    rw [turn_word_join dest htidy hturn]
  | failed e =>
    rw [hturn] at hread
    cases hread
  | next r₁ isEscaped₁ word₁ =>
    rw [hturn] at hread
    dsimp only at hread
    have hleaves := (turn_next htidy hturn).1
    have hsuffix := (readLoop_leaves hleaves.tidy hread).1.suffix
    have hleft : r₁.rest ≠ [] := by
      intro hnil
      rw [hnil] at hsuffix
      exact hne (List.suffix_nil.mp hsuffix)
    obtain ⟨y, hy⟩ := hsuffix
    obtain ⟨z, hz⟩ := hleaves.suffix
    have hxy : x = z ++ y := by
      apply @List.append_cancel_right _ _ r'.rest
      rw [← hx, ← hz, ← hy, List.append_assoc]
    rw [turn_join dest htidy hturn _ hleft]
    · exact ih _ _ _ hturn hread y hy.symm (hplain.suffix ⟨z, hxy.symm⟩)
    · rintro rfl rfl text htext
      obtain ⟨rest, rfl⟩ | ⟨fail, rfl⟩ := htidy.cases
      · change rest = 47 :: 47 :: text at htext
        subst htext
        have hrest : r'.rest <:+ text := List.IsSuffix.trans ⟨y, hy⟩ (turn_slashes hturn)
        exact Unslashed.of_append hx.symm hrest hplain
      · cases htext

/-- A word that is given has a character. -/
theorem getNextWord_ne_nil (h : Tidy r) {dest : Bytes}
    (hread : r.getNextWord dest = .ok (0, word, r')) : word ≠ [] := by
  rw [getNextWord_eq h] at hread
  cases hloop : readLoop r.skipSpace false dest with
  | error e =>
    rw [hloop] at hread
    cases hread
  | ok out =>
    obtain ⟨next, w, r₁⟩ := out
    have hends : endsWord next = true := (readLoop_leaves (skipSpace_leaves h).tidy hloop).2
    rw [hloop] at hread
    rintro rfl
    simp only [Except.ok.injEq, Prod.mk.injEq] at hread
    obtain ⟨hret, rfl, -⟩ := hread
    rw [if_neg (not_not.mpr rfl)] at hret
    subst hret
    revert hends
    decide

/-- Behind a word that is there, the next one is joined to it, and there is a word always. -/
theorem getNextWord_join (h : Tidy r) (hread : r.getNextWord [] = .ok (ret, word, r')) {x : Bytes}
    (hx : r.rest = x ++ r'.rest) (hplain : Unslashed x) (hne : r'.rest ≠ []) (hdest : dest ≠ []) :
    r.getNextWord dest = .ok (0, dest ++ word, r') := by
  have hskip := skipSpace_leaves h
  rw [getNextWord_eq h] at hread ⊢
  cases hloop : readLoop r.skipSpace false [] with
  | error e =>
    rw [hloop] at hread
    cases hread
  | ok out =>
    obtain ⟨next, w, r₁⟩ := out
    rw [hloop] at hread
    cases hread
    obtain ⟨y, hy⟩ := (readLoop_leaves hskip.tidy hloop).1.suffix
    obtain ⟨z, hz⟩ := hskip.suffix
    have hxy : x = z ++ y := by
      apply @List.append_cancel_right _ _ r'.rest
      rw [← hx, ← hz, ← hy, List.append_assoc]
    have hjoined := readLoop_join dest hskip.tidy hloop hy.symm (hplain.suffix ⟨z, hxy.symm⟩) hne
    rw [List.append_nil] at hjoined
    rw [hjoined]
    have hword : dest ++ word ≠ [] := by simp [hdest]
    dsimp only
    rw [if_pos hword]

end Words

end Webserveau.JoinedWords
