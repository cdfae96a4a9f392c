import Webserveau.ConfigWords

/-!
Words as parts of a text.
What a reader leaves unread is always an end of what it had. A word that stops inside a
text is the same whatever follows the text, and so is whether a semicolon comes next.
-/
namespace Webserveau.WordReading

open ByteStrings ConfigWords ConfigWords.Reader

/-- The flags of a reader are only set at the end of its text. -/
structure Tidy (r : Reader) : Prop where
  eof : r.eof = true → r.rest = []
  fail : r.fail = true → r.eof = true

theorem tidy_good (text : Bytes) : Tidy ⟨text, false, false⟩ := ⟨nofun, nofun⟩

theorem tidy_end (fail : Bool) : Tidy ⟨[], true, fail⟩ := ⟨fun _ => rfl, fun _ => rfl⟩

theorem Tidy.cases {r : Reader} (h : Tidy r) :
    (∃ rest, r = ⟨rest, false, false⟩) ∨ ∃ fail, r = ⟨[], true, fail⟩ := by
  obtain ⟨rest, eof, fail⟩ := r
  cases eof with
  | false =>
    cases fail with
    | false => exact Or.inl ⟨rest, rfl⟩
    | true => exact absurd (h.fail rfl) Bool.false_ne_true
  | true =>
    have hrest : rest = [] := h.eof rfl
    exact Or.inr ⟨fail, by rw [hrest]⟩

/-- What is left of a reader. -/
structure Leaves (r r' : Reader) : Prop where
  tidy : Tidy r'
  suffix : r'.rest <:+ r.rest

namespace Leaves

variable {r r' r'' : Reader}

theorem refl (h : Tidy r) : Leaves r r := ⟨h, List.suffix_refl _⟩

theorem trans (h : Leaves r r') (h' : Leaves r' r'') : Leaves r r'' :=
  ⟨h'.tidy, h'.suffix.trans h.suffix⟩

theorem to_end (r : Reader) (fail : Bool) : Leaves r ⟨[], true, fail⟩ :=
  ⟨tidy_end fail, List.nil_suffix⟩

theorem to_rest {rest : Bytes} (h : rest <:+ r.rest) : Leaves r ⟨rest, false, false⟩ :=
  ⟨tidy_good rest, h⟩

end Leaves

section Steps

variable {r : Reader}

theorem skipSpace_good (text : Bytes) :
    skipSpace ⟨text, false, false⟩ =
      ⟨text.dropWhile isspace, text.dropWhile isspace = [], false⟩ := by
  unfold skipSpace
  dsimp only
  cases text.dropWhile isspace <;> rfl

theorem peek_leaves (h : Tidy r) : Leaves r r.peek.2 := by
  rcases h.cases with ⟨rest, rfl⟩ | ⟨fail, rfl⟩
  · cases rest with
    | nil => exact Leaves.to_end _ false
    | cons c rest => exact Leaves.refl (tidy_good _)
  · exact Leaves.to_end _ true

theorem get_leaves (h : Tidy r) : Leaves r (Reader.get r).2 := by
  rcases h.cases with ⟨rest, rfl⟩ | ⟨fail, rfl⟩
  · cases rest with
    | nil => exact Leaves.to_end _ true
    | cons c rest => exact Leaves.to_rest (List.suffix_cons c rest)
  · exact Leaves.to_end _ true

theorem skipSpace_leaves (h : Tidy r) : Leaves r r.skipSpace := by
  rcases h.cases with ⟨rest, rfl⟩ | ⟨fail, rfl⟩
  · rw [skipSpace_good]
    cases hrest : rest.dropWhile isspace with
    | nil => exact Leaves.to_end _ false
    | cons c rest' => exact Leaves.to_rest (hrest ▸ List.dropWhile_suffix isspace)
  · exact Leaves.to_end _ true

theorem commentRest_suffix {text rest : Bytes} (h : commentRest text = some rest) :
    rest <:+ text := by
  induction text with
  | nil => cases h
  | cons c text ih =>
    unfold commentRest at h
    split at h
    · cases h
      exact List.suffix_cons c rest
    · exact (ih h).trans (List.suffix_cons c text)

theorem skipComment_leaves (h : Tidy r) : Leaves r r.skipComment := by
  rcases h.cases with ⟨rest, rfl⟩ | ⟨fail, rfl⟩
  · cases rest with
    | nil => exact Leaves.to_end _ false
    | cons c rest =>
      show Leaves _ (if c = EOF then _ else _)
      split
      · exact Leaves.refl (tidy_good _)
      · dsimp only
        split
        · exact Leaves.to_end _ true
        · rename_i rest' hrest
          exact Leaves.to_rest (commentRest_suffix hrest)
  · exact Leaves.to_end _ true

theorem quoteFrom_suffix {isEscaped : Bool} {dest dest' text rest : Bytes}
    (h : quoteFrom isEscaped dest text = some (dest', rest)) : rest <:+ text := by
  induction text generalizing isEscaped dest with
  | nil => cases h
  | cons c text ih =>
    unfold quoteFrom at h
    split at h
    · exact (ih h).trans (List.suffix_cons c text)
    · split at h
      · cases h
        exact List.suffix_cons c rest
      · exact (ih h).trans (List.suffix_cons c text)

theorem parseQuote_leaves {dest dest' : Bytes} {r' : Reader} (h : Tidy r)
    (hquote : r.parseQuote dest = .ok (dest', r')) : Leaves r r' := by
  rcases h.cases with ⟨rest, rfl⟩ | ⟨fail, rfl⟩
  · unfold parseQuote at hquote
    rw [if_neg (show ¬ good ⟨rest, false, false⟩ = false from nofun)] at hquote
    split at hquote
    · cases hquote
    · rename_i word rest' hfrom
      cases hquote
      exact Leaves.to_rest (quoteFrom_suffix hfrom)
  · cases hquote

theorem checkSemiColon_leaves (h : Tidy r) : Leaves r r.checkSemiColon.2 := by
  have hpeek := (skipSpace_leaves h).trans (peek_leaves (skipSpace_leaves h).tidy)
  unfold Reader.checkSemiColon
  dsimp only
  split
  · exact hpeek.trans (get_leaves hpeek.tidy)
  · exact hpeek

end Steps

/-- What one turn of the loop of `getNextWord` comes to. -/
inductive Turned
  | word (ret : UInt8) (word : Bytes) (r : Reader)
  | failed (e : ConfigException)
  | next (r : Reader) (isEscaped : Bool) (word : Bytes)

/-- The turn behind the character that was read. -/
def turnOn (word : Bytes) (cur : UInt8) (r : Reader) : Turned :=
  if cur = 92 then .next r true word
  else if cur = 34 then
    match r.parseQuote word with
    | .error e => .failed e
    | .ok (word, r) => .next r false word
  else
    let (second, r) := if cur = 47 ∧ word = [] then r.peek else (none, r)
    if second = some 47 ∨ cur = 35 then .next r.skipComment.skipSpace false word
    else .next r false (word ++ [cur])

def turn (r : Reader) (isEscaped : Bool) (word : Bytes) : Turned :=
  match isEscaped with
  | true => .next (Reader.get r.peek.2).2 false (word ++ [toChar (Reader.get r.peek.2).1])
  | false =>
    match r.peek.1 with
    | none => .word EOF word r.peek.2
    | some c =>
      if endsWord c then .word c word r.peek.2
      else turnOn word c (Reader.get r.peek.2).2

section Turns

variable {r r' : Reader} {isEscaped isEscaped' : Bool} {word word' : Bytes}

theorem get_peek {c : UInt8} (h : r.peek.1 = some c) : (Reader.get r.peek.2).1 = some c := by
  unfold peek at h ⊢
  split at h
  · rename_i hgood
    simp only [hgood, if_true]
    split at h
    · cases h
    · rename_i d rest hrest
      cases h
      unfold Reader.get
      simp only [hgood, if_true, hrest]
  · cases h

theorem wordLoop_succ (fuel : ℕ) (r : Reader) (isEscaped : Bool) (word : Bytes) :
    wordLoop (fuel + 1) r isEscaped word =
      match turn r isEscaped word with
      | .word ret word r => .ok (ret, word, r)
      | .failed e => .error e
      | .next r isEscaped word => wordLoop fuel r isEscaped word := by
  rw [wordLoop]
  unfold turn
  cases isEscaped with
  | true => simp
  | false =>
    cases hpeek : r.peek.1 with
    | none =>
      have hends : endsWord (toChar none) = true := by decide
      simp [hends, hpeek]
      rfl
    | some c =>
      have hget := get_peek hpeek
      by_cases hends : endsWord c = true
      · simp [toChar, hpeek, hends]
      · simp only [toChar, hpeek, hends, hget, turnOn, Option.getD_some, Option.some.injEq]
        by_cases hslash : c = 92
        · simp [hslash]
        · by_cases hquote : c = 34
          · simp only [hquote, if_true, if_false, and_false, Bool.false_eq_true]
            cases (Reader.get r.peek.2).2.parseQuote word <;> rfl
          · simp only [hslash, hquote, if_false, and_false, Bool.false_eq_true]
            generalize (if c = 47 ∧ word = [] then (Reader.get r.peek.2).2.peek
              else (none, (Reader.get r.peek.2).2)) = second
            by_cases hcomment : second.1 = some 47 ∨ c = 35
            · rw [if_pos hcomment, if_pos hcomment]
            · rw [if_neg hcomment, if_neg hcomment]

theorem turnOn_leaves {c : UInt8} (h : Tidy r)
    (hturn : turnOn word c r = .next r' isEscaped' word') : Leaves r r' := by
  unfold turnOn at hturn
  split at hturn
  · cases hturn
    exact Leaves.refl h
  · split at hturn
    · split at hturn
      · cases hturn
      · rename_i hquote
        cases hturn
        exact parseQuote_leaves h hquote
    · have hsecond : Leaves r (if c = 47 ∧ word = [] then r.peek else (none, r)).2 := by
        split
        · exact peek_leaves h
        · exact Leaves.refl h
      generalize (if c = 47 ∧ word = [] then r.peek else (none, r)) = pair at hturn hsecond
      obtain ⟨second, r₁⟩ := pair
      dsimp only at hturn hsecond
      split at hturn
      · cases hturn
        have hskip := hsecond.trans (skipComment_leaves hsecond.tidy)
        exact hskip.trans (skipSpace_leaves hskip.tidy)
      · cases hturn
        exact hsecond

theorem turnOn_ne_word {c ret : UInt8} : turnOn word c r ≠ .word ret word' r' := by
  intro h
  unfold turnOn at h
  grind

/-- A word goes on only at a character of the text. -/
theorem Tidy.peek_some {c : UInt8} (h : Tidy r) (hpeek : r.peek.1 = some c) :
    ∃ rest, r = ⟨c :: rest, false, false⟩ := by
  rcases h.cases with ⟨rest, rfl⟩ | ⟨fail, rfl⟩
  · cases rest with
    | nil => cases hpeek
    | cons d rest =>
      cases hpeek
      exact ⟨rest, rfl⟩
  · cases hpeek

/-- How much is left to be done. -/
def left (r : Reader) (isEscaped : Bool) : ℕ :=
  if r.good = false ∧ isEscaped = false then 0 else r.rest.length + 1

theorem left_le (r : Reader) (isEscaped : Bool) : left r isEscaped ≤ r.rest.length + 1 := by
  unfold left
  split <;> omega

/-- A character that is escaped is taken, or the end is met. -/
theorem left_escaped (h : Tidy r) : left (Reader.get r.peek.2).2 false < left r true := by
  have hwhole : left r true = r.rest.length + 1 := if_neg fun h => Bool.noConfusion h.2
  rw [hwhole]
  rcases h.cases with ⟨rest, rfl⟩ | ⟨fail, rfl⟩
  · cases rest with
    | nil => exact Nat.zero_lt_succ _
    | cons c rest => exact Nat.lt_succ_self _
  · exact Nat.zero_lt_succ _

theorem turn_next (h : Tidy r) (hturn : turn r isEscaped word = .next r' isEscaped' word') :
    Leaves r r' ∧ left r' isEscaped' < left r isEscaped := by
  unfold turn at hturn
  cases isEscaped with
  | true =>
    cases hturn
    exact ⟨(peek_leaves h).trans (get_leaves (peek_leaves h).tidy), left_escaped h⟩
  | false =>
    dsimp only at hturn
    split at hturn
    · cases hturn
    · rename_i c hpeek
      obtain ⟨rest, rfl⟩ := h.peek_some hpeek
      split at hturn
      · cases hturn
      · have hleaves : Leaves ⟨rest, false, false⟩ r' := turnOn_leaves (tidy_good rest) hturn
        have hcons : Leaves ⟨c :: rest, false, false⟩ ⟨rest, false, false⟩ :=
          Leaves.to_rest (List.suffix_cons c rest)
        refine ⟨hcons.trans hleaves, ?_⟩
        have hwhole : left ⟨c :: rest, false, false⟩ false = rest.length + 2 := rfl
        have hle : r'.rest.length ≤ rest.length := hleaves.suffix.length_le
        have hleft := left_le r' isEscaped'
        omega

theorem turn_word {ret : UInt8} (h : Tidy r)
    (hturn : turn r isEscaped word = .word ret word' r') :
    Leaves r r' ∧ isEscaped = false ∧ word' = word ∧ endsWord ret = true := by
  unfold turn at hturn
  cases isEscaped with
  | true => cases hturn
  | false =>
    dsimp only at hturn
    split at hturn
    · cases hturn
      exact ⟨peek_leaves h, rfl, rfl, by decide⟩
    · split at hturn
      · rename_i hends
        cases hturn
        exact ⟨peek_leaves h, rfl, rfl, hends⟩
      · exact absurd hturn turnOn_ne_word

/-- The loop with as many turns as it needs. -/
def readLoop (r : Reader) (isEscaped : Bool) (word : Bytes) :
    Except ConfigException (UInt8 × Bytes × Reader) :=
  wordLoop (left r isEscaped + 1) r isEscaped word

/-- More turns than are needed change nothing. -/
theorem wordLoop_eq_readLoop (fuel : ℕ) (h : Tidy r) (hfuel : left r isEscaped < fuel) :
    wordLoop fuel r isEscaped word = readLoop r isEscaped word := by
  have hmore : ∀ n m, ∀ r isEscaped word, Tidy r → left r isEscaped < n → left r isEscaped < m →
      wordLoop n r isEscaped word = wordLoop m r isEscaped word := by
    intro n
    induction n with
    | zero =>
      intro m r isEscaped word _ hn
      omega
    | succ n ih =>
      intro m r isEscaped word htidy hn hm
      obtain ⟨m, rfl⟩ : ∃ k, m = k + 1 := ⟨m - 1, by omega⟩
      rw [wordLoop_succ, wordLoop_succ]
      cases hturn : turn r isEscaped word with
      | word ret word r => rfl
      | failed e => rfl
      | next r' isEscaped' word' =>
        obtain ⟨hleaves, hless⟩ := turn_next htidy hturn
        exact ih m r' isEscaped' word' hleaves.tidy (by omega) (by omega)
  exact hmore _ _ r isEscaped word h hfuel (Nat.lt_succ_self _)

theorem readLoop_eq (h : Tidy r) (isEscaped : Bool) (word : Bytes) :
    readLoop r isEscaped word =
      match turn r isEscaped word with
      | .word ret word r => .ok (ret, word, r)
      | .failed e => .error e
      | .next r isEscaped word => readLoop r isEscaped word := by
  rw [readLoop, wordLoop_succ]
  cases hturn : turn r isEscaped word with
  | word ret word r => rfl
  | failed e => rfl
  | next r' isEscaped' word' =>
    obtain ⟨hleaves, hless⟩ := turn_next h hturn
    exact wordLoop_eq_readLoop _ hleaves.tidy hless

/-- What holds of a loop when it holds behind its first turn holds of every loop. -/
theorem readLoop_induction {P : Reader → Bool → Bytes → Prop}
    (hstep : ∀ r isEscaped word, Tidy r →
      (∀ r' isEscaped' word', turn r isEscaped word = .next r' isEscaped' word' →
        P r' isEscaped' word') → P r isEscaped word)
    (h : Tidy r) (isEscaped : Bool) (word : Bytes) : P r isEscaped word := by
  have hall : ∀ n, ∀ r isEscaped word, Tidy r → left r isEscaped ≤ n → P r isEscaped word := by
    intro n
    induction n with
    | zero =>
      intro r isEscaped word htidy hn
      refine hstep r isEscaped word htidy ?_
      intro r' isEscaped' word' hturn
      have hless := (turn_next htidy hturn).2
      omega
    | succ n ih =>
      intro r isEscaped word htidy hn
      refine hstep r isEscaped word htidy ?_
      intro r' isEscaped' word' hturn
      obtain ⟨hleaves, hless⟩ := turn_next htidy hturn
      exact ih r' isEscaped' word' hleaves.tidy (by omega)
  exact hall _ r isEscaped word h le_rfl

theorem readLoop_leaves (h : Tidy r) {ret : UInt8}
    (hread : readLoop r isEscaped word = .ok (ret, word', r')) :
    Leaves r r' ∧ endsWord ret = true := by
  revert hread
  refine readLoop_induction (P := fun r isEscaped word =>
    readLoop r isEscaped word = .ok (ret, word', r') → Leaves r r' ∧ endsWord ret = true)
    ?_ h isEscaped word
  intro r isEscaped word htidy ih hread
  rw [readLoop_eq htidy] at hread
  cases hturn : turn r isEscaped word with
  | word ret' word₁ r₁ =>
    rw [hturn] at hread
    cases hread
    obtain ⟨hleaves, -, -, hends⟩ := turn_word htidy hturn
    exact ⟨hleaves, hends⟩
  | failed e =>
    rw [hturn] at hread
    cases hread
  | next r₁ isEscaped₁ word₁ =>
    rw [hturn] at hread
    obtain ⟨hleaves, hends⟩ := ih _ _ _ hturn hread
    exact ⟨(turn_next htidy hturn).1.trans hleaves, hends⟩

theorem turn_shorter (h : Tidy r) (hturn : turn r false word = .next r' isEscaped' word') :
    r'.rest.length < r.rest.length := by
  unfold turn at hturn
  dsimp only at hturn
  split at hturn
  · cases hturn
  · rename_i c hpeek
    obtain ⟨rest, rfl⟩ := h.peek_some hpeek
    split at hturn
    · cases hturn
    · have hleaves : Leaves ⟨rest, false, false⟩ r' := turnOn_leaves (tidy_good rest) hturn
      exact Nat.lt_succ_of_le hleaves.suffix.length_le

/-- A loop that adds to a word takes a character. -/
theorem readLoop_shorter (h : Tidy r) {ret : UInt8}
    (hread : readLoop r false word = .ok (ret, word', r')) (hne : word' ≠ word) :
    r'.rest.length < r.rest.length := by
  rw [readLoop_eq h] at hread
  cases hturn : turn r false word with
  | word ret' word₁ r₁ =>
    rw [hturn] at hread
    cases hread
    exact absurd (turn_word h hturn).2.2.1 hne
  | failed e =>
    rw [hturn] at hread
    cases hread
  | next r₁ isEscaped₁ word₁ =>
    rw [hturn] at hread
    have hleaves := (readLoop_leaves (turn_next h hturn).1.tidy hread).1
    exact lt_of_le_of_lt hleaves.suffix.length_le (turn_shorter h hturn)

/-- `getNextWord` with the fuel-free loop. -/
theorem getNextWord_eq (h : Tidy r) (dest : Bytes) :
    r.getNextWord dest =
      match readLoop r.skipSpace false dest with
      | .error e => .error e
      | .ok (next, word, r') => .ok (if word ≠ [] then 0 else next, word, r') := by
  have hfuel := @wordLoop_eq_readLoop r.skipSpace false dest
    (r.skipSpace.rest.length + 2) (skipSpace_leaves h).tidy
    (Nat.lt_succ_of_le (left_le r.skipSpace false))
  unfold getNextWord
  dsimp only
  rw [hfuel]
  cases readLoop r.skipSpace false dest <;> rfl

theorem getNextWord_leaves (h : Tidy r) {ret : UInt8} {dest : Bytes}
    (hread : r.getNextWord dest = .ok (ret, word', r')) :
    Leaves r r' ∧ (dest = [] → ret = 0 → r'.rest.length < r.rest.length) := by
  rw [getNextWord_eq h] at hread
  have hskip := skipSpace_leaves h
  split at hread
  · cases hread
  · rename_i next word r₁ hloop
    cases hread
    obtain ⟨hleaves, hends⟩ := readLoop_leaves hskip.tidy hloop
    refine ⟨hskip.trans hleaves, ?_⟩
    intro hdest hret
    have hne : word' ≠ dest := by
      intro heq
      rw [if_neg (by rw [heq]; exact not_not_intro hdest)] at hret
      rw [hret] at hends
      cases hends
    exact lt_of_lt_of_le (readLoop_shorter hskip.tidy hloop hne) hskip.suffix.length_le

end Turns

section Extension

variable {r' : Reader} {isEscaped isEscaped' : Bool} {word word' x : Bytes}

theorem Tidy.good_of_ne (h : Tidy r') (hne : r'.rest ≠ []) :
    r' = ⟨r'.rest, false, false⟩ := by
  rcases h.cases with ⟨rest, rfl⟩ | ⟨fail, rfl⟩
  · rfl
  · exact absurd rfl hne

theorem skipComment_cons {d : UInt8} (hd : d ≠ EOF) (text : Bytes) :
    skipComment ⟨d :: text, false, false⟩ =
      (commentRest (d :: text)).elim ⟨[], true, true⟩ fun rest => ⟨rest, false, false⟩ := by
  unfold skipComment
  show (if d = EOF then _ else _) = _
  rw [if_neg hd]
  cases commentRest (d :: text) <;> rfl

end Extension

section Blanks

variable {dest x c post : Bytes}

theorem dropWhile_spaces (hx : ∀ c ∈ x, isspace c = true) (z : Bytes) :
    (x ++ z).dropWhile isspace = z.dropWhile isspace := by
  rw [List.dropWhile_append, if_pos]
  rw [List.isEmpty_iff, List.dropWhile_eq_nil_iff]
  exact hx

theorem skipSpace_spaces (hx : ∀ c ∈ x, isspace c = true) (z : Bytes) :
    Reader.skipSpace ⟨x ++ z, false, false⟩ = Reader.skipSpace ⟨z, false, false⟩ := by
  rw [skipSpace_good, skipSpace_good, dropWhile_spaces hx]

theorem getNextWord_spaces (hx : ∀ c ∈ x, isspace c = true) (z dest : Bytes) :
    getNextWord ⟨x ++ z, false, false⟩ dest = getNextWord ⟨z, false, false⟩ dest := by
  rw [getNextWord_eq (tidy_good _), skipSpace_spaces hx, getNextWord_eq (tidy_good z)]

end Blanks

section Spellings

/-- A quotation without its opening quotation mark: its text and how it is written. -/
inductive Quotes : Bytes → Bytes → Prop
  | done : Quotes [] [34]
  | plain {c : UInt8} {text spelling : Bytes} : c ≠ 92 → c ≠ 34 → Quotes text spelling →
      Quotes (c :: text) (c :: spelling)
  | escaped {c : UInt8} {text spelling : Bytes} : Quotes text spelling →
      Quotes (c :: text) (92 :: c :: spelling)

/-- How the rest of a word may be written: characters, escaped characters and quotations.
Two slashes do not start a word. -/
inductive Spells : Bytes → Bytes → Bytes → Prop
  | done {word : Bytes} : Spells word [] word
  | plain {c : UInt8} {word word' spelling : Bytes} : endsWord c = false → c ≠ 92 → c ≠ 34 →
      c ≠ 35 → (c = 47 → word = [] → spelling.head? ≠ some 47) →
      Spells (word ++ [c]) spelling word' → Spells word (c :: spelling) word'
  | escaped {c : UInt8} {word word' spelling : Bytes} : Spells (word ++ [c]) spelling word' →
      Spells word (92 :: c :: spelling) word'
  | quoted {word word' text quotation spelling : Bytes} : Quotes text quotation →
      Spells (word ++ text) spelling word' → Spells word (34 :: (quotation ++ spelling)) word'

/-- A word without special characters is spelled as it is. -/
theorem Spells.plainly {text : Bytes} (h : ∀ c ∈ text, endsWord c = false ∧ c ≠ 92 ∧ c ≠ 34 ∧
    c ≠ 35 ∧ c ≠ 47) (word : Bytes) : Spells word text (word ++ text) := by
  induction text generalizing word with
  | nil =>
    rw [List.append_nil]
    exact .done
  | cons c text ih =>
    obtain ⟨hends, hslash, hquote, hhash, hstart⟩ := h c (List.mem_cons_self ..)
    have hrest := ih (fun d hd => h d (List.mem_cons_of_mem _ hd)) (word ++ [c])
    rw [List.append_assoc, List.singleton_append] at hrest
    exact .plain hends hslash hquote hhash (fun hc => absurd hc hstart) hrest

theorem quoteFrom_quotes {text spelling : Bytes} (h : Quotes text spelling) (dest z : Bytes) :
    quoteFrom false dest (spelling ++ z) = some (dest ++ text, z) := by
  induction h generalizing dest with
  | done => simp [quoteFrom]
  | plain hslash hquote _ ih =>
    rw [List.cons_append, quoteFrom, if_neg (fun h => hslash h.1), if_neg (fun h => hquote h.1), ih,
      List.append_assoc, List.singleton_append]
  | escaped _ ih =>
    rw [List.cons_append, List.cons_append, quoteFrom, if_pos ⟨rfl, rfl⟩, quoteFrom,
      if_neg (fun h => Bool.noConfusion h.2), if_neg (fun h => Bool.noConfusion h.2), ih,
      List.append_assoc, List.singleton_append]

theorem readLoop_plain {c e : UInt8} {word t : Bytes} (hends : endsWord c = false)
    (hslash : c ≠ 92) (hquote : c ≠ 34) (hhash : c ≠ 35) (hstart : c = 47 → word = [] → e ≠ 47) :
    readLoop ⟨c :: e :: t, false, false⟩ false word =
      readLoop ⟨e :: t, false, false⟩ false (word ++ [c]) := by
  have hpair : (if c = 47 ∧ word = [] then peek ⟨e :: t, false, false⟩
      else (none, ⟨e :: t, false, false⟩)) =
      (if c = 47 ∧ word = [] then some e else none, ⟨e :: t, false, false⟩) := by
    split <;> rfl
  have hsecond : ¬ ((if c = 47 ∧ word = [] then some e else none) = some 47 ∨ c = 35) := by
    rintro (h | h)
    · split at h
      · rename_i hc
        exact hstart hc.1 hc.2 (Option.some.inj h)
      · cases h
    · exact hhash h
  have hturn : turn ⟨c :: e :: t, false, false⟩ false word =
      .next ⟨e :: t, false, false⟩ false (word ++ [c]) := by
    show (if endsWord c then _ else turnOn word c ⟨e :: t, false, false⟩) = _
    rw [hends, if_neg Bool.false_ne_true]
    unfold turnOn
    rw [if_neg hslash, if_neg hquote, hpair]
    exact if_neg hsecond
  rw [readLoop_eq (tidy_good _), hturn]

theorem readLoop_escaped (c : UInt8) (word t : Bytes) :
    readLoop ⟨92 :: c :: t, false, false⟩ false word =
      readLoop ⟨t, false, false⟩ false (word ++ [c]) := by
  have hslash : turn ⟨92 :: c :: t, false, false⟩ false word =
      .next ⟨c :: t, false, false⟩ true word := rfl
  have htaken : turn ⟨c :: t, false, false⟩ true word =
      .next ⟨t, false, false⟩ false (word ++ [c]) := rfl
  rw [readLoop_eq (tidy_good _), hslash]
  dsimp only
  rw [readLoop_eq (tidy_good _), htaken]

theorem readLoop_quoted {text quotation : Bytes} (h : Quotes text quotation) (word t : Bytes) :
    readLoop ⟨34 :: (quotation ++ t), false, false⟩ false word =
      readLoop ⟨t, false, false⟩ false (word ++ text) := by
  have hturn : turn ⟨34 :: (quotation ++ t), false, false⟩ false word =
      match parseQuote ⟨quotation ++ t, false, false⟩ word with
      | .error e => .failed e
      | .ok (word, r) => .next r false word := rfl
  have hquote : parseQuote ⟨quotation ++ t, false, false⟩ word =
      .ok (word ++ text, ⟨t, false, false⟩) := by
    unfold parseQuote
    rw [quoteFrom_quotes h]
    rfl
  rw [readLoop_eq (tidy_good _), hturn, hquote]

/-- A word is read as it is spelled, up to a character that ends it. -/
theorem readLoop_spells {word word' spelling : Bytes} (h : Spells word spelling word')
    {d : UInt8} (hd : endsWord d = true) (z : Bytes) :
    readLoop ⟨spelling ++ d :: z, false, false⟩ false word =
      .ok (d, word', ⟨d :: z, false, false⟩) := by
  induction h with
  | @done word =>
    have hturn : turn ⟨d :: z, false, false⟩ false word = .word d word ⟨d :: z, false, false⟩ :=
      if_pos hd
    rw [readLoop_eq (tidy_good _), List.nil_append, hturn]
  | @plain c word word' spelling hends hslash hquote hhash hstart _ ih =>
    rw [List.cons_append]
    cases spelling with
    | nil =>
      rw [List.nil_append, readLoop_plain hends hslash hquote hhash ?_]
      · exact ih
      · rintro - - rfl
        cases hd
    | cons e t =>
      rw [List.cons_append, readLoop_plain hends hslash hquote hhash ?_]
      · exact ih
      · rintro hc hword rfl
        exact hstart hc hword rfl
  | @escaped c word word' spelling _ ih =>
    rw [List.cons_append, List.cons_append, readLoop_escaped]
    exact ih
  | @quoted word word' text quotation spelling hquotes _ ih =>
    rw [List.cons_append, List.append_assoc, readLoop_quoted hquotes]
    exact ih

theorem isspace_of_not_endsWord {c : UInt8} (h : endsWord c = false) : isspace c = false := by
  unfold endsWord at h
  simp only [Bool.or_eq_false_iff] at h
  exact h.1.1.1.1

theorem Spells.skipSpace {word word' spelling : Bytes} (h : Spells word spelling word')
    (hne : word' ≠ word) (z : Bytes) :
    Reader.skipSpace ⟨spelling ++ z, false, false⟩ = ⟨spelling ++ z, false, false⟩ := by
  have hcons : ∀ (c : UInt8) (t : Bytes), isspace c = false →
      Reader.skipSpace ⟨c :: t, false, false⟩ = ⟨c :: t, false, false⟩ := by
    intro c t hc
    rw [skipSpace_good, List.dropWhile_cons_of_neg (by rw [hc]; exact Bool.false_ne_true)]
    rfl
  cases h with
  | done => exact absurd rfl hne
  | plain hends => exact hcons _ _ (isspace_of_not_endsWord hends)
  | escaped => exact hcons _ _ (by decide)
  | quoted => exact hcons _ _ (by decide)

theorem getNextWord_spells {word spelling x : Bytes} (h : Spells [] spelling word)
    (hne : word ≠ []) (hx : ∀ c ∈ x, isspace c = true) {d : UInt8} (hd : endsWord d = true)
    (z : Bytes) :
    getNextWord ⟨x ++ (spelling ++ d :: z), false, false⟩ [] =
      .ok (0, word, ⟨d :: z, false, false⟩) := by
  rw [getNextWord_spaces hx, getNextWord_eq (tidy_good _), h.skipSpace hne, readLoop_spells h hd]
  simp only [ne_eq, hne, not_false_eq_true, if_true]

end Spellings

end Webserveau.WordReading
