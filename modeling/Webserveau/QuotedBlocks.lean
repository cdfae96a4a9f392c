import Webserveau.HostBlocks

/-!
Blocks and quoted words as they are written.
A block whose braces are balanced in the usual reading of quotations and escapes is cut out
exactly. Words that are quoted and escaped are read back from a block, as many as are read
at a time.
-/
namespace Webserveau.QuotedBlocks

open ByteStrings Formats ConfigWords ConfigBlocks ConfigParser ConfigParser.ParseM BlockExtraction
  WordReading HostBlocks
open ConfigWords.Reader (endsWord)

/-- Whether the braces of a text are balanced and its quotations closed, when braces in
quotations and whatever stands behind a backslash are passed over. -/
def closes (depth : ℕ) (isEscaped isQuoted : Bool) : Bytes → Bool
  | [] => depth = 0 && !isQuoted
  | c :: rest =>
    if isEscaped then closes depth false isQuoted rest
    else if c = 92 then closes depth true isQuoted rest
    else if c = 34 then closes depth false (!isQuoted) rest
    else if isQuoted then closes depth false isQuoted rest
    else if c = 123 then closes (depth + 1) false isQuoted rest
    else if c = 125 then depth ≠ 0 && closes (depth - 1) false isQuoted rest
    else closes depth false isQuoted rest

/-- No backslash stands right before the end of a line or of the text. -/
structure Continued (body : Bytes) : Prop where
  line : ¬ [92, 10] <:+: body
  last : body.getLast? ≠ some 92

theorem Continued.tail {c : UInt8} {body : Bytes} (h : Continued (c :: body)) : Continued body := by
  constructor
  · exact fun hin => h.line (hin.trans (List.suffix_cons c body).isInfix)
  · intro hlast
    cases body with
    | nil => cases hlast
    | cons d body => exact h.last (by rw [List.getLast?_cons_cons, hlast])

theorem Continued.behind {body : Bytes} (h : Continued (92 :: body)) :
    ∃ d rest, body = d :: rest ∧ d ≠ 10 := by
  cases body with
  | nil => exact absurd rfl h.last
  | cons d rest =>
    refine ⟨d, rest, rfl, ?_⟩
    rintro rfl
    exact h.line ⟨[], rest, rfl⟩

/-- A text that is balanced in the usual reading is so for the search. -/
theorem passes_of_closes {body : Bytes} {depth : ℕ} {isEscaped isQuoted : Bool}
    (hcloses : closes depth isEscaped isQuoted body = true) (h : Continued body)
    (hescaped : isEscaped = true → ∃ d rest, body = d :: rest ∧ d ≠ 10) :
    passes ⟨depth + 1, isEscaped, isQuoted⟩ body = some ⟨1, false, false⟩ := by
  induction body generalizing depth isEscaped isQuoted with
  | nil =>
    have hplain : isEscaped = false := by
      cases isEscaped with
      | false => rfl
      | true =>
        obtain ⟨d, rest, hnil, -⟩ := hescaped rfl
        cases hnil
    unfold closes at hcloses
    simp only [Bool.and_eq_true, decide_eq_true_eq, Bool.not_eq_true'] at hcloses
    rw [hplain, hcloses.1, hcloses.2]
    rfl
  | cons c body ih =>
    have hnever : false = true → ∃ d rest, body = d :: rest ∧ d ≠ (10 : UInt8) := nofun
    unfold passes Braces.read
    unfold closes at hcloses
    by_cases hline : c = 10
    · have hplain : isEscaped = false := by
        cases isEscaped with
        | false => rfl
        | true =>
          obtain ⟨d, rest, hcons, hd⟩ := hescaped rfl
          cases hcons
          exact absurd hline hd
      subst hline hplain
      have hrest : closes depth false isQuoted body = true := by
        cases isQuoted with
        | true => exact hcloses
        | false => exact hcloses
      rw [if_pos rfl]
      exact ih hrest h.tail hnever
    · rw [if_neg hline]
      cases isEscaped with
      | true => exact ih hcloses h.tail hnever
      | false =>
        simp only [Bool.false_eq_true, if_false] at hcloses ⊢
        by_cases hslash : c = 92
        · subst hslash
          exact ih hcloses h.tail fun _ => h.behind
        · rw [if_neg hslash] at hcloses ⊢
          by_cases hquote : c = 34
          · rw [if_pos hquote] at hcloses ⊢
            exact ih hcloses h.tail hnever
          · rw [if_neg hquote] at hcloses ⊢
            cases isQuoted with
            | true => exact ih hcloses h.tail hnever
            | false =>
              simp only [Bool.false_eq_true, if_false] at hcloses ⊢
              by_cases hopen : c = 123
              · rw [if_pos hopen] at hcloses ⊢
                exact ih hcloses h.tail hnever
              · rw [if_neg hopen] at hcloses ⊢
                by_cases hclose : c = 125
                · rw [if_pos hclose] at hcloses ⊢
                  simp only [Bool.and_eq_true, decide_eq_true_eq] at hcloses
                  obtain ⟨hdepth, hrest⟩ := hcloses
                  obtain ⟨depth, rfl⟩ := Nat.exists_eq_succ_of_ne_zero hdepth
                  exact ih hrest h.tail hnever
                · rw [if_neg hclose] at hcloses ⊢
                  exact ih hcloses h.tail hnever

/-- A text without braces, quotation marks and backslashes does not change a search. -/
theorem passes_plain {pre : Bytes} (hpre : ∀ c ∈ pre, c ≠ 123 ∧ c ≠ 125 ∧ c ≠ 34 ∧ c ≠ 92) :
    passes {} pre = some {} := by
  induction pre with
  | nil => rfl
  | cons c pre ih =>
    obtain ⟨hopen, hclose, hquote, hslash⟩ := hpre c (List.mem_cons_self ..)
    have hread : Braces.read {} c = .next {} := by
      unfold Braces.read
      simp [hopen, hclose, hquote, hslash]
    unfold passes
    rw [hread]
    exact ih fun d hd => hpre d (List.mem_cons_of_mem _ hd)

/-- The block in front of a stream is cut out exactly, and the stream stands behind it. -/
theorem getNextBlock_exact (s : IStream) (line pre body rest : Bytes) (hgood : s.good = true)
    (hsuffix : s.rest <:+ s.text) (hrest : s.rest = pre ++ 123 :: (body ++ 125 :: rest))
    (hpre : ∀ c ∈ pre, c ≠ 123 ∧ c ≠ 125 ∧ c ≠ 34 ∧ c ≠ 92)
    (hbody : closes 0 false false body = true) (hcontinued : Continued body) :
    (getNextBlock s line).2 = .ok (body, { s with rest := rest }) := by
  have hbalanced : Balanced body := passes_of_closes hbody hcontinued nofun
  rw [getNextBlock_eq ⟨hgood, hsuffix⟩, hrest, search_written (passes_plain hpre) hbalanced]
  rfl

theorem getNextBlock_two_lines :
    (getNextBlock (.ofText (ascii "a \x7b b\n\"\x7d\" \x7bc\x7d\n\x7d;") 0) []).2 =
      .ok (ascii " b\n\"\x7d\" \x7bc\x7d\n",
        { IStream.ofText (ascii "a \x7b b\n\"\x7d\" \x7bc\x7d\n\x7d;") 0 with rest := ascii ";" }) :=
  getNextBlock_exact _ [] (ascii "a ") (ascii " b\n\"\x7d\" \x7bc\x7d\n") (ascii ";") rfl
    (List.suffix_refl _) (by decide) (by decide +kernel) (by decide) ⟨by decide, by decide⟩

/-- A word between quotation marks, with a backslash in front of what is special there. -/
def escaped (word : Bytes) : Bytes :=
  word.flatMap fun c => if c = 34 ∨ c = 92 then [92, c] else [c]

def quoted (word : Bytes) : Bytes := 34 :: (escaped word ++ [34])

/-- Quoted words, each behind what separates it from the one before. -/
def listing (entries : List (Bytes × Bytes)) : Bytes :=
  entries.flatMap fun e => e.1 ++ quoted e.2

def quotedBlock (entries : List (Bytes × Bytes)) : Bytes :=
  123 :: (listing entries ++ [59] ++ [125])

/-- Words that are not empty, and runs of spaces, tabs and ends of lines that separate them. -/
structure Separated (entries : List (Bytes × Bytes)) : Prop where
  words : ∀ e ∈ entries, e.2 ≠ []
  blanks : ∀ e ∈ entries, ∀ c ∈ e.1, c = 32 ∨ c = 9 ∨ c = 10
  apart : ∀ e ∈ entries.tail, e.1 ≠ []

/-- A block is cut out, words are read from it, and a semicolon behind them. -/
def readBack (s : IStream) : ParseM (List Bytes × Bool × IStream) := do
  let (block, _) ← nextBlock s
  let (words, block) ← parseValues INT32_MAX.toNat [] block
  let (found, block) ← checkSemiColon block
  return (words, found, block)

/-- The words are read back, and nothing is left of the block. -/
def ReadsBack (entries : List (Bytes × Bytes)) : Prop :=
  ∀ offset g, ∃ block, (readBack (.ofText (quotedBlock entries) offset) g).result =
    .ok (entries.map Prod.snd, true, block) ∧ block.rest = []

theorem isspace_of_blank {c : UInt8} (h : c = 32 ∨ c = 9 ∨ c = 10) : isspace c = true := by
  rcases h with rfl | rfl | rfl <;> decide

theorem escaped_cons (c : UInt8) (word : Bytes) :
    escaped (c :: word) = (if c = 34 ∨ c = 92 then [92, c] else [c]) ++ escaped word := rfl

/-- An escaped word is what a quotation of it holds. -/
theorem quotes_escaped (word : Bytes) : Quotes word (escaped word ++ [34]) := by
  induction word with
  | nil => exact .done
  | cons c word ih =>
    rw [escaped_cons]
    by_cases hc : c = 34 ∨ c = 92
    · rw [if_pos hc]
      exact .escaped ih
    · rw [if_neg hc]
      obtain ⟨hquote, hslash⟩ := not_or.mp hc
      exact .plain hslash hquote ih

theorem spells_quoted (word : Bytes) : Spells [] (quoted word) word := by
  have hspells : Spells [] (34 :: (escaped word ++ [34] ++ [])) ([] ++ word) :=
    .quoted (quotes_escaped word) .done
  rw [List.append_nil, List.nil_append] at hspells
  exact hspells

/-- Inside a quotation the search meets no brace. -/
theorem passes_escaped (b : Braces) (hplain : b.isEscaped = false) (hquoted : b.isQuoted = true)
    (word rest : Bytes) : passes b (escaped word ++ rest) = passes b rest := by
  induction word with
  | nil => rfl
  | cons c word ih =>
    rw [escaped_cons, List.append_assoc]
    obtain ⟨depth, isEscaped, isQuoted⟩ := b
    dsimp only at hplain hquoted
    subst hplain hquoted
    by_cases hc : c = 34 ∨ c = 92
    · rw [if_pos hc]
      have hslash : Braces.read ⟨depth, false, true⟩ 92 = .next ⟨depth, true, true⟩ := rfl
      have htaken : Braces.read ⟨depth, true, true⟩ c = .next ⟨depth, false, true⟩ := by
        rcases hc with rfl | rfl <;> rfl
      rw [List.cons_append, passes, hslash]
      dsimp only
      rw [List.cons_append, passes, htaken]
      exact ih
    · rw [if_neg hc]
      obtain ⟨hquote, hslash⟩ := not_or.mp hc
      have hread : Braces.read ⟨depth, false, true⟩ c = .next ⟨depth, false, true⟩ := by
        unfold Braces.read
        simp [hquote, hslash]
      rw [List.cons_append, passes, hread]
      exact ih

theorem passes_quoted (word rest : Bytes) :
    passes ⟨1, false, false⟩ (quoted word ++ rest) = passes ⟨1, false, false⟩ rest := by
  have hopen : Braces.read ⟨1, false, false⟩ 34 = .next ⟨1, false, true⟩ := rfl
  have hclose : Braces.read ⟨1, false, true⟩ 34 = .next ⟨1, false, false⟩ := rfl
  unfold quoted
  rw [List.cons_append, List.append_assoc, passes, hopen]
  dsimp only
  rw [passes_escaped _ rfl rfl, List.cons_append, passes, hclose]
  rfl

theorem passes_blank {x : Bytes} (hx : ∀ c ∈ x, c = 32 ∨ c = 9 ∨ c = 10) (rest : Bytes) :
    passes ⟨1, false, false⟩ (x ++ rest) = passes ⟨1, false, false⟩ rest := by
  induction x with
  | nil => rfl
  | cons c x ih =>
    have hread : Braces.read ⟨1, false, false⟩ c = .next ⟨1, false, false⟩ := by
      rcases hx c (List.mem_cons_self ..) with rfl | rfl | rfl <;> rfl
    rw [List.cons_append, passes, hread]
    exact ih fun d hd => hx d (List.mem_cons_of_mem _ hd)

theorem balanced_listing {entries : List (Bytes × Bytes)}
    (h : ∀ e ∈ entries, ∀ c ∈ e.1, c = 32 ∨ c = 9 ∨ c = 10) :
    BlockExtraction.Balanced (listing entries ++ [59]) := by
  induction entries with
  | nil => rfl
  | cons e entries ih =>
    have hrest := ih fun e' he' => h e' (List.mem_cons_of_mem _ he')
    unfold BlockExtraction.Balanced at hrest ⊢
    have hcons : listing (e :: entries) = e.1 ++ quoted e.2 ++ listing entries := rfl
    rw [hcons, List.append_assoc, List.append_assoc, passes_blank (h e (List.mem_cons_self ..)),
      passes_quoted, hrest]

theorem Separated.tail {e : Bytes × Bytes} {entries : List (Bytes × Bytes)}
    (h : Separated (e :: entries)) : Separated entries where
  words := fun e' he' => h.words e' (List.mem_cons_of_mem _ he')
  blanks := fun e' he' => h.blanks e' (List.mem_cons_of_mem _ he')
  apart := fun e' he' => h.apart e' (List.mem_of_mem_tail he')

/-- What comes behind a word ends it. -/
theorem Separated.behind {e : Bytes × Bytes} {entries : List (Bytes × Bytes)}
    (h : Separated (e :: entries)) :
    ∃ d z, listing entries ++ [59] = d :: z ∧ endsWord d = true := by
  cases entries with
  | nil => exact ⟨59, [], rfl, rfl⟩
  | cons e' entries =>
    obtain ⟨d, x, hx⟩ := List.exists_cons_of_ne_nil (h.apart e' (List.mem_cons_self ..))
    refine ⟨d, x ++ (quoted e'.2 ++ (listing entries ++ [59])), ?_, ?_⟩
    · show e'.1 ++ quoted e'.2 ++ listing entries ++ [59] = _
      rw [hx]
      simp only [List.cons_append, List.append_assoc]
    · have hd := h.blanks e' (List.mem_cons_of_mem _ (List.mem_cons_self ..)) d
        (hx ▸ List.mem_cons_self ..)
      rcases hd with rfl | rfl | rfl <;> rfl

/-- The words of a list are read one by one, as many as are asked for. -/
theorem parseValues_listing {entries : List (Bytes × Bytes)} (h : Separated entries)
    (maxNbr : ℕ) (words : List Bytes) (text : Bytes) (offset : ℕ) (g : Globals) :
    (parseValues maxNbr words ⟨⟨listing entries ++ [59], false, false⟩, text, offset⟩ g).result =
      .ok (words ++ (entries.take maxNbr).map Prod.snd,
        ⟨⟨listing (entries.drop maxNbr) ++ [59], false, false⟩, text, offset⟩) := by
  induction maxNbr generalizing entries words g with
  | zero =>
    rw [List.take_zero, List.map_nil, List.append_nil]
    rfl
  | succ maxNbr ih =>
    cases entries with
    | nil =>
      have hread : readWord false [] ⟨⟨[59], false, false⟩, text, offset⟩ g = {
          result := .ok (59, [], ⟨⟨[59], false, false⟩, text, offset⟩)
          globals := g
          calls := [.word false [] ⟨⟨[59], false, false⟩, text, offset⟩ (some (59, []))] } :=
        readWord_ok rfl
      show (parseValues (maxNbr + 1) words ⟨⟨[59], false, false⟩, text, offset⟩ g).result = _
      rw [parseValues, bind_of_ok (a := (59, [], _)) (by rw [hread]), hread]
      simp only [List.take_nil, List.map_nil, List.append_nil, List.drop_nil]
      rfl
    | cons e entries =>
      obtain ⟨d, z, hbehind, hd⟩ := h.behind
      have hword : Reader.getNextWord ⟨listing (e :: entries) ++ [59], false, false⟩ [] =
          .ok (0, e.2, ⟨listing entries ++ [59], false, false⟩) := by
        have htext : listing (e :: entries) ++ [59] = e.1 ++ (quoted e.2 ++ d :: z) := by
          show e.1 ++ quoted e.2 ++ listing entries ++ [59] = _
          rw [← hbehind]
          simp only [List.append_assoc]
        rw [htext, hbehind]
        refine getNextWord_spells (spells_quoted e.2) (h.words e (List.mem_cons_self ..)) ?_ hd z
        exact fun c hc => isspace_of_blank (h.blanks e (List.mem_cons_self ..) c hc)
      have hread : readWord false [] ⟨⟨listing (e :: entries) ++ [59], false, false⟩, text, offset⟩
          g = {
          result := .ok (0, e.2, ⟨⟨listing entries ++ [59], false, false⟩, text, offset⟩)
          globals := g
          calls := [.word false [] ⟨⟨listing (e :: entries) ++ [59], false, false⟩, text, offset⟩
            (some (0, e.2))] } := readWord_ok hword
      rw [parseValues, bind_of_ok (a := (0, e.2, _)) (by rw [hread]), hread]
      dsimp only
      rw [if_pos rfl, ih h.tail]
      simp only [List.take_succ_cons, List.map_cons, List.append_assoc, List.singleton_append,
        List.drop_succ_cons]

/-- As many words are read back as are read at a time; a semicolon is found when these are all. -/
theorem readBack_eq {entries : List (Bytes × Bytes)} (h : Separated entries) (offset : ℕ)
    (g : Globals) :
    ∃ found block, (readBack (.ofText (quotedBlock entries) offset) g).result =
        .ok ((entries.take INT32_MAX.toNat).map Prod.snd, found, block) ∧
      (entries.length ≤ INT32_MAX.toNat → found = true ∧ block.rest = []) := by
  obtain ⟨s, hfound⟩ : ∃ s, (getNextBlock (.ofText (quotedBlock entries) offset) g.lineBuffer).2 =
      .ok (listing entries ++ [59], s) := by
    have hsearch := @search_written [] _ rfl (balanced_listing h.blanks) []
    have htext : (IStream.ofText (quotedBlock entries) offset).rest =
        [] ++ 123 :: (listing entries ++ [59] ++ 125 :: []) := rfl
    rw [getNextBlock_eq ⟨rfl, List.suffix_refl _⟩, htext, hsearch]
    exact ⟨_, rfl⟩
  have hblock := nextBlock_ok hfound
  have hvalues := parseValues_listing h INT32_MAX.toNat [] (listing entries ++ [59])
    (blockOffset s (listing entries ++ [59]))
    { g with lineBuffer := (getNextBlock (.ofText (quotedBlock entries) offset) g.lineBuffer).1 }
  rw [List.nil_append] at hvalues
  unfold readBack
  rw [bind_of_ok (by rw [hblock]), hblock]
  dsimp only
  unfold IStream.ofText at hvalues ⊢
  rw [bind_of_ok hvalues]
  refine ⟨_, _, rfl, ?_⟩
  intro hall
  rw [List.drop_eq_nil_of_le hall]
  exact ⟨rfl, rfl⟩

theorem readsBack_of_length_le {entries : List (Bytes × Bytes)} (h : Separated entries)
    (hlength : entries.length ≤ INT32_MAX.toNat) : ReadsBack entries := by
  intro offset g
  obtain ⟨found, block, hresult, hend⟩ := readBack_eq h offset g
  obtain ⟨rfl, hrest⟩ := hend hlength
  rw [List.take_of_length_le hlength] at hresult
  exact ⟨block, hresult, hrest⟩

theorem readsBack_special :
    ReadsBack [([], [97, 123, 59, 34, 92]), ([32, 9], [35, 10, 47, 47, 125])] :=
  readsBack_of_length_le ⟨by decide, by decide +kernel, by decide⟩ (by decide)

/-- One word more than are read at a time. -/
def tooMany : List (Bytes × Bytes) := ([], [97]) :: List.replicate INT32_MAX.toNat ([32], [97])

theorem separated_tooMany : Separated tooMany := by
  have hcases : ∀ e ∈ tooMany, e = ([], [97]) ∨ e = ([32], [97]) := by
    intro e he
    rcases List.mem_cons.mp he with he | he
    · exact Or.inl he
    · exact Or.inr (List.eq_of_mem_replicate he)
  constructor
  · intro e he
    rcases hcases e he with rfl | rfl <;> decide
  · intro e he
    rcases hcases e he with rfl | rfl <;> decide +kernel
  · intro e he
    rw [List.eq_of_mem_replicate he]
    decide

theorem tooMany_not_readBack : Separated tooMany ∧ ¬ ReadsBack tooMany := by
  refine ⟨separated_tooMany, ?_⟩
  intro h
  obtain ⟨block, hresult, -⟩ := h 0 {}
  obtain ⟨found, block', hresult', -⟩ := readBack_eq separated_tooMany 0 {}
  rw [hresult] at hresult'
  have hwords := congrArg List.length (Prod.mk.inj (Except.ok.inj hresult')).1
  rw [List.length_map, List.length_map, List.length_take] at hwords
  unfold tooMany at hwords
  rw [List.length_cons, List.length_replicate] at hwords
  omega

end Webserveau.QuotedBlocks
