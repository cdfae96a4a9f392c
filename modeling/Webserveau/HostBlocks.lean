import Webserveau.ConfigReadings

/-!
What the reading of a block comes to.
Every error in a block is an exception of the parser, but for a missing word that is to be
reported under a null pointer. A block whose closing brace is missing makes the stream
scan the line it has read last; nothing is said of a run in which a block is found there.
-/
namespace Webserveau.HostBlocks

open ByteStrings OrderedMaps Formats Requests Registries ConfigWords ConfigBlocks ConfigParser
  ConfigParser.ParseM BlockExtraction WordReading ConfigReadings

/-- A missing word is reported under a null pointer. -/
def NamesNull : Call → Prop
  | .word true _ _ (some (ret, _)) => ret ≠ 0
  | _ => False

/-- A block is found in a line that was read before. -/
def Rereads : Call → Prop
  | .block line s _ => s.good = false ∧ ∃ scan it, scanLine {} 0 line = .closed scan it
  | _ => False

instance : DecidablePred NamesNull
  | .word true _ _ (some (ret, _)) => inferInstanceAs (Decidable (ret ≠ 0))
  | .word true _ _ none => .isFalse id
  | .word false _ _ _ => .isFalse id
  | .semicolon _ _ => .isFalse id
  | .block _ _ _ => .isFalse id

instance : DecidablePred Rereads
  | .block line s _ =>
    match hline : scanLine {} 0 line with
    | .closed scan it => decidable_of_iff (s.good = false)
        ⟨fun h => ⟨h, scan, it, hline⟩, fun h => h.1⟩
    | .passed _ => .isFalse fun ⟨_, _, _, h⟩ => by rw [hline] at h; cases h
    | .unexpected => .isFalse fun ⟨_, _, _, h⟩ => by rw [hline] at h; cases h
  | .word _ _ _ _ => .isFalse id
  | .semicolon _ _ => .isFalse id

section Sequences

variable {α β : Type} {m : ParseM α} {f : α → ParseM β} {handler : ConfigException → ParseM α}
  {g : Globals}

theorem bind_of_ok {a : α} (h : (m g).result = .ok a) :
    (m >>= f) g = { f a (m g).globals with
      calls := (m g).calls ++ (f a (m g).globals).calls } := by
  show ParseM.bind m f g = _
  unfold ParseM.bind
  dsimp only
  rw [h]

theorem bind_of_error {e : Halt} (h : (m g).result = .error e) :
    (m >>= f) g = { result := .error e, globals := (m g).globals, calls := (m g).calls } := by
  show ParseM.bind m f g = _
  unfold ParseM.bind
  dsimp only
  rw [h]

theorem tryCatch_of_exception {e : ConfigException} (h : (m g).result = .error (.exception e)) :
    tryCatch m handler g = { handler e (m g).globals with
      calls := (m g).calls ++ (handler e (m g).globals).calls } := by
  unfold ParseM.tryCatch
  dsimp only
  rw [h]

theorem tryCatch_of_other (h : ∀ e, (m g).result ≠ .error (.exception e)) :
    tryCatch m handler g = m g := by
  unfold ParseM.tryCatch
  dsimp only
  split
  · rename_i e he
    exact absurd he (h e)
  · rfl

end Sequences

/-- How a computation ends: with an error outside of the parser when, and only when, it has
made a call that brings it about. -/
structure EndsIn {α : Type} (P : α → Prop) (out : Outcome α) : Prop where
  ok : ∀ a, out.result = .ok a → P a
  null : out.result = .error .logicError ↔ ∃ c ∈ out.calls, NamesNull c
  finished : out.result ≠ .error .unfinished

/-- A computation ends so in every run that does not find a block in a line read before. -/
def Contained {α : Type} (m : ParseM α) (P : α → Prop) : Prop :=
  ∀ g, (∀ c ∈ (m g).calls, ¬ Rereads c) → EndsIn P (m g)

section Triples

variable {α β : Type} {m : ParseM α} {f : α → ParseM β} {P : α → Prop} {Q : β → Prop}

theorem contained_pure {a : α} (h : P a) : Contained (pure a) P := by
  intro g _
  refine ⟨?_, ?_, nofun⟩
  · intro b hb
    cases hb
    exact h
  · constructor
    · intro h
      cases h
    · intro ⟨c, hc, _⟩
      cases hc

theorem contained_throw (e : ConfigException) : Contained (throw e) P := by
  intro g _
  refine ⟨nofun, ?_, nofun⟩
  constructor
  · intro h
    cases h
  · intro ⟨c, hc, _⟩
    cases hc

theorem Contained.mono {P' : α → Prop} (h : Contained m P) (himp : ∀ a, P a → P' a) :
    Contained m P' := by
  intro g hg
  obtain ⟨hok, hnull, hfinished⟩ := h g hg
  exact ⟨fun a ha => himp a (hok a ha), hnull, hfinished⟩

theorem Contained.bind (hm : Contained m P) (hf : ∀ a, P a → Contained (f a) Q) :
    Contained (m >>= f) Q := by
  intro g hg
  cases hresult : (m g).result with
  | error e =>
    rw [bind_of_error hresult] at hg ⊢
    obtain ⟨-, hnull, hfinished⟩ := hm g hg
    rw [hresult] at hnull hfinished
    refine ⟨nofun, ?_, ?_⟩
    · simpa using hnull
    · simpa using hfinished
  | ok a =>
    rw [bind_of_ok hresult] at hg ⊢
    obtain ⟨hok, hnull, -⟩ := hm g fun c hc => hg c (List.mem_append_left _ hc)
    obtain ⟨hok', hnull', hfinished'⟩ := hf a (hok a hresult) (m g).globals
      fun c hc => hg c (List.mem_append_right _ hc)
    refine ⟨hok', ?_, hfinished'⟩
    rw [hresult] at hnull
    constructor
    · intro h
      obtain ⟨c, hc, hnames⟩ := hnull'.mp h
      exact ⟨c, List.mem_append_right _ hc, hnames⟩
    · intro ⟨c, hc, hnames⟩
      rcases List.mem_append.mp hc with hc | hc
      · exact absurd (hnull.mpr ⟨c, hc, hnames⟩) nofun
      · exact hnull'.mpr ⟨c, hc, hnames⟩

/-- An exception that is caught leaves what the handler ends with. -/
theorem Contained.tryCatch {handler : ConfigException → ParseM α} (hm : Contained m P)
    (hhandler : ∀ e, Contained (handler e) P) : Contained (tryCatch m handler) P := by
  intro g hg
  by_cases hexception : ∃ e, (m g).result = .error (.exception e)
  · obtain ⟨e, hresult⟩ := hexception
    rw [tryCatch_of_exception hresult] at hg ⊢
    obtain ⟨-, hnull, -⟩ := hm g fun c hc => hg c (List.mem_append_left _ hc)
    obtain ⟨hok', hnull', hfinished'⟩ := hhandler e (m g).globals
      fun c hc => hg c (List.mem_append_right _ hc)
    refine ⟨hok', ?_, hfinished'⟩
    rw [hresult] at hnull
    constructor
    · intro h
      obtain ⟨c, hc, hnames⟩ := hnull'.mp h
      exact ⟨c, List.mem_append_right _ hc, hnames⟩
    · intro ⟨c, hc, hnames⟩
      rcases List.mem_append.mp hc with hc | hc
      · exact absurd (hnull.mpr ⟨c, hc, hnames⟩) nofun
      · exact hnull'.mpr ⟨c, hc, hnames⟩
  · have hother : ∀ e, (m g).result ≠ .error (.exception e) := fun e he => hexception ⟨e, he⟩
    rw [tryCatch_of_other hother] at hg ⊢
    exact hm g hg

theorem contained_modify (F : Globals → Globals) {P : Unit → Prop} (h : P ()) :
    Contained (modify F) P := by
  intro g _
  refine ⟨?_, ?_, nofun⟩
  · intro a _
    exact h
  · constructor
    · intro h
      cases h
    · intro ⟨c, hc, _⟩
      cases hc

theorem contained_contain {c : α} (hm : Contained m P) (hc : P c) : Contained (contain c m) P := by
  refine hm.tryCatch ?_
  intro e
  split
  · exact contained_throw _
  · exact (contained_modify _ trivial).bind (P := fun _ => True) fun _ _ => contained_pure hc

theorem contained_settled (h : Settled m) : Contained m fun _ => True := by
  cases h with
  | value a => exact contained_pure trivial
  | exception e => exact contained_throw e

end Triples

/-- A stream with at most so many characters left. -/
structure Within (n : ℕ) (s : IStream) : Prop where
  tidy : Tidy s.toReader
  suffix : s.rest <:+ s.text
  length : s.rest.length ≤ n

theorem Within.leaves {n : ℕ} {s : IStream} {r : Reader} (h : Within n s)
    (hr : Leaves s.toReader r) : Within n { s with toReader := r } :=
  ⟨hr.tidy, hr.suffix.trans h.suffix, hr.suffix.length_le.trans h.length⟩

theorem Within.of_le {n i : ℕ} {s : IStream} (h : Within n s) (hi : s.rest.length ≤ i) :
    Within i s := ⟨h.tidy, h.suffix, hi⟩

theorem within_ofText {n : ℕ} {text : Bytes} (h : text.length ≤ n) (offset : ℕ) :
    Within n (.ofText text offset) := ⟨tidy_good text, List.suffix_refl _, h⟩

/-- A block and what follows it are parts of the text. -/
theorem search_block {b : Braces} {body text body' rest : Bytes}
    (h : search b body text = .block body' rest) :
    rest <:+ text ∧ body'.length + rest.length ≤ body.length + text.length := by
  induction text generalizing b body with
  | nil => cases h
  | cons c text ih =>
    unfold search at h
    rw [List.length_cons]
    split at h
    · cases h
      exact ⟨List.suffix_cons c rest, by omega⟩
    · cases h
    · obtain ⟨hsuffix, hlength⟩ := ih h
      refine ⟨hsuffix.trans (List.suffix_cons c text), ?_⟩
      split at hlength
      · omega
      · rw [List.length_append, List.length_singleton] at hlength
        omega

/-- One call that brings nothing about. -/
theorem endsIn_call {α : Type} {P : α → Prop} {out : Outcome α} {c : Call}
    (hcalls : out.calls = [c]) (hc : ¬ NamesNull c)
    (hresult : (∃ a, out.result = .ok a ∧ P a) ∨ ∃ e, out.result = .error (.exception e)) :
    EndsIn P out := by
  have hnone : ¬ ∃ c ∈ out.calls, NamesNull c := by
    rw [hcalls]
    intro ⟨c', hmem, hnames⟩
    rw [List.mem_singleton.mp hmem] at hnames
    exact hc hnames
  rcases hresult with ⟨a, ha, hP⟩ | ⟨e, he⟩
  · refine ⟨?_, ?_, by rw [ha]; nofun⟩
    · intro b hb
      rw [ha] at hb
      cases hb
      exact hP
    · rw [ha]
      exact ⟨nofun, fun h => absurd h hnone⟩
  · refine ⟨by rw [he]; nofun, ?_, by rw [he]; nofun⟩
    rw [he]
    exact ⟨nofun, fun h => absurd h hnone⟩

section Calls

variable {n : ℕ} {s : IStream} {nullId : Bool} {dest : Bytes} {g : Globals}

theorem readWord_error {e : ConfigException} (h : s.toReader.getNextWord dest = .error e) :
    readWord nullId dest s g = {
      result := .error (.exception e)
      globals := g
      calls := [.word nullId dest s none] } := by
  unfold readWord
  rw [h]

theorem readWord_ok {ret : UInt8} {word : Bytes} {r : Reader}
    (h : s.toReader.getNextWord dest = .ok (ret, word, r)) :
    readWord nullId dest s g = {
      result := .ok (ret, word, { s with toReader := r })
      globals := g
      calls := [.word nullId dest s (some (ret, word))] } := by
  unfold readWord
  rw [h]

theorem contained_readWord (hs : Within n s) (dest : Bytes) :
    Contained (readWord false dest s) fun out =>
      Within n out.2.2 ∧ (dest = [] → out.1 = 0 → out.2.2.rest.length < n) := by
  intro g _
  cases hread : s.toReader.getNextWord dest with
  | error e =>
    rw [readWord_error hread]
    exact endsIn_call rfl id (Or.inr ⟨e, rfl⟩)
  | ok out =>
    obtain ⟨ret, word, r⟩ := out
    obtain ⟨hleaves, hless⟩ := getNextWord_leaves hs.tidy hread
    rw [readWord_ok hread]
    refine endsIn_call rfl id (Or.inl ⟨_, rfl, hs.leaves hleaves, ?_⟩)
    exact fun hdest hret => lt_of_lt_of_le (hless hdest hret) hs.length

/-- The only calls that may bring about an error outside of the parser. -/
theorem contained_unnamed (hs : Within n s) (dest : Bytes) :
    Contained (requiredWord dest none s) fun out => Within n out.2 := by
  intro g _
  show EndsIn _ ((readWord true dest s >>= _) g)
  cases hread : s.toReader.getNextWord dest with
  | error e =>
    rw [bind_of_error (by rw [readWord_error hread]), readWord_error hread]
    exact endsIn_call rfl id (Or.inr ⟨e, rfl⟩)
  | ok out =>
    obtain ⟨ret, word, r⟩ := out
    rw [bind_of_ok (by rw [readWord_ok hread]), readWord_ok hread]
    by_cases hret : ret = 0
    · subst hret
      exact endsIn_call rfl (not_not_intro rfl)
        (Or.inl ⟨_, rfl, hs.leaves (getNextWord_leaves hs.tidy hread).1⟩)
    · have hhalt : (if ret ≠ 0 then missing none else pure (word, { s with toReader := r }) :
          ParseM (Bytes × IStream)) = halt .logicError := if_pos hret
      show EndsIn _ { (if ret ≠ 0 then missing none else pure (word, { s with toReader := r }) :
          ParseM (Bytes × IStream)) g with calls := _ }
      rw [hhalt]
      refine ⟨nofun, ?_, nofun⟩
      constructor
      · intro _
        exact ⟨_, List.mem_append_left _ (List.mem_singleton_self _), hret⟩
      · intro _
        rfl

theorem contained_checkSemiColon (hs : Within n s) :
    Contained (checkSemiColon s) fun out => Within n out.2 := by
  intro g _
  exact endsIn_call rfl id (Or.inl ⟨_, rfl, hs.leaves (checkSemiColon_leaves hs.tidy)⟩)

theorem nextBlock_error {e : ConfigException} (h : (getNextBlock s g.lineBuffer).2 = .error e) :
    nextBlock s g = {
      result := .error (.exception e)
      globals := { g with lineBuffer := (getNextBlock s g.lineBuffer).1 }
      calls := [.block g.lineBuffer s none] } := by
  unfold nextBlock
  dsimp only
  rw [h]

theorem nextBlock_ok {block : Bytes} {t : IStream}
    (h : (getNextBlock s g.lineBuffer).2 = .ok (block, t)) :
    nextBlock s g = {
      result := .ok (.ofText block (blockOffset t block), t)
      globals := { g with lineBuffer := (getNextBlock s g.lineBuffer).1 }
      calls := [.block g.lineBuffer s (some block)] } := by
  unfold nextBlock
  dsimp only
  rw [h]

theorem Within.inText (hs : Within n s) (hgood : s.good = true) : InText s := ⟨hgood, hs.suffix⟩

theorem contained_nextBlock (hs : Within n s) :
    Contained (nextBlock s) fun out => Within n out.1 ∧ Within n out.2 := by
  intro g hg
  cases hgood : s.good with
  | true =>
    have hfound := getNextBlock_eq (hs.inText hgood) g.lineBuffer
    cases hsearch : search {} [] s.rest with
    | «over» b =>
      rw [hsearch] at hfound
      rw [nextBlock_error hfound]
      exact endsIn_call rfl id (Or.inr ⟨_, rfl⟩)
    | unexpected =>
      rw [hsearch] at hfound
      rw [nextBlock_error hfound]
      exact endsIn_call rfl id (Or.inr ⟨_, rfl⟩)
    | block body rest =>
      rw [hsearch] at hfound
      rw [nextBlock_ok hfound]
      obtain ⟨hsuffix, hlength⟩ := search_block hsearch
      have hsum : body.length + rest.length ≤ n := by
        have hle := hs.length
        rw [List.length_nil] at hlength
        omega
      refine endsIn_call rfl id (Or.inl ⟨_, rfl, within_ofText (by omega) _, ?_⟩)
      obtain ⟨heof, hfail⟩ := (good_iff s.toReader).mp hgood
      refine ⟨⟨?_, ?_⟩, hsuffix.trans hs.suffix, ?_⟩
      · intro h
        exact absurd (heof.symm.trans h) Bool.false_ne_true
      · intro h
        exact absurd (hfail.symm.trans h) Bool.false_ne_true
      · show rest.length ≤ n
        omega
  | false =>
    obtain ⟨fail, hend⟩ : ∃ fail, s.toReader = ⟨[], true, fail⟩ := by
      rcases hs.tidy.cases with ⟨rest, hrest⟩ | hend
      · rw [hrest] at hgood
        cases hgood
      · exact hend
    have hopen : ∀ scan it, scanLine {} 0 g.lineBuffer ≠ .closed scan it := by
      intro scan it hclosed
      cases hout : (getNextBlock s g.lineBuffer).2 with
      | error e =>
        rw [nextBlock_error hout] at hg
        exact hg _ (List.mem_singleton_self _) ⟨hgood, scan, it, hclosed⟩
      | ok out =>
        rw [nextBlock_ok hout] at hg
        exact hg _ (List.mem_singleton_self _) ⟨hgood, scan, it, hclosed⟩
    obtain ⟨e, he⟩ := getNextBlock_exhausted hgood (by rw [hend]) hopen
    rw [nextBlock_error (by rw [he])]
    exact endsIn_call rfl id (Or.inr ⟨e, rfl⟩)

end Calls

/-- Every reading is contained, and leaves no more than there was. -/
theorem Reading.contained {n : ℕ} {α : Type} {m : IStream → ParseM (α × IStream)}
    (h : Reading true n m) {s : IStream} (hs : Within n s) :
    Contained (m s) fun out => Within s.rest.length out.2 := by
  induction h generalizing s with
  | done a => exact contained_pure (hs.of_le le_rfl)
  | fail e => exact contained_throw e
  | stuck htotal => cases htotal
  | @word n α dest k _ _ ihnone ihword =>
    have hs' := hs.of_le le_rfl
    refine (contained_readWord hs' dest).bind ?_
    intro out hout
    obtain ⟨ret, word, t⟩ := out
    obtain ⟨ht, hless⟩ := hout
    dsimp only at ht hless
    have hle : t.rest.length ≤ n := ht.length.trans hs.length
    have hinto : ∀ out : α × IStream, Within t.rest.length out.2 → Within s.rest.length out.2 :=
      fun out h => h.of_le (h.length.trans ht.length)
    by_cases hret : ret = 0
    · subst hret
      have hfew : dest = [] → t.rest.length < n := 
        fun hdest => lt_of_lt_of_le (hless hdest rfl) hs.length
      exact (ihword t.rest.length word hle (fun _ => hfew) (ht.of_le le_rfl)).mono hinto
    · exact (ihnone ret word hret (ht.of_le hle)).mono hinto
  | unnamed dest => exact contained_unnamed (hs.of_le le_rfl) dest
  | semicolon => exact contained_checkSemiColon (hs.of_le le_rfl)
  | @block n β γ m f c _ hsettled ih =>
    refine (contained_nextBlock (hs.of_le le_rfl)).bind ?_
    intro out hout
    obtain ⟨block, t⟩ := out
    obtain ⟨hblock, ht⟩ := hout
    dsimp only at hblock ht ⊢
    refine Contained.bind (P := fun _ => True) ?_ fun c _ => contained_pure ht
    refine contained_contain ?_ trivial
    exact (ih (hblock.of_le (hblock.length.trans hs.length))).bind
      fun p _ => contained_settled (hsettled p.1)
  | @bind n α β m f _ _ ihm ihf =>
    refine (ihm hs).bind ?_
    intro p hp
    have hle : p.2.rest.length ≤ n := hp.length.trans hs.length
    exact (ihf p.2.rest.length p.1 hle (hp.of_le le_rfl)).mono
      fun out h => h.of_le (h.length.trans hp.length)

/-- Globals in which nothing has been set but the line. -/
def fresh (line : Bytes) : Globals := { lineBuffer := line }

/-- An outcome of a run from fresh globals, as one from others. -/
def onto {α : Type} (out : Outcome α) (g : Globals) : Outcome α :=
  { out with globals := { g with
      lineBuffer := out.globals.lineBuffer
      error := g.error || out.globals.error } }

/-- A computation that depends on the line alone, and sets nothing but the line and the
error flag. -/
def Local {α : Type} (m : ParseM α) : Prop := ∀ g, m g = onto (m (fresh g.lineBuffer)) g

section Locals

variable {α β : Type} {m : ParseM α} {f : α → ParseM β}

theorem local_of_same {result : Except Halt α} {calls : List Call}
    (h : ∀ g, m g = { result := result, globals := g, calls := calls }) : Local m := by
  intro g
  rw [h, h]
  simp only [onto, fresh, Bool.or_false]

theorem local_pure (a : α) : Local (pure a) := local_of_same fun _ => rfl

theorem local_halt (e : Halt) : Local (halt (α := α) e) := local_of_same fun _ => rfl

theorem Local.bind (hm : Local m) (hf : ∀ a, Local (f a)) : Local (m >>= f) := by
  intro g
  have hmg := hm g
  cases hresult : (m (fresh g.lineBuffer)).result with
  | error e =>
    have hresult' : (m g).result = .error e := by rw [hmg]; exact hresult
    rw [bind_of_error hresult, bind_of_error hresult', hmg]
    rfl
  | ok a =>
    have hresult' : (m g).result = .ok a := by rw [hmg]; exact hresult
    rw [bind_of_ok hresult, bind_of_ok hresult', hf a (m g).globals,
      hf a (m (fresh g.lineBuffer)).globals, hmg]
    simp only [onto, Bool.or_assoc]

theorem Local.tryCatch {handler : ConfigException → ParseM α} (hm : Local m)
    (hhandler : ∀ e, Local (handler e)) : Local (tryCatch m handler) := by
  intro g
  have hmg := hm g
  have hresult : (m g).result = (m (fresh g.lineBuffer)).result := by rw [hmg]; rfl
  by_cases hexception : ∃ e, (m (fresh g.lineBuffer)).result = .error (.exception e)
  · obtain ⟨e, he⟩ := hexception
    rw [tryCatch_of_exception he, tryCatch_of_exception (hresult.trans he),
      hhandler e (m g).globals, hhandler e (m (fresh g.lineBuffer)).globals, hmg]
    simp only [onto, Bool.or_assoc]
  · have hother : ∀ e, (m (fresh g.lineBuffer)).result ≠ .error (.exception e) :=
      fun e he => hexception ⟨e, he⟩
    rw [tryCatch_of_other hother, tryCatch_of_other (by rw [hresult]; exact hother)]
    exact hmg

theorem local_contain (c : α) (hm : Local m) : Local (contain c m) := by
  refine hm.tryCatch ?_
  intro e
  split
  · exact local_halt _
  · refine Local.bind ?_ fun _ => local_pure c
    intro g
    show Outcome.mk _ { g with error := true } _ =
      Outcome.mk (.ok ()) { g with error := g.error || true } []
    rw [Bool.or_true]

theorem local_settled (h : Settled m) : Local m := by
  cases h with
  | value a => exact local_pure a
  | exception e => exact local_halt _

theorem local_readWord (nullId : Bool) (dest : Bytes) (s : IStream) :
    Local (readWord nullId dest s) := by
  intro g
  cases hread : s.toReader.getNextWord dest with
  | error e =>
    rw [readWord_error hread, readWord_error hread]
    simp only [onto, fresh, Bool.or_false]
  | ok out =>
    rw [readWord_ok hread, readWord_ok hread]
    simp only [onto, fresh, Bool.or_false]

theorem local_checkSemiColon (s : IStream) : Local (checkSemiColon s) :=
  local_of_same fun _ => rfl

theorem local_nextBlock (s : IStream) : Local (nextBlock s) := by
  intro g
  cases hout : (getNextBlock s g.lineBuffer).2 with
  | error e =>
    rw [nextBlock_error hout, nextBlock_error (g := fresh g.lineBuffer) hout]
    simp only [onto, fresh, Bool.or_false]
  | ok out =>
    rw [nextBlock_ok hout, nextBlock_ok (g := fresh g.lineBuffer) hout]
    simp only [onto, fresh, Bool.or_false]

end Locals

theorem Reading.local {n : ℕ} {α : Type} {m : IStream → ParseM (α × IStream)}
    (h : Reading false n m) (s : IStream) : Local (m s) := by
  induction h generalizing s with
  | done a => exact local_pure (a, s)
  | fail e => exact local_halt _
  | stuck _ => exact local_halt _
  | @word n α dest k _ _ ihnone ihword =>
    refine (local_readWord false dest s).bind ?_
    intro out
    obtain ⟨ret, word, t⟩ := out
    by_cases hret : ret = 0
    · rw [hret]
      exact ihword n word le_rfl nofun t
    · exact ihnone ret word hret t
  | unnamed dest =>
    refine (local_readWord true dest s).bind ?_
    intro out
    show Local (if out.1 ≠ 0 then missing none else pure (out.2.1, out.2.2))
    split
    · exact local_halt _
    · exact local_pure _
  | semicolon => exact local_checkSemiColon s
  | @block n β γ m f c _ hsettled ih =>
    refine (local_nextBlock s).bind fun out => ?_
    refine Local.bind (local_contain c ?_) fun c => local_pure _
    exact (ih out.1).bind fun p => local_settled (hsettled p.1)
  | @bind n α β m f _ _ ihm ihf => exact (ihm s).bind fun p => ihf n p.1 le_rfl p.2

/-- What a run without an error gives from an empty line it gives from every line. It may
go on to rely on what holds of its value as long as it has not read into the line. -/
def Same {α : Type} (m : ParseM α) (P : α → Prop) : Prop :=
  ∀ a, (m (fresh [])).result = .ok a → (m (fresh [])).globals.error = false → ∀ line,
    (m (fresh line)).result = .ok a ∧ (m (fresh line)).globals.error = false ∧
      ((m (fresh line)).globals.lineBuffer = (m (fresh [])).globals.lineBuffer ∨
        (m (fresh line)).globals.lineBuffer = line ∧ (m (fresh [])).globals.lineBuffer = [] ∧ P a)

section Sameness

variable {α β : Type} {m : ParseM α} {f : α → ParseM β} {P : α → Prop} {Q : β → Prop}

theorem same_of_same {result : Except Halt α} {calls : List Call}
    (h : ∀ g, m g = { result := result, globals := g, calls := calls })
    (hP : ∀ a, result = .ok a → P a) : Same m P := by
  intro a hok _ line
  rw [h] at hok ⊢
  rw [h]
  exact ⟨hok, rfl, Or.inr ⟨rfl, rfl, hP a hok⟩⟩

theorem Same.bind (hm : Same m P) (hlocal : ∀ a, Local (f a)) (hf : ∀ a, P a → Same (f a) Q) :
    Same (m >>= f) Q := by
  intro b hok hclean line
  cases hresult : (m (fresh [])).result with
  | error e =>
    rw [bind_of_error hresult] at hok
    cases hok
  | ok a =>
    rw [bind_of_ok hresult] at hok hclean ⊢
    rw [hlocal a (m (fresh [])).globals] at hok hclean ⊢
    dsimp only [onto] at hok hclean
    obtain ⟨hclean₁, hclean₂⟩ := Bool.or_eq_false_iff.mp hclean
    obtain ⟨hresult', hclean', hlines⟩ := hm a hresult hclean₁ line
    rw [bind_of_ok hresult', hlocal a (m (fresh line)).globals]
    dsimp only [onto]
    rw [hclean', Bool.false_or]
    rcases hlines with heq | ⟨hkept, hempty, hP⟩
    · rw [heq]
      exact ⟨hok, hclean₂, Or.inl rfl⟩
    · rw [hempty] at hok hclean₂ ⊢
      rw [hkept]
      exact hf a hP b hok hclean₂ line

theorem same_readWord {s : IStream} (hs : Tidy s.toReader) (nullId : Bool) (dest : Bytes) :
    Same (readWord nullId dest s) fun out => Tidy out.2.2.toReader := by
  cases hread : s.toReader.getNextWord dest with
  | error e => exact same_of_same (fun g => readWord_error hread) nofun
  | ok out =>
    refine same_of_same (fun g => readWord_ok hread) ?_
    intro a ha
    cases ha
    exact (getNextWord_leaves hs hread).1.tidy

/-- A block that is found from an empty line is found on a good stream. -/
theorem same_nextBlock {s : IStream} (hs : Tidy s.toReader) :
    Same (nextBlock s) fun _ => False := by
  intro a hok _ line
  have hgood : s.good = true := by
    rcases hs.cases with ⟨rest, hrest⟩ | ⟨fail, hend⟩
    · rw [hrest]
      rfl
    · have hgood : s.good = false := by
        rw [hend]
        rfl
      obtain ⟨e, he⟩ := @getNextBlock_exhausted s hgood (by rw [hend]) [] nofun
      rw [nextBlock_error (g := fresh []) (by rw [show (fresh []).lineBuffer = [] from rfl, he])]
        at hok
      cases hok
  have hline : getNextBlock s line = getNextBlock s [] := getNextBlock_line hgood line []
  cases hout : (getNextBlock s []).2 with
  | error e =>
    rw [nextBlock_error (g := fresh []) hout] at hok
    cases hok
  | ok out =>
    have hout' : (getNextBlock s (fresh line).lineBuffer).2 = .ok out := by
      rw [show (fresh line).lineBuffer = line from rfl, hline, hout]
    rw [nextBlock_ok (g := fresh []) hout] at hok ⊢
    rw [nextBlock_ok hout']
    refine ⟨hok, rfl, Or.inl ?_⟩
    show (getNextBlock s line).1 = (getNextBlock s []).1
    rw [hline]

end Sameness

/-- A reading that reports no error from an empty line is the same from every line: the
first block it cuts out is on a good stream, and makes the lines equal. -/
theorem Reading.same {n : ℕ} {α : Type} {m : IStream → ParseM (α × IStream)}
    (h : Reading false n m) {s : IStream} (hs : Tidy s.toReader) :
    Same (m s) fun out => Tidy out.2.toReader := by
  induction h generalizing s with
  | done a =>
    refine same_of_same (fun g => rfl) ?_
    intro out hout
    cases hout
    exact hs
  | fail e => exact same_of_same (fun g => rfl) nofun
  | stuck _ => exact same_of_same (fun g => rfl) nofun
  | @word n α dest k hnone hword ihnone ihword =>
    refine (same_readWord hs false dest).bind ?_ ?_
    · intro out
      obtain ⟨ret, word, t⟩ := out
      by_cases hret : ret = 0
      · rw [hret]
        exact Reading.local (hword n word le_rfl nofun) t
      · exact Reading.local (hnone ret word hret) t
    · intro out hout
      obtain ⟨ret, word, t⟩ := out
      by_cases hret : ret = 0
      · rw [hret]
        exact ihword n word le_rfl nofun hout
      · exact ihnone ret word hret hout
  | unnamed dest =>
    refine (same_readWord hs true dest).bind ?_ ?_
    · intro out
      show Local (if out.1 ≠ 0 then missing none else pure (out.2.1, out.2.2))
      split
      · exact local_halt _
      · exact local_pure _
    · intro out hout
      show Same (if out.1 ≠ 0 then missing none else pure (out.2.1, out.2.2)) _
      split
      · exact same_of_same (fun g => rfl) nofun
      · refine same_of_same (fun g => rfl) ?_
        intro a ha
        cases ha
        exact hout
  | semicolon =>
    refine same_of_same (fun g => rfl) ?_
    intro out hout
    cases hout
    exact (checkSemiColon_leaves hs).tidy
  | @block n β γ m f c hm hsettled _ =>
    refine (same_nextBlock hs).bind ?_ fun _ h => h.elim
    intro out
    refine Local.bind (local_contain c ?_) fun c => local_pure _
    exact (Reading.local hm out.1).bind fun p => local_settled (hsettled p.1)
  | @bind n α β m f _ hf ihm ihf =>
    exact (ihm hs).bind (fun p => Reading.local (hf n p.1 le_rfl) p.2) fun p hp => ihf n p.1 le_rfl hp

end Webserveau.HostBlocks
