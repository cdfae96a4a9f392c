import Webserveau.HostBlocks
import Webserveau.JoinedWords

/-!
Directives that occur several times in a block.
Each occurrence is read on its own, by a handler that starts from a new object. Some handlers
join the value that they read to the one that is there. The last directives of a block win
exactly when no value is joined to another one, or a missing value is found out anyway.
-/
namespace Webserveau.RepeatedDirectives

open ByteStrings Formats ConfigWords ConfigBlocks ConfigParser ConfigParser.ParseM WordReading
  HostBlocks JoinedWords

/-- The value of a field. -/
inductive Setting
  | text (value : Bytes)
  | methods (bits : ℕ)
  | flag (on : Bool)
  | size (n : ℤ)
  deriving DecidableEq

/-- A kind of blocks: the handler of its directives, the object that is filled, the field
that a directive sets, and the directives whose values are joined. -/
structure Block (α : Type) where
  handler : α → Bytes → IStream → ParseM (α × IStream)
  initial : α
  setting : α → Bytes → Option Setting
  joined : List Bytes

/-- An occurrence of a directive: its name, what is written behind the name, and what it makes
of a new object; nothing when it has no value. -/
structure Occurrence (α : Type) where
  name : Bytes
  written : Bytes
  object : Option α

/-- What has been read when so much is left. -/
def readFrom (text rest : Bytes) : Bytes := text.take (text.length - rest.length)

namespace Block

variable {α : Type} (b : Block α)

/-- The directives that have to have a value, which are all that set a field but `methods`. -/
def NeedsValue (name : Bytes) : Prop :=
  b.setting b.initial name ≠ none ∧ name ≠ ascii "methods"

/-- The directives of a block, each of which is read as if it were alone. -/
inductive Reads : IStream → Globals → List (Occurrence α) → Prop
  | done {s : IStream} {g : Globals} {word : Bytes} {r : Reader} :
      s.toReader.getNextWord [] = .ok (EOF, word, r) → Reads s g []
  | given {s t : IStream} {g : Globals} {token : Bytes} {r r' : Reader} {o : α}
      {os : List (Occurrence α)} :
      s.toReader.getNextWord [] = .ok (0, token, r) →
      (b.handler b.initial token { s with toReader := r } g).result = .ok (o, t) →
      t.toReader.checkSemiColon = (true, r') →
      Reads { t with toReader := r' }
        (b.handler b.initial token { s with toReader := r } g).globals os →
      Reads s g (⟨token, readFrom r.rest t.rest, some o⟩ :: os)
  | valueless {s : IStream} {g : Globals} {token word : Bytes} {r r₁ r' : Reader} {ret : UInt8}
      {os : List (Occurrence α)} :
      s.toReader.getNextWord [] = .ok (0, token, r) → b.NeedsValue token →
      r.getNextWord [] = .ok (ret, word, r₁) → ret ≠ 0 → r₁.checkSemiColon = (true, r') →
      Reads { s with toReader := r' } g os →
      Reads s g (⟨token, readFrom r.rest r₁.rest, none⟩ :: os)

/-- The object of the last occurrence of a directive. -/
def last (name : Bytes) : List (Occurrence α) → α → α
  | [], d => d
  | x :: os, d => last name os (if x.name = name then x.object.getD d else d)

/-- The block is read to its end, and gives such an object. -/
def Gives (fuel : ℕ) (obj : α) (s : IStream) (g : Globals) (P : α → Prop) : Prop :=
  ∃ obj' t, (parseBlock b.handler fuel obj s g).result = .ok (obj', t) ∧ P obj'

/-- The block is refused. -/
def Fails (fuel : ℕ) (obj : α) (s : IStream) (g : Globals) : Prop :=
  ∃ e, (parseBlock b.handler fuel obj s g).result = .error e ∧ e ≠ .unfinished

/-- Every field has the value that the last directive for it gives when it is alone, and a
directive without a value is an error. -/
def LastWins (s : IStream) (g : Globals) (os : List (Occurrence α)) : Prop :=
  ∀ fuel, os.length < fuel →
    ((∀ x ∈ os, x.object ≠ none) → b.Gives fuel b.initial s g fun obj =>
      ∀ name, b.setting obj name = b.setting (last name os b.initial) name) ∧
    ((∃ x ∈ os, x.object = none) → b.Fails fuel b.initial s g)

/-- A directive whose values are joined occurs although it has a value. -/
def Repeats (seen : List Bytes) : List (Occurrence α) → Prop
  | [] => False
  | x :: os => (x.name ∈ b.joined ∧ x.name ∈ seen) ∨ Repeats (x.name :: seen) os

/-- A directive has no value, and none that its value would be joined to. -/
def Refused (seen : List Bytes) : List (Occurrence α) → Prop
  | [] => False
  | x :: os => (x.object = none ∧ ¬ (x.name ∈ b.joined ∧ x.name ∈ seen)) ∨
      Refused (x.name :: seen) os

/-- No value that is joined to another one is written with two slashes on end. -/
def Plain (seen : List Bytes) : List (Occurrence α) → Prop
  | [] => True
  | x :: os => (x.name ∈ b.joined → x.name ∈ seen → Unslashed x.written) ∧
      Plain (x.name :: seen) os

/-- No directive whose values are joined is repeated, or the directives are read as they stand
and one of them has the block refused. -/
def Prevails (os : List (Occurrence α)) : Prop :=
  ¬ b.Repeats [] os ∨ b.Plain [] os ∧ b.Refused [] os

/-- What a run is like that does the same to another object. -/
def Follows (R : α → α → Prop) (alone actual : Outcome (α × IStream)) : Prop :=
  ∀ o t, alone.result = .ok (o, t) →
    ∃ o', actual.result = .ok (o', t) ∧ actual.globals = alone.globals ∧ R o o'

/-- The directive sets its own field alone. -/
def Keeps (token : Bytes) (obj obj' : α) : Prop :=
  ∀ name, name ≠ token → b.setting obj' name = b.setting obj name

/-- The field of a directive has a value. -/
def Filled (obj : α) (name : Bytes) : Prop := b.setting obj name ≠ b.setting b.initial name

/-- What the handler of a block has to do. -/
structure Lawful : Prop where
  follows : ∀ obj token s g, (token ∈ b.joined → ¬ b.Filled obj token) →
    Follows (fun o o' => b.setting o' token = b.setting o token ∧ b.Keeps token obj o')
      (b.handler b.initial token s g) (b.handler obj token s g)
  fills : ∀ token s g o t, token ∈ b.joined → Tidy s.toReader →
    (b.handler b.initial token s g).result = .ok (o, t) → b.Filled o token
  joins : ∀ obj token s g o t, token ∈ b.joined → b.Filled obj token → Tidy s.toReader →
    (b.handler b.initial token s g).result = .ok (o, t) → t.rest ≠ [] →
    Unslashed (readFrom s.rest t.rest) →
    ∃ o', (b.handler obj token s g).result = .ok (o', t) ∧
      (b.handler obj token s g).globals = (b.handler b.initial token s g).globals ∧
      b.setting o' token ≠ b.setting o token ∧ b.Filled o' token ∧ b.Keeps token obj o'
  refuses : ∀ obj token s g ret word r, b.NeedsValue token →
    (token ∈ b.joined → ¬ b.Filled obj token) → s.toReader.getNextWord [] = .ok (ret, word, r) →
    ret ≠ 0 → ∃ e, (b.handler obj token s g).result = .error e ∧ e ≠ .unfinished
  accepts : ∀ obj token s g ret word r, token ∈ b.joined → b.Filled obj token →
    Tidy s.toReader → s.toReader.getNextWord [] = .ok (ret, word, r) → r.rest ≠ [] →
    Unslashed (readFrom s.rest r.rest) →
    ∃ o', (b.handler obj token s g).result = .ok (o', { s with toReader := r }) ∧
      (b.handler obj token s g).globals = g ∧ b.Filled o' token ∧ b.Keeps token obj o'

end Block

section Turns

variable {α : Type} {handler : α → Bytes → IStream → ParseM (α × IStream)} {obj obj' : α}
  {s t : IStream} {g : Globals} {token : Bytes} {r r' : Reader}

/-- A semicolon is found on a good stream. -/
theorem semicolon_found {r r' : Reader} (h : r.checkSemiColon = (true, r')) :
    Tidy r' ∧ r.rest ≠ [] := by
  by_cases hgood : r.good = true
  · obtain ⟨rest, heof, hfail⟩ := r
    obtain ⟨rfl, rfl⟩ := (BlockExtraction.good_iff _).mp hgood
    unfold Reader.checkSemiColon at h
    rw [skipSpace_good] at h
    cases hdrop : rest.dropWhile isspace with
    | nil =>
      rw [hdrop] at h
      cases h
    | cons c rest' =>
      rw [hdrop] at h
      have hfound : (if some c = some 59 then (true, (⟨rest', false, false⟩ : Reader))
          else (false, ⟨c :: rest', false, false⟩)) = (true, r') := h
      split at hfound
      · cases hfound
        refine ⟨tidy_good rest', ?_⟩
        rintro rfl
        cases hdrop
      · cases hfound
  · have hnone : r.checkSemiColon.1 = false := by
      unfold Reader.checkSemiColon Reader.skipSpace
      rw [if_neg hgood]
      have hbad : ({ r with fail := true } : Reader).good = false := by
        simp [Reader.good]
      simp [Reader.peek, hbad]
    rw [h] at hnone
    cases hnone

/-- The next directive is handled, and is followed by a semicolon. -/
theorem parseBlock_word {fuel : ℕ} (hword : s.toReader.getNextWord [] = .ok (0, token, r)) :
    (parseBlock handler (fuel + 1) obj s g).result =
      ((handler obj token { s with toReader := r } >>= fun p => checkSemiColon p.2 >>= fun q =>
        if q.1 then parseBlock handler fuel p.1 q.2 else throw .missingSemicolon) g).result := by
  have hread : readWord false [] s g = _ := readWord_ok hword
  rw [parseBlock, bind_of_ok (by rw [hread]), hread]
  rfl

theorem parseBlock_given {fuel : ℕ} (hword : s.toReader.getNextWord [] = .ok (0, token, r))
    (hrun : (handler obj token { s with toReader := r } g).result = .ok (obj', t))
    (hsemicolon : t.toReader.checkSemiColon = (true, r')) :
    (parseBlock handler (fuel + 1) obj s g).result =
      (parseBlock handler fuel obj' { t with toReader := r' }
        (handler obj token { s with toReader := r } g).globals).result := by
  have hfound : ∀ g', (checkSemiColon t g').result = .ok (true, { t with toReader := r' }) := by
    intro g'
    unfold ConfigParser.checkSemiColon
    rw [hsemicolon]
  rw [parseBlock_word hword, bind_of_ok hrun]
  dsimp only
  rw [bind_of_ok (hfound _)]
  rfl

theorem parseBlock_refused {fuel : ℕ} {e : Halt}
    (hword : s.toReader.getNextWord [] = .ok (0, token, r))
    (hrun : (handler obj token { s with toReader := r } g).result = .error e) :
    (parseBlock handler (fuel + 1) obj s g).result = .error e := by
  rw [parseBlock_word hword, bind_of_error hrun]

theorem parseBlock_done {fuel : ℕ} {word : Bytes}
    (hword : s.toReader.getNextWord [] = .ok (EOF, word, r)) :
    (parseBlock handler (fuel + 1) obj s g).result = .ok (obj, { s with toReader := r }) := by
  have hread : readWord false [] s g = _ := readWord_ok hword
  rw [parseBlock, bind_of_ok (by rw [hread]), hread]
  rfl

end Turns

namespace Block

variable {α : Type} {b : Block α} {seen : List Bytes} {name token : Bytes}
  {os : List (Occurrence α)} {obj o o' d : α} {s : IStream} {g : Globals} {fuel : ℕ}

/-- The seen directives whose values are joined are those that have a value. -/
def Tracks (b : Block α) (seen : List Bytes) (obj : α) : Prop :=
  ∀ name ∈ b.joined, name ∈ seen ↔ b.Filled obj name

theorem tracks_initial (b : Block α) : b.Tracks [] b.initial := by
  intro name _
  constructor
  · intro hseen
    cases hseen
  · intro hfilled
    exact absurd rfl hfilled

theorem Tracks.step (h : b.Tracks seen obj) (hkeeps : b.Keeps token obj o')
    (hfilled : token ∈ b.joined → b.Filled o' token) : b.Tracks (token :: seen) o' := by
  intro name hname
  rw [List.mem_cons]
  by_cases htoken : name = token
  · subst htoken
    exact ⟨fun _ => hfilled hname, fun _ => Or.inl rfl⟩
  · have hold : b.Filled o' name ↔ b.Filled obj name := by
      unfold Filled
      rw [hkeeps name htoken]
    rw [hold, ← h name hname]
    exact or_iff_right htoken

theorem repeats_of_seen (hname : name ∈ b.joined) (hseen : name ∈ seen)
    (hx : ∃ x ∈ os, x.name = name) : b.Repeats seen os := by
  induction os generalizing seen with
  | nil =>
    obtain ⟨x, hx, -⟩ := hx
    cases hx
  | cons y os ih =>
    obtain ⟨x, hx, rfl⟩ := hx
    rcases List.mem_cons.mp hx with rfl | hx
    · exact Or.inl ⟨hname, hseen⟩
    · exact Or.inr (ih (List.mem_cons_of_mem _ hseen) ⟨x, hx, rfl⟩)

theorem last_absent (h : ∀ x ∈ os, x.name ≠ name) (d : α) : last name os d = d := by
  induction os generalizing d with
  | nil => rfl
  | cons x os ih =>
    unfold last
    rw [if_neg (h x (List.mem_cons_self ..))]
    exact ih (fun y hy => h y (List.mem_cons_of_mem _ hy)) d

theorem refused_valueless (h : b.Refused seen os) : ∃ x ∈ os, x.object = none := by
  induction os generalizing seen with
  | nil => exact h.elim
  | cons x os ih =>
    rcases h with h | h
    · exact ⟨x, List.mem_cons_self .., h.1⟩
    · obtain ⟨y, hy, hnone⟩ := ih h
      exact ⟨y, List.mem_cons_of_mem _ hy, hnone⟩

section Runs

variable {r r' : Reader} {t : IStream}

theorem not_repeats_tail {x : Occurrence α} (h : ¬ b.Repeats seen (x :: os)) :
    ¬ b.Repeats (x.name :: seen) os := fun hos => h (Or.inr hos)

theorem valued_tail {x : Occurrence α} (h : ∀ y ∈ x :: os, y.object ≠ none) :
    ∀ y ∈ os, y.object ≠ none := fun y hy => h y (List.mem_cons_of_mem _ hy)

theorem valueless_tail {x : Occurrence α} (hx : x.object ≠ none)
    (h : ∃ y ∈ x :: os, y.object = none) : ∃ y ∈ os, y.object = none := by
  obtain ⟨y, hy, hnone⟩ := h
  rcases List.mem_cons.mp hy with rfl | hy
  · exact absurd hnone hx
  · exact ⟨y, hy, hnone⟩

/-- What is known of the object when a directive has been read that is not joined. -/
theorem agrees_step (hsetting : b.setting o' token = b.setting o token)
    (hkeeps : b.Keeps token obj o') (h : b.setting obj name = b.setting d name) :
    b.setting o' name = b.setting (if token = name then o else d) name := by
  split
  · rename_i htoken
    rw [← htoken]
    exact hsetting
  · rename_i htoken
    rw [hkeeps name (Ne.symm htoken)]
    exact h

/-- Where no value is joined to another one, the last directives win. -/
theorem lastWins_of_distinct (hb : b.Lawful) (hreads : b.Reads s g os)
    (htracks : ∀ name ∈ b.joined, b.Filled obj name → name ∈ seen)
    (hdistinct : ¬ b.Repeats seen os) (hfuel : os.length < fuel) :
    ((∀ x ∈ os, x.object ≠ none) → b.Gives fuel obj s g fun obj' =>
      ∀ d name, b.setting obj name = b.setting d name →
        b.setting obj' name = b.setting (last name os d) name) ∧
    ((∃ x ∈ os, x.object = none) → b.Fails fuel obj s g) := by
  induction hreads generalizing obj seen fuel with
  | done hword =>
    obtain ⟨fuel, rfl⟩ : ∃ k, fuel = k + 1 := ⟨fuel - 1, by omega⟩
    constructor
    · intro _
      exact ⟨obj, _, parseBlock_done hword, fun d name h => h⟩
    · rintro ⟨x, hx, -⟩
      cases hx
  | @given s t g token r r' o os hword hrun hsemicolon hreads ih =>
    obtain ⟨fuel, rfl⟩ : ∃ k, fuel = k + 1 := ⟨fuel - 1, by omega⟩
    rw [List.length_cons] at hfuel
    have hempty : token ∈ b.joined → ¬ b.Filled obj token :=
      fun htoken hfilled => hdistinct (Or.inl ⟨htoken, htracks token htoken hfilled⟩)
    obtain ⟨o', hrun', hglobals, hsetting, hkeeps⟩ :=
      hb.follows obj token { s with toReader := r } g hempty o t hrun
    have htracks' : ∀ name ∈ b.joined, b.Filled o' name → name ∈ token :: seen := by
      intro name hname hfilled
      by_cases htoken : name = token
      · exact List.mem_cons.mpr (Or.inl htoken)
      · apply List.mem_cons_of_mem
        apply htracks name hname
        unfold Filled at hfilled ⊢
        rw [← hkeeps name htoken]
        exact hfilled
    have hless : os.length < fuel := by omega
    obtain ⟨hgives, hfails⟩ := ih htracks' (not_repeats_tail hdistinct) hless
    unfold Gives at hgives ⊢
    unfold Fails at hfails ⊢
    rw [parseBlock_given hword hrun' hsemicolon, hglobals]
    constructor
    · intro hvalued
      obtain ⟨obj', t', hresult, hlast⟩ := hgives (valued_tail hvalued)
      refine ⟨obj', t', hresult, ?_⟩
      intro d name hd
      exact hlast _ name (agrees_step hsetting hkeeps hd)
    · intro hvalueless
      exact hfails (valueless_tail (Option.some_ne_none o) hvalueless)
  | @valueless s g token word r r₁ r' ret os hword hneeds hvalue hret hsemicolon hreads ih =>
    obtain ⟨fuel, rfl⟩ : ∃ k, fuel = k + 1 := ⟨fuel - 1, by omega⟩
    have hempty : token ∈ b.joined → ¬ b.Filled obj token :=
      fun htoken hfilled => hdistinct (Or.inl ⟨htoken, htracks token htoken hfilled⟩)
    obtain ⟨e, hrun, he⟩ :=
      hb.refuses obj token { s with toReader := r } g ret word r₁ hneeds hempty hvalue hret
    constructor
    · intro hvalued
      exact absurd rfl (hvalued _ (List.mem_cons_self ..))
    · intro _
      exact ⟨e, parseBlock_refused hword hrun, he⟩

/-- The other fields stay as they were, and one field has not the value of the last directive
where values are joined. -/
structure Differs (b : Block α) (seen : List Bytes) (obj : α) (os : List (Occurrence α))
    (obj' : α) : Prop where
  frame : ∀ name, (∀ x ∈ os, x.name ≠ name) → b.setting obj' name = b.setting obj name
  differs : (∀ x ∈ os, x.object ≠ none) → b.Repeats seen os →
    ∃ name, ∀ d, b.setting obj' name ≠ b.setting (last name os d) name

theorem Differs.step {x : Occurrence α} {obj' : α} (hkeeps : b.Keeps x.name obj o')
    (hjoined : x.name ∈ b.joined → x.name ∈ seen → ∀ o, x.object = some o →
      b.setting o' x.name ≠ b.setting o x.name)
    (h : b.Differs (x.name :: seen) o' os obj') : b.Differs seen obj (x :: os) obj' := by
  refine ⟨?_, ?_⟩
  · intro name hname
    rw [h.frame name fun y hy => hname y (List.mem_cons_of_mem _ hy)]
    exact hkeeps name (Ne.symm (hname x (List.mem_cons_self ..)))
  · intro hvalued hrepeats
    by_cases hlater : b.Repeats (x.name :: seen) os
    · obtain ⟨name, hname⟩ := h.differs (valued_tail hvalued) hlater
      exact ⟨name, fun d => hname _⟩
    · -- the value that was joined last is the one that is there in the end
      obtain ⟨hname, hseen⟩ := hrepeats.resolve_right hlater
      have habsent : ∀ y ∈ os, y.name ≠ x.name := by
        intro y hy hyname
        exact hlater (repeats_of_seen hname (List.mem_cons_self ..) ⟨y, hy, hyname⟩)
      obtain ⟨o, ho⟩ := Option.ne_none_iff_exists'.mp (hvalued x (List.mem_cons_self ..))
      refine ⟨x.name, ?_⟩
      intro d
      have hlast : last x.name (x :: os) d = o := by
        unfold last
        rw [if_pos rfl, ho, last_absent habsent]
        rfl
      rw [h.frame x.name habsent, hlast]
      exact hjoined hname hseen o ho

/-- What is known of the directives behind one that is handled is known with it. -/
theorem joined_step {x : Occurrence α} {t : IStream} {g' : Globals}
    (hkeeps : b.Keeps x.name obj o')
    (hjoined : x.name ∈ b.joined → x.name ∈ seen → ∀ o, x.object = some o →
      b.setting o' x.name ≠ b.setting o x.name)
    (hvalue : ¬ (x.object = none ∧ ¬ (x.name ∈ b.joined ∧ x.name ∈ seen)))
    (hresult : (parseBlock b.handler (fuel + 1) obj s g).result =
      (parseBlock b.handler fuel o' t g').result)
    (h : (b.Refused (x.name :: seen) os → b.Fails fuel o' t g') ∧
      (¬ b.Refused (x.name :: seen) os →
        b.Gives fuel o' t g' (b.Differs (x.name :: seen) o' os))) :
    (b.Refused seen (x :: os) → b.Fails (fuel + 1) obj s g) ∧
      (¬ b.Refused seen (x :: os) →
        b.Gives (fuel + 1) obj s g (b.Differs seen obj (x :: os))) := by
  obtain ⟨hfails, hgives⟩ := h
  unfold Gives at hgives ⊢
  unfold Fails at hfails ⊢
  rw [hresult]
  constructor
  · rintro (hnone | hrefused)
    · exact absurd hnone hvalue
    · exact hfails hrefused
  · intro hrefused
    obtain ⟨obj', t', hresult', hdiffers⟩ := hgives fun h => hrefused (Or.inr h)
    exact ⟨obj', t', hresult', hdiffers.step hkeeps hjoined⟩

/-- A block is refused exactly when a directive has no value and none to join it to. Where it
is not, and values are joined, some field has another value than the last directive gives. -/
theorem joined_differ (hb : b.Lawful) (hreads : b.Reads s g os) (hs : Tidy s.toReader)
    (htracks : b.Tracks seen obj) (hplain : b.Plain seen os) (hfuel : os.length < fuel) :
    (b.Refused seen os → b.Fails fuel obj s g) ∧
    (¬ b.Refused seen os → b.Gives fuel obj s g (b.Differs seen obj os)) := by
  induction hreads generalizing obj seen fuel with
  | done hword =>
    obtain ⟨fuel, rfl⟩ : ∃ k, fuel = k + 1 := ⟨fuel - 1, by omega⟩
    refine ⟨False.elim, ?_⟩
    intro _
    exact ⟨obj, _, parseBlock_done hword, fun _ _ => rfl, fun _ hrepeats => hrepeats.elim⟩
  | @given s t g token r r' o os hword hrun hsemicolon hreads ih =>
    obtain ⟨fuel, rfl⟩ : ∃ k, fuel = k + 1 := ⟨fuel - 1, by omega⟩
    rw [List.length_cons] at hfuel
    have hless : os.length < fuel := by omega
    obtain ⟨hwritten, hplain⟩ := hplain
    obtain ⟨hr', hsome⟩ := semicolon_found hsemicolon
    have hr : Tidy r := (getNextWord_leaves hs hword).1.tidy
    obtain ⟨o', hrun', hglobals, hkeeps, hfilled, hjoined⟩ : ∃ o',
        (b.handler obj token { s with toReader := r } g).result = .ok (o', t) ∧
        (b.handler obj token { s with toReader := r } g).globals =
          (b.handler b.initial token { s with toReader := r } g).globals ∧
        b.Keeps token obj o' ∧ (token ∈ b.joined → b.Filled o' token) ∧
        (token ∈ b.joined → token ∈ seen → b.setting o' token ≠ b.setting o token) := by
      by_cases hjoined : token ∈ b.joined ∧ token ∈ seen
      · obtain ⟨htoken, hseen⟩ := hjoined
        obtain ⟨o', hrun', hglobals, hdiffers, hfilled, hkeeps⟩ :=
          hb.joins obj token { s with toReader := r } g o t htoken
            ((htracks token htoken).mp hseen) hr hrun hsome (hwritten htoken hseen)
        exact ⟨o', hrun', hglobals, hkeeps, fun _ => hfilled, fun _ _ => hdiffers⟩
      · have hempty : token ∈ b.joined → ¬ b.Filled obj token :=
          fun htoken hfilled => hjoined ⟨htoken, (htracks token htoken).mpr hfilled⟩
        obtain ⟨o', hrun', hglobals, hsetting, hkeeps⟩ :=
          hb.follows obj token { s with toReader := r } g hempty o t hrun
        refine ⟨o', hrun', hglobals, hkeeps, ?_, fun htoken hseen => absurd ⟨htoken, hseen⟩ hjoined⟩
        intro htoken
        have hfilled := hb.fills token { s with toReader := r } g o t htoken hr hrun
        unfold Filled at hfilled ⊢
        rw [hsetting]
        exact hfilled
    have hresult := @parseBlock_given _ _ _ _ _ _ g _ _ _ fuel hword hrun' hsemicolon
    rw [hglobals] at hresult
    apply joined_step hkeeps ?_ ?_ hresult (ih hr' (htracks.step hkeeps hfilled) hplain hless)
    · rintro htoken hseen _ ⟨⟩
      exact hjoined htoken hseen
    · intro hnone
      exact absurd hnone.1 (Option.some_ne_none o)
  | @valueless s g token word r r₁ r' ret os hword hneeds hvalue hret hsemicolon hreads ih =>
    obtain ⟨fuel, rfl⟩ : ∃ k, fuel = k + 1 := ⟨fuel - 1, by omega⟩
    rw [List.length_cons] at hfuel
    have hless : os.length < fuel := by omega
    obtain ⟨hwritten, hplain⟩ := hplain
    obtain ⟨hr', hsome⟩ := semicolon_found hsemicolon
    have hr : Tidy r := (getNextWord_leaves hs hword).1.tidy
    by_cases hjoined : token ∈ b.joined ∧ token ∈ seen
    · obtain ⟨htoken, hseen⟩ := hjoined
      obtain ⟨o', hrun, hglobals, hfilled, hkeeps⟩ :=
        hb.accepts obj token { s with toReader := r } g ret word r₁ htoken
          ((htracks token htoken).mp hseen) hr hvalue hsome (hwritten htoken hseen)
      have hresult := @parseBlock_given _ _ _ _ _ _ g _ _ _ fuel hword hrun hsemicolon
      rw [hglobals] at hresult
      apply joined_step hkeeps ?_ ?_ hresult
        (ih hr' (htracks.step hkeeps fun _ => hfilled) hplain hless)
      · rintro - - _ ⟨⟩
      · intro hnone
        exact absurd ⟨htoken, hseen⟩ hnone.2
    · have hempty : token ∈ b.joined → ¬ b.Filled obj token :=
        fun htoken hfilled => hjoined ⟨htoken, (htracks token htoken).mpr hfilled⟩
      obtain ⟨e, hrun, he⟩ :=
        hb.refuses obj token { s with toReader := r } g ret word r₁ hneeds hempty hvalue hret
      constructor
      · intro _
        exact ⟨e, parseBlock_refused hword hrun, he⟩
      · intro hrefused
        exact absurd (Or.inl ⟨rfl, hjoined⟩) hrefused

/-- The last directives win where no value is joined to another one, or the block is refused
anyway. -/
theorem Lawful.lastWins (hb : b.Lawful) (hreads : b.Reads s g os) (h : ¬ b.Repeats [] os) :
    b.LastWins s g os := by
  intro fuel hfuel
  have hempty : ∀ name ∈ b.joined, b.Filled b.initial name → name ∈ ([] : List Bytes) :=
    fun name _ hfilled => absurd rfl hfilled
  obtain ⟨hgives, hfails⟩ := lastWins_of_distinct hb hreads hempty h hfuel
  refine ⟨?_, hfails⟩
  intro hvalued
  obtain ⟨obj', t, hresult, hlast⟩ := hgives hvalued
  exact ⟨obj', t, hresult, fun name => hlast b.initial name rfl⟩

/-- A block that is refused in any case has no directive to win. -/
theorem Lawful.lastWins_of_refused (hb : b.Lawful) (hreads : b.Reads s g os) (hs : Tidy s.toReader)
    (hplain : b.Plain [] os) (hrefused : b.Refused [] os) : b.LastWins s g os := by
  intro fuel hfuel
  constructor
  · intro hvalued
    obtain ⟨x, hx, hnone⟩ := refused_valueless hrefused
    exact absurd hnone (hvalued x hx)
  · intro _
    exact (joined_differ hb hreads hs (tracks_initial b) hplain hfuel).1 hrefused

/-- Where the directives are read as they stand, the last ones win nowhere else. -/
theorem Lawful.lastWins_prevails (hb : b.Lawful) (hreads : b.Reads s g os)
    (hs : Tidy s.toReader) :
    (b.Prevails os → b.LastWins s g os) ∧ (b.Plain [] os → b.LastWins s g os → b.Prevails os) := by
  constructor
  · rintro (hdistinct | ⟨hplain, hrefused⟩)
    · exact hb.lastWins hreads hdistinct
    · exact hb.lastWins_of_refused hreads hs hplain hrefused
  · intro hplain hwins
    by_contra hneither
    obtain ⟨hrepeats, hrefuses⟩ := not_or.mp hneither
    have hrefused : ¬ b.Refused [] os := fun h => hrefuses ⟨hplain, h⟩
    obtain ⟨hgives, hfails⟩ := hwins (os.length + 1) (Nat.lt_succ_self _)
    obtain ⟨obj', t, hresult, hdiffers⟩ :=
      (joined_differ hb hreads hs (tracks_initial b) hplain (Nat.lt_succ_self _)).2 hrefused
    by_cases hvalueless : ∃ x ∈ os, x.object = none
    · obtain ⟨e, herror, -⟩ := hfails hvalueless
      rw [hresult] at herror
      cases herror
    · have hvalued : ∀ x ∈ os, x.object ≠ none := fun x hx hnone => hvalueless ⟨x, hx, hnone⟩
      obtain ⟨name, hname⟩ := hdiffers.differs hvalued (not_not.mp hrepeats)
      obtain ⟨obj, t', hresult', hlast⟩ := hgives hvalued
      rw [hresult] at hresult'
      cases hresult'
      exact hname b.initial (hlast name)

end Runs

end Block

end Webserveau.RepeatedDirectives
