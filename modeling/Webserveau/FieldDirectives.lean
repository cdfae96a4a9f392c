import Webserveau.RepeatedDirectives

/-!
Directives that set a field.
Some read a path behind the value that the field has, so that the two are joined. The others
do the same whatever there is. Blocks of such directives are those whose last directives win
where no values are joined.
-/
namespace Webserveau.FieldDirectives

open ByteStrings OrderedMaps Formats Requests Registries ConfigWords ConfigBlocks ConfigParser
  ConfigParser.ParseM WordReading HostBlocks JoinedWords RepeatedDirectives

section Words

variable {s t : IStream} {g : Globals} {dest word : Bytes} {id : Option String}
  {restrictEnd : Option UInt8} {r : Reader} {ret : UInt8}

theorem requiredWord_ok (id : Option String) (g : Globals)
    (h : s.toReader.getNextWord dest = .ok (0, word, r)) :
    (requiredWord dest id s g).result = .ok (word, { s with toReader := r }) ∧
      (requiredWord dest id s g).globals = g := by
  have hread : readWord id.isNone dest s g = _ := readWord_ok h
  unfold requiredWord
  rw [bind_of_ok (by rw [hread]), hread]
  exact ⟨rfl, rfl⟩

theorem requiredWord_missing (id : Option String) (g : Globals)
    (h : s.toReader.getNextWord dest = .ok (ret, word, r)) (hret : ret ≠ 0) :
    ∃ e, (requiredWord dest id s g).result = .error e ∧ e ≠ .unfinished := by
  have hread : readWord id.isNone dest s g = _ := readWord_ok h
  unfold requiredWord
  rw [bind_of_ok (by rw [hread]), hread]
  dsimp only
  rw [if_pos hret]
  cases id with
  | none => exact ⟨.logicError, rfl, nofun⟩
  | some id => exact ⟨.exception (.missingToken id), rfl, nofun⟩

theorem requiredWord_reads (h : (requiredWord dest id s g).result = .ok (word, t)) :
    ∃ r, s.toReader.getNextWord dest = .ok (0, word, r) ∧ t = { s with toReader := r } := by
  cases hread : s.toReader.getNextWord dest with
  | error e =>
    have hword : readWord id.isNone dest s g = _ := readWord_error hread
    unfold requiredWord at h
    rw [bind_of_error (by rw [hword])] at h
    cases h
  | ok out =>
    obtain ⟨ret, w, r⟩ := out
    by_cases hret : ret = 0
    · subst hret
      rw [(requiredWord_ok id g hread).1] at h
      cases h
      exact ⟨r, rfl, rfl⟩
    · obtain ⟨e, he, -⟩ := requiredWord_missing id g hread hret
      rw [he] at h
      cases h

theorem parsePath_ok (id : Option String) (restrictEnd : Option UInt8) (g : Globals)
    (h : s.toReader.getNextWord dest = .ok (0, word, r)) :
    (parsePath dest id restrictEnd s g).result =
        .ok (endPath restrictEnd word, { s with toReader := r }) ∧
      (parsePath dest id restrictEnd s g).globals = g := by
  obtain ⟨hresult, hglobals⟩ := requiredWord_ok id g h
  unfold parsePath
  rw [bind_of_ok hresult, hglobals]
  exact ⟨rfl, rfl⟩

theorem parsePath_missing (id : Option String) (restrictEnd : Option UInt8) (g : Globals)
    (h : s.toReader.getNextWord dest = .ok (ret, word, r)) (hret : ret ≠ 0) :
    ∃ e, (parsePath dest id restrictEnd s g).result = .error e ∧ e ≠ .unfinished := by
  obtain ⟨e, hresult, he⟩ := requiredWord_missing id g h hret
  unfold parsePath
  rw [bind_of_error hresult]
  exact ⟨e, rfl, he⟩

theorem parsePath_reads {path : Bytes}
    (h : (parsePath dest id restrictEnd s g).result = .ok (path, t)) :
    ∃ word r, s.toReader.getNextWord dest = .ok (0, word, r) ∧
      path = endPath restrictEnd word ∧ t = { s with toReader := r } := by
  cases hword : (requiredWord dest id s g).result with
  | error e =>
    unfold parsePath at h
    rw [bind_of_error hword] at h
    cases h
  | ok out =>
    obtain ⟨word, t'⟩ := out
    obtain ⟨r, hread, rfl⟩ := requiredWord_reads hword
    rw [(parsePath_ok id restrictEnd g hread).1] at h
    cases h
    exact ⟨word, r, hread, rfl, rfl⟩

/-- What need not end in any character is read as a word is. -/
theorem parsePath_none (dest : Bytes) (id : Option String) (s : IStream) :
    parsePath dest id none s = requiredWord dest id s := by
  funext g
  unfold parsePath
  cases hword : (requiredWord dest id s g).result with
  | error e =>
    rw [bind_of_error hword, ← hword]
  | ok out =>
    obtain ⟨word, t⟩ := out
    have hdone : (pure (endPath none word, t) : ParseM (Bytes × IStream))
        (requiredWord dest id s g).globals =
        { result := .ok (word, t), globals := (requiredWord dest id s g).globals } := rfl
    rw [bind_of_ok hword]
    dsimp only
    rw [hdone, List.append_nil, ← hword]

theorem readFrom_append {r r' : Reader} (h : Tidy r)
    (hread : r.getNextWord dest = .ok (ret, word, r')) :
    r.rest = readFrom r.rest r'.rest ++ r'.rest := by
  obtain ⟨x, hx⟩ := (getNextWord_leaves h hread).1.suffix
  have hwritten : readFrom r.rest r'.rest = x := by
    unfold readFrom
    rw [← hx, List.length_append, Nat.add_sub_cancel]
    exact List.take_left' rfl
  rw [hwritten, hx]

/-- A path keeps what its beginning is. -/
theorem endPath_append (restrictEnd : Option UInt8) (dest : Bytes) (h : word ≠ []) :
    endPath restrictEnd (dest ++ word) = dest ++ endPath restrictEnd word := by
  cases restrictEnd with
  | none => rfl
  | some c =>
    have hne : dest ++ word ≠ [] := by simp [h]
    have hlast : (dest ++ word).getLast? = word.getLast? := by
      rw [List.getLast?_append]
      obtain ⟨x, hx⟩ := Option.ne_none_iff_exists'.mp (mt List.getLast?_eq_none_iff.mp h)
      rw [hx]
      rfl
    unfold endPath
    dsimp only
    rw [hlast]
    by_cases hc : word.getLast? = some c
    · rw [if_neg fun hends => hends.2 hc, if_neg fun hends => hends.2 hc]
    · rw [if_pos ⟨hne, hc⟩, if_pos ⟨h, hc⟩, List.append_assoc]

theorem endPath_ne_nil (restrictEnd : Option UInt8) (h : word ≠ []) :
    endPath restrictEnd word ≠ [] := by
  cases restrictEnd with
  | none => exact h
  | some c =>
    unfold endPath
    dsimp only
    split
    · simp
    · exact h

end Words

section Fields

variable {α β : Type} {b : Block α} {token : Bytes}

/-- A directive that reads a path behind the value that its field has. -/
structure JoinedField (b : Block α) (token : Bytes) where
  get : α → Bytes
  set : α → Bytes → α
  id : Option String
  restrictEnd : Option UInt8
  handles : ∀ obj s, b.handler obj token s =
    parsePath (get obj) id restrictEnd s >>= fun p => pure (set obj p.1, p.2)
  get_set : ∀ obj value, get (set obj value) = value
  unset : get b.initial = []
  setting : ∀ obj, b.setting obj token = some (.text (get obj))
  keeps : ∀ obj value, b.Keeps token obj (set obj value)

/-- A directive that does the same whatever its field has been. -/
structure FreshField (b : Block α) (token : Bytes) : Prop where
  follows : ∀ obj s g,
    Block.Follows (fun o o' => b.setting o' token = b.setting o token ∧ b.Keeps token obj o')
      (b.handler b.initial token s g) (b.handler obj token s g)
  refuses : ∀ obj s g ret word r, b.NeedsValue token →
    s.toReader.getNextWord [] = .ok (ret, word, r) → ret ≠ 0 →
    ∃ e, (b.handler obj token s g).result = .error e ∧ e ≠ .unfinished

/-- Nothing is left of a block. -/
theorem reads_nothing (text : Bytes) (offset : ℕ) (g : Globals) :
    b.Reads { rest := [], text := text, offset := offset } g [] := by
  have hend : (⟨[], false, false⟩ : Reader).getNextWord [] = .ok (EOF, [], ⟨[], true, true⟩) := by
    decide
  exact .done hend

namespace JoinedField

variable {obj o : α} {s t : IStream} {g : Globals} {word : Bytes} {r : Reader} {ret : UInt8}

theorem filled_iff (f : JoinedField b token) : b.Filled obj token ↔ f.get obj ≠ [] := by
  unfold Block.Filled
  rw [f.setting, f.setting, f.unset]
  simp

theorem handled (f : JoinedField b token) (g : Globals)
    (h : s.toReader.getNextWord (f.get obj) = .ok (0, word, r)) :
    (b.handler obj token s g).result =
        .ok (f.set obj (endPath f.restrictEnd word), { s with toReader := r }) ∧
      (b.handler obj token s g).globals = g := by
  obtain ⟨hresult, hglobals⟩ := parsePath_ok f.id f.restrictEnd g h
  rw [f.handles, bind_of_ok hresult, hglobals]
  exact ⟨rfl, rfl⟩

theorem missing (f : JoinedField b token) (g : Globals)
    (h : s.toReader.getNextWord (f.get obj) = .ok (ret, word, r)) (hret : ret ≠ 0) :
    ∃ e, (b.handler obj token s g).result = .error e ∧ e ≠ .unfinished := by
  obtain ⟨e, hresult, he⟩ := parsePath_missing f.id f.restrictEnd g h hret
  rw [f.handles, bind_of_error hresult]
  exact ⟨e, rfl, he⟩

theorem reads (f : JoinedField b token) (h : (b.handler obj token s g).result = .ok (o, t)) :
    ∃ word r, s.toReader.getNextWord (f.get obj) = .ok (0, word, r) ∧
      o = f.set obj (endPath f.restrictEnd word) ∧ t = { s with toReader := r } := by
  rw [f.handles] at h
  cases hpath : (parsePath (f.get obj) f.id f.restrictEnd s g).result with
  | error e =>
    rw [bind_of_error hpath] at h
    cases h
  | ok out =>
    obtain ⟨path, t'⟩ := out
    obtain ⟨word, r, hread, rfl, rfl⟩ := parsePath_reads hpath
    rw [bind_of_ok hpath] at h
    cases h
    exact ⟨word, r, hread, rfl, rfl⟩

theorem alone (f : JoinedField b token)
    (h : (b.handler b.initial token s g).result = .ok (o, t)) :
    ∃ word r, s.toReader.getNextWord [] = .ok (0, word, r) ∧
      o = f.set b.initial (endPath f.restrictEnd word) ∧ t = { s with toReader := r } := by
  obtain ⟨word, r, hread, ho, ht⟩ := f.reads h
  rw [f.unset] at hread
  exact ⟨word, r, hread, ho, ht⟩

theorem unfilled (f : JoinedField b token) (h : ¬ b.Filled obj token) : f.get obj = [] := by
  by_contra hne
  exact h (f.filled_iff.mpr hne)

theorem handled_initial (f : JoinedField b token) (g : Globals)
    (h : s.toReader.getNextWord [] = .ok (0, word, r)) :
    (b.handler b.initial token s g).result =
        .ok (f.set b.initial (endPath f.restrictEnd word), { s with toReader := r }) ∧
      (b.handler b.initial token s g).globals = g := by
  apply f.handled
  rw [f.unset]
  exact h

theorem setting_set (f : JoinedField b token) (obj : α) (value : Bytes) :
    b.setting (f.set obj value) token = some (.text value) := by
  rw [f.setting, f.get_set]

theorem joins (f : JoinedField b token) (hfilled : b.Filled obj token) (hs : Tidy s.toReader)
    (hrun : (b.handler b.initial token s g).result = .ok (o, t)) (hrest : t.rest ≠ [])
    (hplain : Unslashed (readFrom s.rest t.rest)) :
    ∃ o', (b.handler obj token s g).result = .ok (o', t) ∧
      (b.handler obj token s g).globals = (b.handler b.initial token s g).globals ∧
      b.setting o' token ≠ b.setting o token ∧ b.Filled o' token ∧ b.Keeps token obj o' := by
  obtain ⟨word, r, hread, rfl, rfl⟩ := f.alone hrun
  have hdest : f.get obj ≠ [] := f.filled_iff.mp hfilled
  have hword : word ≠ [] := getNextWord_ne_nil hs hread
  have hjoined := getNextWord_join hs hread (readFrom_append hs hread) hplain hrest hdest
  obtain ⟨hresult, hglobals⟩ := f.handled g hjoined
  refine ⟨_, hresult, hglobals.trans (f.handled_initial g hread).2.symm, ?_, ?_, f.keeps obj _⟩
  · rw [f.setting_set, f.setting_set, endPath_append _ _ hword]
    simp [hdest]
  · rw [f.filled_iff, f.get_set]
    apply endPath_ne_nil
    simp [hdest]

theorem accepts (f : JoinedField b token) (hfilled : b.Filled obj token) (hs : Tidy s.toReader)
    (hread : s.toReader.getNextWord [] = .ok (ret, word, r)) (hrest : r.rest ≠ [])
    (hplain : Unslashed (readFrom s.rest r.rest)) :
    ∃ o', (b.handler obj token s g).result = .ok (o', { s with toReader := r }) ∧
      (b.handler obj token s g).globals = g ∧ b.Filled o' token ∧ b.Keeps token obj o' := by
  have hdest : f.get obj ≠ [] := f.filled_iff.mp hfilled
  have hjoined := getNextWord_join hs hread (readFrom_append hs hread) hplain hrest hdest
  obtain ⟨hresult, hglobals⟩ := f.handled g hjoined
  refine ⟨_, hresult, hglobals, ?_, f.keeps obj _⟩
  rw [f.filled_iff, f.get_set]
  apply endPath_ne_nil
  simp [hdest]

/-- A joined directive with a value, as it is read alone. -/
theorem given (f : JoinedField b token) {v n : Reader} {w : Bytes} {os : List (Occurrence α)}
    (htoken : s.toReader.getNextWord [] = .ok (0, token, r))
    (hvalue : r.getNextWord [] = .ok (0, w, v)) (hsemicolon : v.checkSemiColon = (true, n))
    (hreads : b.Reads { s with toReader := n } g os) :
    b.Reads s g (⟨token, readFrom r.rest v.rest,
      some (f.set b.initial (endPath f.restrictEnd w))⟩ :: os) := by
  obtain ⟨hresult, hglobals⟩ := @handled_initial _ _ _ { s with toReader := r } _ _ f g hvalue
  apply Block.Reads.given htoken hresult hsemicolon
  rw [hglobals]
  exact hreads

end JoinedField

/-- A handler all of whose directives are of one of the two kinds. -/
theorem lawful_of_fields (hjoined : ∀ token ∈ b.joined, Nonempty (JoinedField b token))
    (hfresh : ∀ token ∉ b.joined, FreshField b token) : b.Lawful := by
  refine ⟨?_, ?_, ?_, ?_, ?_⟩
  · intro obj token s g hempty
    by_cases htoken : token ∈ b.joined
    · obtain ⟨f⟩ := hjoined token htoken
      intro o t hrun
      obtain ⟨word, r, hread, rfl, rfl⟩ := f.alone hrun
      have hinitial := (f.handled_initial g hread).2
      rw [← f.unfilled (hempty htoken)] at hread
      obtain ⟨hresult, hglobals⟩ := f.handled g hread
      refine ⟨_, hresult, hglobals.trans hinitial.symm, ?_, f.keeps obj _⟩
      rw [f.setting_set, f.setting_set]
    · exact (hfresh token htoken).follows obj s g
  · intro token s g o t htoken hs hrun
    obtain ⟨f⟩ := hjoined token htoken
    obtain ⟨word, r, hread, rfl, -⟩ := f.alone hrun
    rw [f.filled_iff, f.get_set]
    apply endPath_ne_nil
    exact getNextWord_ne_nil hs hread
  · intro obj token s g o t htoken hfilled hs hrun hrest hplain
    obtain ⟨f⟩ := hjoined token htoken
    exact f.joins hfilled hs hrun hrest hplain
  · intro obj token s g ret word r hneeds hempty hread hret
    by_cases htoken : token ∈ b.joined
    · obtain ⟨f⟩ := hjoined token htoken
      rw [← f.unfilled (hempty htoken)] at hread
      exact f.missing g hread hret
    · exact (hfresh token htoken).refuses obj s g ret word r hneeds hread hret
  · intro obj token s g ret word r htoken hfilled hs hread hrest hplain
    obtain ⟨f⟩ := hjoined token htoken
    exact f.accepts hfilled hs hread hrest hplain

/-- A directive that sets no field. -/
theorem freshField_of_none (hnone : ∀ obj, b.setting obj token = none)
    (hfollows : ∀ obj s g, Block.Follows (fun _ o' => b.setting o' = b.setting obj)
      (b.handler b.initial token s g) (b.handler obj token s g)) : FreshField b token := by
  refine ⟨?_, ?_⟩
  · intro obj s g o t hrun
    obtain ⟨o', hrun', hglobals, hsame⟩ := hfollows obj s g o t hrun
    refine ⟨o', hrun', hglobals, ?_, ?_⟩
    · rw [hnone, hnone]
    · intro name _
      rw [hsame]
  · intro obj s g ret word r hneeds
    exact absurd (hnone b.initial) hneeds.1

end Fields

section Runs

variable {α β : Type} {R : α → α → Prop} {g : Globals}

theorem follows_bind {m : ParseM β} {f f' : β → ParseM (α × IStream)}
    (h : ∀ p g', (m g).result = .ok p → (m g).globals = g' →
      Block.Follows R (f p g') (f' p g')) : Block.Follows R ((m >>= f) g) ((m >>= f') g) := by
  intro o t hrun
  cases hm : (m g).result with
  | error e =>
    rw [bind_of_error hm] at hrun
    cases hrun
  | ok p =>
    rw [bind_of_ok hm] at hrun
    rw [bind_of_ok hm, bind_of_ok hm]
    exact h p _ hm rfl o t hrun

theorem follows_pure {o o' : α} (h : R o o') (t : IStream) :
    Block.Follows R ((pure (o, t) : ParseM (α × IStream)) g)
      ((pure (o', t) : ParseM (α × IStream)) g) := by
  intro o₁ t₁ hrun
  cases hrun
  exact ⟨o', rfl, rfl, h⟩

theorem follows_halt (e : Halt) (actual : Outcome (α × IStream)) :
    Block.Follows R ((halt e : ParseM (α × IStream)) g) actual := nofun

variable {b : Block α} {token : Bytes}

/-- A directive that reads a value by itself, and then sets its field to it. -/
theorem freshField_of_read {m : IStream → ParseM (β × IStream)} {set : α → β → α}
    (hhandles : ∀ obj s, b.handler obj token s = m s >>= fun p => pure (set obj p.1, p.2))
    (hsetting : ∀ obj value,
      b.setting (set obj value) token = b.setting (set b.initial value) token)
    (hkeeps : ∀ obj value, b.Keeps token obj (set obj value))
    (hmissing : b.NeedsValue token → ∀ s g ret word r,
      s.toReader.getNextWord [] = .ok (ret, word, r) → ret ≠ 0 →
      ∃ e, (m s g).result = .error e ∧ e ≠ .unfinished) : FreshField b token := by
  refine ⟨?_, ?_⟩
  · intro obj s g
    rw [hhandles, hhandles]
    apply follows_bind
    intro p g' _ _
    exact follows_pure ⟨hsetting obj p.1, hkeeps obj p.1⟩ p.2
  · intro obj s g ret word r hneeds hread hret
    obtain ⟨e, hresult, he⟩ := hmissing hneeds s g ret word r hread hret
    rw [hhandles, bind_of_error hresult]
    exact ⟨e, rfl, he⟩

theorem parseBoolean_ok (id : Option String) (g : Globals)
    (h : s.toReader.getNextWord [] = .ok (0, word, r))
    (hword : word = ascii "on" ∨ word = ascii "off") :
    (parseBoolean id s g).result = .ok (word = ascii "on", { s with toReader := r }) ∧
      (parseBoolean id s g).globals = g := by
  obtain ⟨hresult, hglobals⟩ := requiredWord_ok id g h
  unfold parseBoolean
  rw [bind_of_ok hresult, hglobals]
  obtain rfl | rfl := hword
  · exact ⟨rfl, rfl⟩
  · exact ⟨rfl, rfl⟩

theorem parseBoolean_missing {s : IStream} {ret : UInt8} {word : Bytes} {r : Reader}
    (id : Option String) (g : Globals) (h : s.toReader.getNextWord [] = .ok (ret, word, r))
    (hret : ret ≠ 0) : ∃ e, (parseBoolean id s g).result = .error e ∧ e ≠ .unfinished := by
  obtain ⟨e, hresult, he⟩ := requiredWord_missing id g h hret
  unfold parseBoolean
  rw [bind_of_error hresult]
  exact ⟨e, rfl, he⟩

theorem freshField_of_boolean {id : Option String} {set : α → Bool → α}
    (hhandles : ∀ obj s,
      b.handler obj token s = parseBoolean id s >>= fun p => pure (set obj p.1, p.2))
    (hsetting : ∀ obj value,
      b.setting (set obj value) token = b.setting (set b.initial value) token)
    (hkeeps : ∀ obj value, b.Keeps token obj (set obj value)) : FreshField b token := by
  apply freshField_of_read hhandles hsetting hkeeps
  intro _ s g ret word r hread hret
  exact parseBoolean_missing id g hread hret

/-- Methods may be none at all. -/
theorem freshField_of_methods {set : α → ℕ → α}
    (hhandles : ∀ obj s, b.handler obj (ascii "methods") s =
      parseAllowedMethods s >>= fun p => pure (set obj p.1, p.2))
    (hsetting : ∀ obj value, b.setting (set obj value) (ascii "methods") =
      b.setting (set b.initial value) (ascii "methods"))
    (hkeeps : ∀ obj value, b.Keeps (ascii "methods") obj (set obj value)) :
    FreshField b (ascii "methods") := by
  apply freshField_of_read hhandles hsetting hkeeps
  intro hneeds
  exact absurd rfl hneeds.2

end Runs

end Webserveau.FieldDirectives
