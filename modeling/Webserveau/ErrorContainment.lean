import Webserveau.HostBlocks
import Webserveau.Registrations

/-!
Errors in the blocks of servers.
A configuration is a directive for the default error pages and blocks of servers whose
braces are balanced. Whatever a block holds, the blocks behind it are read, and those
without an error are registered, unless a value is missing that is reported under a null
pointer or a block is cut out of a line that was read before.
-/
namespace Webserveau.ErrorContainment

open ByteStrings OrderedMaps Formats Requests Registries ConfigWords ConfigBlocks ConfigParser
  ConfigParser.ParseM BlockExtraction WordReading ConfigReadings HostBlocks
open ConfigWords.Reader (endsWord)

def Spaces (x : Bytes) : Prop := ∀ c ∈ x, isspace c = true

/-- A directive that sets the default error pages. -/
structure PagesDirective where
  before : Bytes
  keyword : Bytes
  gap : Bytes
  spelling : Bytes
  path : Bytes
  after : Bytes
  before_spaces : Spaces before
  keyword_spells : Spells [] keyword (ascii "default_error_pages")
  gap_spaces : Spaces gap
  gap_ne : gap ≠ []
  path_spells : Spells [] spelling path
  path_ne : path ≠ []
  after_spaces : Spaces after

def PagesDirective.text (d : PagesDirective) : Bytes :=
  d.before ++ (d.keyword ++ (d.gap ++ (d.spelling ++ (d.after ++ [59]))))

/-- A block of a server with balanced braces, up to its semicolon. -/
structure ServerBlock where
  before : Bytes
  keyword : Bytes
  between : Bytes
  body : Bytes
  after : Bytes
  before_spaces : Spaces before
  keyword_spells : Spells [] keyword (ascii "server")
  between_spaces : Spaces between
  body_balanced : Balanced body
  after_spaces : Spaces after

def ServerBlock.text (b : ServerBlock) : Bytes :=
  b.before ++ (b.keyword ++ (b.between ++ 123 :: (b.body ++ 125 :: (b.after ++ [59]))))

/-- A configuration that is a sequence of blocks of servers behind its first directive. -/
structure Configuration where
  directive : PagesDirective
  blocks : List ServerBlock
  last : Bytes
  last_spaces : Spaces last

def Configuration.text (c : Configuration) : Bytes :=
  c.directive.text ++ (c.blocks.flatMap ServerBlock.text ++ c.last)

/-- The directives of the block of a host. -/
def readBlock (bound : ℕ) (block : IStream) : ParseM (HostConfig × IStream) :=
  parseBlock (handleHostToken bound) bound newHost block

/-- A block that is read on its own without an error, wherever it stands, and lacks nothing. -/
def ErrorFree (bound : ℕ) (path : Bytes) (b : ServerBlock) (config : HostConfig) : Prop :=
  (∀ offset, ∃ s, (readBlock bound (.ofText b.body offset) {}).result = .ok (config, s) ∧
    (readBlock bound (.ofText b.body offset) {}).globals.error = false) ∧
  ∃ config', Registry.empty.checkHost path config = .ok config'

section Reading

variable {opens : Bytes → Bytes → Bool} {bound : ℕ} {block : IStream} {g : Globals}

/-- What `checkHost` does is known from the registry. -/
theorem checkHost_eq (config : HostConfig) :
    checkHost config g =
      match g.registry.checkHost g.default_error_pages config with
      | .ok config => { result := .ok config, globals := g }
      | .error (.missingToken token) =>
        { result := .error (.exception (.missingToken token)), globals := g }
      | .error .duplicateServerName =>
        { result := .error (.exception .duplicateServerName), globals := g } := by
  unfold checkHost
  rw [bind_of_ok (m := ParseM.get) (a := g) rfl]
  show Outcome.mk _ _ _ = _
  dsimp only [ParseM.get]
  cases g.registry.checkHost g.default_error_pages config with
  | ok config => rfl
  | error e => cases e <;> rfl

/-- A host is added whether all of its servers could be opened or not. -/
theorem addHost_eq (config : HostConfig) :
    ∃ result, addHost opens config g = {
        result := result
        globals := { g with registry := (g.registry.addHost config (opens config.addr)).2 } } ∧
      (result = .ok () ∨ result = .error (.exception .host)) := by
  unfold ConfigParser.addHost
  rw [bind_of_ok (m := ParseM.get) (a := g) rfl]
  dsimp only [ParseM.get]
  rw [bind_of_ok (m := ParseM.modify _) (a := ()) rfl]
  by_cases hres : (g.registry.addHost config (opens config.addr)).1 ≠ 0
  · rw [if_pos hres]
    exact ⟨_, rfl, Or.inr rfl⟩
  · rw [if_neg hres]
    exact ⟨_, rfl, Or.inl rfl⟩

theorem local_readBlock (bound : ℕ) (block : IStream) : Local (readBlock bound block) := by
  have hnever : Enough false 0 bound := fun h => absurd h Bool.false_ne_true
  exact Reading.local (ConfigReadings.Reading.hostBlock hnever newHost) block

/-- How the block of a host is done with, when it is read in these globals. -/
inductive HostRead (opens : Bytes → Bytes → Bool) (read : Outcome (HostConfig × IStream))
    (g : Globals) (out : Outcome Unit) : Prop
  | halted (e : Halt) : (∀ x, e ≠ .exception x) → read.result = .error e →
      out.result = .error e → HostRead opens read g out
  | failed (e : ConfigException) : read.result = .error (.exception e) → out.result = .ok () →
      out.globals.registry = g.registry → HostRead opens read g out
  | refused (config : HostConfig) (s : IStream) (e : ConfigError) :
      read.result = .ok (config, s) →
      g.registry.checkHost g.default_error_pages config = .error e → out.result = .ok () →
      out.globals.registry = g.registry → HostRead opens read g out
  | added (config config' : HostConfig) (s : IStream) : read.result = .ok (config, s) →
      g.registry.checkHost g.default_error_pages config = .ok config' → out.result = .ok () →
      out.globals.registry = (g.registry.addHost config' (opens config'.addr)).2 →
      HostRead opens read g out

/-- The reading of a block, with the check and the registration of its host. -/
def hostBody (opens : Bytes → Bytes → Bool) (bound : ℕ) (block : IStream) : ParseM Unit :=
  readBlock bound block >>= fun p => checkHost p.1 >>= fun config =>
    ConfigParser.addHost opens config

theorem readHost_eq (opens : Bytes → Bytes → Bool) (bound : ℕ) (block : IStream) :
    readHost opens bound block =
      tryCatch (hostBody opens bound block) fun _ => modify fun g => { g with error := true } :=
  rfl

theorem readHost_of_exception {e : ConfigException}
    (h : (hostBody opens bound block g).result = .error (.exception e)) :
    readHost opens bound block g = {
      result := .ok ()
      globals := { (hostBody opens bound block g).globals with error := true }
      calls := (hostBody opens bound block g).calls } := by
  rw [readHost_eq, tryCatch_of_exception h]
  show Outcome.mk _ _ (_ ++ []) = _
  rw [List.append_nil]
  rfl

theorem readHost_read (opens : Bytes → Bytes → Bool) (bound : ℕ) (block : IStream) (g : Globals) :
    HostRead opens (readBlock bound block g) g (readHost opens bound block g) ∧
      (readHost opens bound block g).globals.default_error_pages = g.default_error_pages ∧
      (readHost opens bound block g).calls = (readBlock bound block g).calls := by
  have hlocal := local_readBlock bound block g
  have hregistry : (readBlock bound block g).globals.registry = g.registry := by
    rw [hlocal]
    rfl
  have hdefault : (readBlock bound block g).globals.default_error_pages =
      g.default_error_pages := by
    rw [hlocal]
    rfl
  cases hread : (readBlock bound block g).result with
  | error e =>
    have hbody : hostBody opens bound block g = { 
        result := .error e
        globals := (readBlock bound block g).globals
        calls := (readBlock bound block g).calls } := bind_of_error hread
    by_cases hexception : ∃ x, e = .exception x
    · obtain ⟨x, rfl⟩ := hexception
      rw [readHost_of_exception (e := x) (by rw [hbody]), hbody]
      exact ⟨.failed x hread rfl hregistry, hdefault, rfl⟩
    · have hother : ∀ x, e ≠ .exception x := fun x hx => hexception ⟨x, hx⟩
      rw [readHost_eq, tryCatch_of_other (by rw [hbody]; simpa using hother), hbody]
      exact ⟨.halted e hother hread rfl, hdefault, rfl⟩
  | ok p =>
    have hcheck := checkHost_eq (g := (readBlock bound block g).globals) p.1
    rw [hregistry, hdefault] at hcheck
    cases hresult : g.registry.checkHost g.default_error_pages p.1 with
    | error e =>
      obtain ⟨x, hrefused⟩ : ∃ x, checkHost p.1 (readBlock bound block g).globals = {
          result := .error (.exception x)
          globals := (readBlock bound block g).globals } := by
        rw [hcheck, hresult]
        cases e with
        | missingToken token => exact ⟨_, rfl⟩
        | duplicateServerName => exact ⟨_, rfl⟩
      have hbody : hostBody opens bound block g = {
          result := .error (.exception x)
          globals := (readBlock bound block g).globals
          calls := (readBlock bound block g).calls } := by
        show (readBlock bound block >>= _) g = _
        rw [bind_of_ok hread, bind_of_error (e := .exception x) (by rw [hrefused]), hrefused]
        dsimp only
        rw [List.append_nil]
      rw [readHost_of_exception (e := x) (by rw [hbody]), hbody]
      exact ⟨.refused p.1 p.2 e hread hresult rfl hregistry, hdefault, rfl⟩
    | ok config' =>
      have hpassed : checkHost p.1 (readBlock bound block g).globals = {
          result := .ok config'
          globals := (readBlock bound block g).globals } := by
        rw [hcheck, hresult]
      obtain ⟨result, hadd, hends⟩ :=
        @addHost_eq opens (readBlock bound block g).globals config'
      rw [hregistry] at hadd
      have hbody : hostBody opens bound block g = {
          result := result
          globals := { (readBlock bound block g).globals with
            registry := (g.registry.addHost config' (opens config'.addr)).2 }
          calls := (readBlock bound block g).calls } := by
        show (readBlock bound block >>= _) g = _
        rw [bind_of_ok hread, bind_of_ok (a := config') (by rw [hpassed]), hpassed]
        dsimp only
        rw [hadd, List.append_nil, List.append_nil]
      rcases hends with rfl | rfl
      · rw [readHost_eq, tryCatch_of_other (by rw [hbody]; nofun), hbody]
        exact ⟨.added p.1 config' p.2 hread hresult rfl rfl, hdefault, rfl⟩
      · rw [readHost_of_exception (e := .host) (by rw [hbody]), hbody]
        exact ⟨.added p.1 config' p.2 hread hresult rfl rfl, hdefault, rfl⟩

end Reading

section Runs

variable {opens : Bytes → Bytes → Bool} {bound n : ℕ} {s : IStream}

/-- What makes no calls ends within the parser. -/
theorem contained_quiet {α : Type} {m : ParseM α}
    (h : ∀ g, (m g).calls = [] ∧
      ((∃ a, (m g).result = .ok a) ∨ ∃ e, (m g).result = .error (.exception e))) :
    Contained m fun _ => True := by
  intro g _
  obtain ⟨hcalls, hresult⟩ := h g
  refine ⟨fun _ _ => trivial, ?_, ?_⟩
  · rw [hcalls]
    rcases hresult with ⟨a, ha⟩ | ⟨e, he⟩
    · rw [ha]
      exact ⟨nofun, fun ⟨_, hc, _⟩ => absurd hc List.not_mem_nil⟩
    · rw [he]
      exact ⟨nofun, fun ⟨_, hc, _⟩ => absurd hc List.not_mem_nil⟩
  · rcases hresult with ⟨a, ha⟩ | ⟨e, he⟩
    · rw [ha]
      nofun
    · rw [he]
      nofun

theorem contained_checkHost (config : HostConfig) :
    Contained (checkHost config) fun _ => True := by
  refine contained_quiet fun g => ?_
  rw [checkHost_eq]
  cases g.registry.checkHost g.default_error_pages config with
  | ok config => exact ⟨rfl, Or.inl ⟨_, rfl⟩⟩
  | error e =>
    cases e with
    | missingToken token => exact ⟨rfl, Or.inr ⟨_, rfl⟩⟩
    | duplicateServerName => exact ⟨rfl, Or.inr ⟨_, rfl⟩⟩

theorem contained_addHost (config : HostConfig) :
    Contained (ConfigParser.addHost opens config) fun _ => True := by
  refine contained_quiet fun g => ?_
  obtain ⟨result, hadd, hends⟩ := @addHost_eq opens g config
  rw [hadd]
  rcases hends with rfl | rfl
  · exact ⟨rfl, Or.inl ⟨_, rfl⟩⟩
  · exact ⟨rfl, Or.inr ⟨_, rfl⟩⟩

theorem contained_readBlock (hs : Within n s) (hn : n < bound) :
    Contained (readBlock bound s) fun out => Within s.rest.length out.2 :=
  Reading.contained (ConfigReadings.Reading.hostBlock (fun _ => hn) newHost) hs

theorem contained_readHost (hs : Within n s) (hn : n < bound) :
    Contained (readHost opens bound s) fun _ => True := by
  rw [readHost_eq]
  refine Contained.tryCatch ?_ fun _ => contained_modify _ trivial
  exact (contained_readBlock hs hn).bind fun p _ =>
    (contained_checkHost p.1).bind fun config _ => contained_addHost config

theorem contained_handleConfigToken (hs : Within n s) (hn : n < bound) (token : Bytes) :
    Contained (handleConfigToken opens bound token s) (Within n) := by
  unfold handleConfigToken
  split
  · refine (contained_nextBlock hs).bind fun out hout => ?_
    exact (contained_readHost hout.1 hn).bind fun _ _ => contained_pure hout.2
  · split
    · refine (contained_modify _ trivial).bind (P := fun _ => True) fun _ _ => ?_
      refine Contained.bind (P := fun out : Bytes × IStream => Within n out.2) ?_ fun out hout => ?_
      · refine (Reading.contained (ConfigReadings.Reading.path [] (some _) none) hs).mono ?_
        exact fun out hout => hout.of_le (hout.length.trans hs.length)
      · exact (contained_modify _ trivial).bind (P := fun _ => True) fun _ _ => contained_pure hout
    · exact contained_throw _

theorem contained_configLoop (fuel : ℕ) (hs : Within n s) (hfuel : n < fuel) (hn : n < bound) :
    Contained (configLoop opens bound fuel s) fun _ => True := by
  induction fuel generalizing n s with
  | zero => omega
  | succ fuel ih =>
    refine (contained_readWord hs []).bind fun out hout => ?_
    obtain ⟨ret, token, t⟩ := out
    obtain ⟨ht, hless⟩ := hout
    dsimp only at ht hless ⊢
    split
    · rename_i hret
      have hfewer := hless rfl hret
      refine (contained_handleConfigToken (ht.of_le le_rfl) (by omega) token).bind fun u hu => ?_
      refine (contained_checkSemiColon hu).bind fun out hout => ?_
      obtain ⟨found, v⟩ := out
      cases found with
      | true => exact ih hout (by omega) (by omega)
      | false => exact contained_throw _
    · split
      · exact contained_pure trivial
      · exact contained_throw _

theorem contained_parseConfigFile (text : Bytes) (hbound : text.length < bound) :
    Contained (parseConfigFile opens bound text) fun _ => True := by
  refine Contained.bind (P := fun _ => True) ?_ fun res _ => ?_
  · refine Contained.tryCatch ?_ fun e => contained_pure trivial
    exact (contained_configLoop bound (within_ofText le_rfl 0) hbound hbound).bind
      fun _ _ => contained_pure trivial
  · refine contained_quiet fun g => ?_
    by_cases hres : res ≠ 0
    · rw [if_pos hres]
      exact ⟨rfl, Or.inl ⟨_, rfl⟩⟩
    · rw [if_neg hres]
      rw [bind_of_ok (m := ParseM.get) (a := g) rfl]
      dsimp only [ParseM.get]
      by_cases hpages : g.default_error_pages = []
      · rw [if_pos hpages]
        exact ⟨rfl, Or.inr ⟨_, rfl⟩⟩
      · rw [if_neg hpages]
        exact ⟨rfl, Or.inl ⟨_, rfl⟩⟩

end Runs

/-- The stream of a file, with what is unread of it. -/
def fileAt (text rest : Bytes) : IStream := ⟨⟨rest, false, false⟩, text, 0⟩

section Steps

variable {opens : Bytes → Bytes → Bool} {bound : ℕ} {text : Bytes} {g : Globals}

/-- A word in front of spaces, or of the character behind them. -/
theorem readWord_at {before keyword word x : Bytes} (hbefore : Spaces before)
    (hspells : Spells [] keyword word) (hne : word ≠ []) (hx : Spaces x) {d : UInt8}
    (hd : endsWord d = true) (z : Bytes) :
    readWord false [] (fileAt text (before ++ (keyword ++ (x ++ d :: z)))) g = {
      result := .ok (0, word, fileAt text (x ++ d :: z))
      globals := g
      calls := [.word false [] (fileAt text (before ++ (keyword ++ (x ++ d :: z))))
        (some (0, word))] } := by
  cases x with
  | nil => exact readWord_ok (getNextWord_spells hspells hne hbefore hd z)
  | cons c x =>
    have hc : endsWord c = true := by
      unfold Reader.endsWord
      rw [hx c (List.mem_cons_self ..)]
      rfl
    exact readWord_ok (getNextWord_spells hspells hne hbefore hc (x ++ d :: z))

theorem checkSemiColon_at {after : Bytes} (hafter : Spaces after) (z : Bytes) :
    checkSemiColon (fileAt text (after ++ 59 :: z)) g = {
      result := .ok (true, fileAt text z)
      globals := g
      calls := [.semicolon (fileAt text (after ++ 59 :: z)) true] } := by
  have hreader : Reader.checkSemiColon ⟨after ++ 59 :: z, false, false⟩ =
      (true, ⟨z, false, false⟩) := by
    unfold Reader.checkSemiColon
    rw [skipSpace_spaces hafter]
    rfl
  unfold ConfigParser.checkSemiColon
  rw [show (fileAt text (after ++ 59 :: z)).toReader.checkSemiColon = _ from hreader]
  rfl

theorem passes_spaces {x : Bytes} (hx : Spaces x) : passes {} x = some {} := by
  induction x with
  | nil => rfl
  | cons c x ih =>
    have hc := hx c (List.mem_cons_self ..)
    have hread : Braces.read {} c = .next {} := by
      unfold isspace at hc
      unfold Braces.read
      grind
    unfold passes
    rw [hread]
    exact ih fun d hd => hx d (List.mem_cons_of_mem _ hd)

theorem nextBlock_at {between body z : Bytes} (hbetween : Spaces between) (hbody : Balanced body)
    (hsuffix : between ++ 123 :: (body ++ 125 :: z) <:+ text) :
    ∃ line offset, ∀ g, nextBlock (fileAt text (between ++ 123 :: (body ++ 125 :: z))) g = {
      result := .ok (.ofText body offset, fileAt text z)
      globals := { g with lineBuffer := line }
      calls := [.block g.lineBuffer (fileAt text (between ++ 123 :: (body ++ 125 :: z)))
        (some body)] } := by
  have hin : InText (fileAt text (between ++ 123 :: (body ++ 125 :: z))) := ⟨rfl, hsuffix⟩
  refine ⟨(getNextBlock (fileAt text (between ++ 123 :: (body ++ 125 :: z))) []).1,
    blockOffset (fileAt text z) body, ?_⟩
  intro g
  have hfound := getNextBlock_eq hin g.lineBuffer
  rw [show (fileAt text (between ++ 123 :: (body ++ 125 :: z))).rest =
    between ++ 123 :: (body ++ 125 :: z) from rfl, search_written (passes_spaces hbetween) hbody] at hfound
  rw [nextBlock_ok (show _ = Except.ok (body, fileAt text z) from hfound),
    getNextBlock_line rfl g.lineBuffer []]

/-- A call that brings nothing about. -/
def Harmless (c : Call) : Prop := ¬ NamesNull c ∧ ¬ Rereads c

theorem harmless_word (dest : Bytes) (s : IStream) (given : Option (UInt8 × Bytes)) :
    Harmless (.word false dest s given) := ⟨id, id⟩

theorem harmless_semicolon (s : IStream) (found : Bool) : Harmless (.semicolon s found) := ⟨id, id⟩

theorem harmless_block {s : IStream} (h : s.good = true) (line : Bytes) (given : Option Bytes) :
    Harmless (.block line s given) :=
  ⟨id, fun hrereads => absurd (h.symm.trans hrereads.1) Bool.noConfusion⟩

/-- The block of a server is cut out and read. -/
theorem parseHost_at {between body z : Bytes} (hbetween : Spaces between) (hbody : Balanced body)
    (hsuffix : between ++ 123 :: (body ++ 125 :: z) <:+ text) :
    ∃ line offset, ∀ g, ∃ call, Harmless call ∧
      let out := readHost opens bound (.ofText body offset) { g with lineBuffer := line }
      parseHost opens bound (fileAt text (between ++ 123 :: (body ++ 125 :: z))) g =
        match out.result with
        | .error e => { result := .error e, globals := out.globals, calls := call :: out.calls }
        | .ok _ => {
          result := .ok (fileAt text z)
          globals := out.globals
          calls := call :: out.calls } := by
  obtain ⟨line, offset, hblock⟩ := nextBlock_at hbetween hbody hsuffix
  refine ⟨line, offset, ?_⟩
  intro g
  refine ⟨.block g.lineBuffer (fileAt text (between ++ 123 :: (body ++ 125 :: z))) (some body),
    harmless_block rfl _ _, ?_⟩
  unfold parseHost
  rw [bind_of_ok (a := (.ofText body offset, fileAt text z)) (by rw [hblock]), hblock]
  dsimp only
  cases hread : (readHost opens bound (.ofText body offset)
      { g with lineBuffer := line }).result with
  | error e =>
    rw [bind_of_error hread]
    rfl
  | ok u =>
    rw [bind_of_ok hread]
    show Outcome.mk _ _ (_ ++ (_ ++ [])) = _
    rw [List.append_nil]
    rfl

/-- One turn of the loop is the reading of one block, between calls that bring nothing about. -/
theorem configLoop_block (b : ServerBlock) {tail : Bytes} (hsuffix : b.text ++ tail <:+ text) :
    ∃ line offset, ∀ g, ∃ front back : List Call, (∀ c ∈ front ++ back, Harmless c) ∧ ∀ fuel,
      let out := readHost opens bound (.ofText b.body offset) { g with lineBuffer := line }
      let out' := configLoop opens bound fuel (fileAt text tail) out.globals
      configLoop opens bound (fuel + 1) (fileAt text (b.text ++ tail)) g =
        match out.result with
        | .error e => { result := .error e, globals := out.globals, calls := front ++ out.calls }
        | .ok _ => { out' with calls := front ++ out.calls ++ back ++ out'.calls } := by
  have htext : b.text ++ tail = b.before ++ (b.keyword ++ (b.between ++
      123 :: (b.body ++ 125 :: (b.after ++ 59 :: tail)))) := by
    unfold ServerBlock.text
    simp only [List.append_assoc, List.cons_append, List.nil_append]
  rw [htext] at hsuffix ⊢
  have hin : b.between ++ 123 :: (b.body ++ 125 :: (b.after ++ 59 :: tail)) <:+ text :=
    ((List.suffix_append _ _).trans (List.suffix_append _ _)).trans hsuffix
  obtain ⟨line, offset, hhost⟩ :=
    @parseHost_at opens bound _ _ _ _ b.between_spaces b.body_balanced hin
  refine ⟨line, offset, ?_⟩
  intro g
  obtain ⟨call, hcall, hparse⟩ := hhost g
  dsimp only at hparse
  have hword := @readWord_at text g _ _ _ _ b.before_spaces b.keyword_spells
    (by decide) b.between_spaces 123 (by decide) (b.body ++ 125 :: (b.after ++ 59 :: tail))
  generalize hs : fileAt text (b.before ++ (b.keyword ++ (b.between ++
      123 :: (b.body ++ 125 :: (b.after ++ 59 :: tail))))) = s at hword ⊢
  refine ⟨[.word false [] s (some (0, ascii "server")), call],
    [.semicolon (fileAt text (b.after ++ 59 :: tail)) true], ?_, ?_⟩
  · intro c hc
    simp only [List.cons_append, List.nil_append, List.mem_cons, List.not_mem_nil, or_false] at hc
    rcases hc with rfl | rfl | rfl
    · exact harmless_word ..
    · exact hcall
    · exact harmless_semicolon ..
  · intro fuel
    rw [configLoop, bind_of_ok (a := (0, ascii "server", _)) (by rw [hword]), hword]
    dsimp only
    rw [if_pos rfl]
    have hhandle : handleConfigToken opens bound (ascii "server") (fileAt text (b.between ++
        123 :: (b.body ++ 125 :: (b.after ++ 59 :: tail)))) = parseHost opens bound (fileAt text
        (b.between ++ 123 :: (b.body ++ 125 :: (b.after ++ 59 :: tail)))) := if_pos rfl
    rw [hhandle]
    cases hread : (readHost opens bound (.ofText b.body offset)
        { g with lineBuffer := line }).result with
    | error e =>
      rw [hread] at hparse
      rw [bind_of_error (e := e) (by rw [hparse]), hparse]
      rfl
    | ok u =>
      rw [hread] at hparse
      rw [bind_of_ok (a := fileAt text (b.after ++ 59 :: tail)) (by rw [hparse]), hparse]
      dsimp only
      rw [bind_of_ok (a := (true, fileAt text tail)) (by rw [checkSemiColon_at b.after_spaces]),
        checkSemiColon_at b.after_spaces]
      dsimp only
      rw [if_pos rfl]
      simp only [List.cons_append, List.nil_append, List.append_assoc]

end Steps

section Hosts

variable {path : Bytes} {config config' : HostConfig} {r : Registry}

theorem withErrorPages_names (path : Bytes) (config : HostConfig) :
    (Registry.withErrorPages path config).host.server_names = config.host.server_names ∧
      (Registry.withErrorPages path config).addr = config.addr ∧
      (Registry.withErrorPages path config).ports = config.ports := by
  unfold Registry.withErrorPages
  split <;> exact ⟨rfl, rfl, rfl⟩

/-- A host that lacks nothing is refused only where one of its names is taken. -/
theorem taken_of_refused {e : ConfigError} (h : Registry.empty.checkHost path config = .ok config')
    (hr : r.checkHost path config = .error e) :
    r.checkServerNames config.addr config.ports config.host.server_names = false := by
  obtain ⟨hnames, haddr, hports⟩ := withErrorPages_names path config
  unfold Registry.checkHost at h hr
  by_cases hnoaddr : config.addr = []
  · rw [if_pos hnoaddr] at h
    cases h
  rw [if_neg hnoaddr] at h hr
  by_cases hnoports : config.ports = []
  · rw [if_pos hnoports] at h
    cases h
  rw [if_neg hnoports] at h hr
  dsimp only at h hr
  by_cases hnonames : (Registry.withErrorPages path config).host.server_names = []
  · rw [if_pos hnonames] at h
    cases h
  rw [if_neg hnonames] at h hr
  by_cases hnoroot :
      ((Registry.withErrorPages path config).host.locationMap.find? (ascii "*")).isNone = true
  · rw [if_pos hnoroot] at h
    cases h
  rw [if_neg hnoroot] at h hr
  rw [haddr, hports, hnames] at hr
  cases htaken : r.checkServerNames config.addr config.ports config.host.server_names with
  | false => rfl
  | true =>
    rw [htaken, if_neg Bool.noConfusion] at hr
    cases hr

/-- A block without an error is read in the same way wherever its turn comes. -/
theorem readBlock_errorFree {bound : ℕ} {b : ServerBlock} (h : ErrorFree bound path b config)
    (offset : ℕ) (g : Globals) :
    ∃ s, (readBlock bound (.ofText b.body offset) g).result = .ok (config, s) := by
  obtain ⟨s, hok, hclean⟩ := h.1 offset
  have hnever : Enough false 0 bound := fun h => absurd h Bool.false_ne_true
  have hsame := Reading.same (ConfigReadings.Reading.hostBlock hnever newHost)
    (s := .ofText b.body offset) (tidy_good b.body) (config, s) hok hclean g.lineBuffer
  refine ⟨s, ?_⟩
  rw [local_readBlock bound _ g]
  exact hsame.1

end Hosts

/-- A host of the registry is held by servers for all of its ports. -/
def Held (r : Registry) (config : HostConfig) : Prop :=
  ∃ q h, r.hosts.get? q = some h ∧ h.toHostConfig = config ∧
    ∀ port ∈ config.ports, HoldsAt r q config port

theorem Held.grows {r r' : Registry} {config : HostConfig} (h : Held r config) (hr : Grows r r') :
    Held r' config := by
  obtain ⟨q, node, hnode, hconfig, hports⟩ := h
  obtain ⟨node', hnode', hsame⟩ := hr.host q node hnode
  exact ⟨q, node', hnode', hsame.trans hconfig, fun port hport => (hports port hport).grows hr⟩

section Blocks

variable {opens : Bytes → Bytes → Bool} {bound : ℕ} {text path : Bytes}

/-- What the reading of a block does to the registry. -/
structure Progress (opens : Bytes → Bytes → Bool) (bound : ℕ) (path : Bytes) (b : ServerBlock)
    (r r' : Registry) : Prop where
  sound : Sound r'
  filled : Filled r'
  grows : Grows r r'
  registers : ∀ config, ErrorFree bound path b config →
    (∀ port ∈ config.ports, opens config.addr port = true) →
      r.checkServerNames config.addr config.ports config.host.server_names = false ∨
        Held r' (Registry.withErrorPages path config)

theorem readHost_progress {b : ServerBlock} {g : Globals} (hsound : Sound g.registry)
    (hfilled : Filled g.registry) (hpath : g.default_error_pages = path)
    (hbound : b.body.length < bound) (offset : ℕ)
    (hcalls : ∀ c ∈ (readHost opens bound (.ofText b.body offset) g).calls, Harmless c) :
    (readHost opens bound (.ofText b.body offset) g).result = .ok () ∧
      (readHost opens bound (.ofText b.body offset) g).globals.default_error_pages = path ∧
      Progress opens bound path b g.registry
        (readHost opens bound (.ofText b.body offset) g).globals.registry := by
  obtain ⟨hread, hdefault, -⟩ := readHost_read opens bound (.ofText b.body offset) g
  obtain ⟨-, hnull, hfinished⟩ := @contained_readHost opens bound _ _
    (within_ofText le_rfl offset) hbound g fun c hc => (hcalls c hc).2
  have hnone : (readHost opens bound (.ofText b.body offset) g).result ≠ .error .logicError := by
    intro h
    obtain ⟨c, hc, hnames⟩ := hnull.mp h
    exact (hcalls c hc).1 hnames
  generalize hout : readHost opens bound (.ofText b.body offset) g = out at *
  have herrorFree : ∀ config, ErrorFree bound path b config →
      ∃ s, (readBlock bound (.ofText b.body offset) g).result = .ok (config, s) :=
    fun config h => readBlock_errorFree h offset g
  have hkept : out.globals.registry = g.registry → 
      (∀ config, ErrorFree bound path b config → g.registry.checkServerNames config.addr
        config.ports config.host.server_names = false) →
      Progress opens bound path b g.registry out.globals.registry := by
    intro heq htaken
    rw [heq]
    exact ⟨hsound, hfilled, Grows.refl _, fun config hfree _ => Or.inl (htaken config hfree)⟩
  cases hread with
  | halted e hother hblock hresult =>
    cases e with
    | exception x => exact absurd rfl (hother x)
    | logicError => exact absurd hresult hnone
    | unfinished => exact absurd hresult hfinished
  | failed e hblock hresult hregistry =>
    refine ⟨hresult, hdefault.trans hpath, hkept hregistry ?_⟩
    intro config hfree
    obtain ⟨s, hs⟩ := herrorFree config hfree
    rw [hs] at hblock
    cases hblock
  | refused config₁ s₁ e hblock hcheck hresult hregistry =>
    refine ⟨hresult, hdefault.trans hpath, hkept hregistry ?_⟩
    intro config hfree
    obtain ⟨s, hs⟩ := herrorFree config hfree
    rw [hs] at hblock
    cases hblock
    obtain ⟨config', hempty⟩ := hfree.2
    rw [hpath] at hcheck
    exact taken_of_refused hempty hcheck
  | added config₁ config' s₁ hblock hcheck hresult hregistry =>
    rw [hpath] at hcheck
    obtain ⟨hnamed, hfreeNames⟩ := checkHost_ok hcheck
    obtain ⟨hsound', hfilled', -⟩ :=
      addHost_ok hsound hfilled config' (opens config'.addr) hnamed hfreeNames
    refine ⟨hresult, hdefault.trans hpath, ?_⟩
    rw [hregistry]
    refine ⟨hsound', hfilled', addHost_grows .., ?_⟩
    intro config hfree hopens
    obtain ⟨s, hs⟩ := herrorFree config hfree
    rw [hs] at hblock
    cases hblock
    have hvalue := checkHost_value hcheck
    obtain ⟨-, haddr, hports⟩ := withErrorPages_names path config₁
    rw [← hvalue] at haddr hports ⊢
    refine Or.inr (addHost_registered hsound hfilled hnamed hfreeNames ?_)
    intro port hport
    rw [haddr]
    exact hopens port (hports ▸ hport)

/-- The registry when so many directives have been read: the loop over them is stopped. -/
def registryAfter (opens : Bytes → Bytes → Bool) (bound : ℕ) (s : IStream) (g : Globals)
    (directives : ℕ) : Registry :=
  (configLoop opens bound directives s g).globals.registry

/-- Spaces at the end of a text are the end of its directives. -/
theorem configLoop_end {last : Bytes} (hlast : Spaces last) (fuel : ℕ) (g : Globals) :
    (configLoop opens bound (fuel + 1) (fileAt text last) g).result = .ok () ∧
      (configLoop opens bound (fuel + 1) (fileAt text last) g).globals = g := by
  have hword : Reader.getNextWord ⟨last, false, false⟩ [] = .ok (EOF, [], ⟨[], true, true⟩) := by
    have hspaces := getNextWord_spaces hlast [] []
    rw [List.append_nil] at hspaces
    rw [hspaces]
    rfl
  have hread : readWord false [] (fileAt text last) g = {
      result := .ok (EOF, [], { fileAt text last with toReader := ⟨[], true, true⟩ })
      globals := g
      calls := [.word false [] (fileAt text last) (some (EOF, []))] } := readWord_ok hword
  rw [configLoop, bind_of_ok (a := (EOF, [], _)) (by rw [hread]), hread]
  exact ⟨rfl, rfl⟩

/-- How far a run over blocks has come: every block that is left has been read, and those
without an error are registered. -/
structure Completed (opens : Bytes → Bytes → Bool) (bound : ℕ) (path : Bytes)
    (blocks : List ServerBlock) (before : ℕ → Registry) (r : Registry) (out : Outcome Unit) :
    Prop where
  result : out.result = .ok ()
  pages : out.globals.default_error_pages = path
  sound : Sound out.globals.registry
  grows : Grows r out.globals.registry
  registers : ∀ i b config, blocks[i]? = some b → ErrorFree bound path b config →
    (∀ port ∈ config.ports, opens config.addr port = true) →
      (before i).checkServerNames config.addr config.ports config.host.server_names = false ∨
        Held out.globals.registry (Registry.withErrorPages path config)

theorem configLoop_blocks (blocks : List ServerBlock) {last : Bytes} (hlast : Spaces last)
    (hsuffix : blocks.flatMap ServerBlock.text ++ last <:+ text)
    (hbound : ∀ b ∈ blocks, b.body.length < bound) {fuel : ℕ} (hfuel : blocks.length < fuel)
    {g : Globals} (hsound : Sound g.registry) (hfilled : Filled g.registry)
    (hpath : g.default_error_pages = path)
    (hcalls : ∀ c ∈ (configLoop opens bound fuel
      (fileAt text (blocks.flatMap ServerBlock.text ++ last)) g).calls, Harmless c) :
    Completed opens bound path blocks
      (registryAfter opens bound (fileAt text (blocks.flatMap ServerBlock.text ++ last)) g)
      g.registry
      (configLoop opens bound fuel (fileAt text (blocks.flatMap ServerBlock.text ++ last)) g) := by
  induction blocks generalizing fuel g with
  | nil =>
    obtain ⟨fuel, rfl⟩ : ∃ k, fuel = k + 1 := ⟨fuel - 1, by omega⟩
    obtain ⟨hresult, hglobals⟩ := @configLoop_end opens bound text _ hlast fuel g
    refine ⟨hresult, ?_, ?_, ?_, nofun⟩
    · exact (congrArg Globals.default_error_pages hglobals).trans hpath
    · exact (congrArg Globals.registry hglobals) ▸ hsound
    · exact (congrArg Globals.registry hglobals) ▸ Grows.refl g.registry
  | cons b blocks ih =>
    obtain ⟨fuel, rfl⟩ : ∃ k, fuel = k + 1 := ⟨fuel - 1, by omega⟩
    rw [List.flatMap_cons, List.append_assoc] at hsuffix hcalls ⊢
    obtain ⟨line, offset, hblock⟩ := @configLoop_block opens bound _ b _ hsuffix
    obtain ⟨front, back, hharmless, hloop⟩ := hblock g
    dsimp only at hloop
    have hstep := @readHost_progress opens bound path b
      { g with lineBuffer := line } hsound hfilled hpath (hbound b (List.mem_cons_self ..))
      offset
    generalize readHost opens bound (.ofText b.body offset) { g with lineBuffer := line } = out
      at hloop hstep
    have hinner : ∀ c ∈ out.calls, Harmless c := by
      intro c hc
      refine hcalls c ?_
      rw [hloop]
      split
      · exact List.mem_append_right _ hc
      · exact List.mem_append_left _ (List.mem_append_left _ (List.mem_append_right _ hc))
    obtain ⟨hresult, hpages, hsound', hfilled', hgrows, hregisters⟩ := hstep hinner
    rw [hresult] at hloop
    dsimp only at hloop
    have hfuel' : blocks.length < fuel := by
      rw [List.length_cons] at hfuel
      omega
    have hnext := ih ((List.suffix_append _ _).trans hsuffix)
      (fun b' hb' => hbound b' (List.mem_cons_of_mem _ hb')) hfuel' hsound' hfilled' hpages ?_
    · obtain ⟨hresult', hpages', hsound'', hgrows', hregisters'⟩ := hnext
      rw [hloop fuel]
      refine ⟨hresult', hpages', hsound'', hgrows.trans hgrows', ?_⟩
      intro i b' config hi hfree hopens
      cases i with
      | zero =>
        cases hi
        exact (hregisters config hfree hopens).imp_right fun hheld => hheld.grows hgrows'
      | succ i =>
        have hbefore : registryAfter opens bound
            (fileAt text (b.text ++ (blocks.flatMap ServerBlock.text ++ last))) g (i + 1) =
            registryAfter opens bound
              (fileAt text (blocks.flatMap ServerBlock.text ++ last)) out.globals i := by
          unfold registryAfter
          rw [hloop i]
        rw [hbefore]
        exact hregisters' i b' config hi hfree hopens
    · intro c hc
      refine hcalls c ?_
      rw [hloop fuel]
      exact List.mem_append_right _ hc

/-- The first turn of the loop sets the default error pages. -/
theorem configLoop_directive (d : PagesDirective) (tail : Bytes) (g : Globals) :
    ∃ front : List Call, (∀ c ∈ front, Harmless c) ∧ ∀ fuel,
      configLoop opens bound (fuel + 1) (fileAt text (d.text ++ tail)) g =
        { configLoop opens bound fuel (fileAt text tail) { g with default_error_pages := d.path } with
          calls := front ++ (configLoop opens bound fuel (fileAt text tail)
            { g with default_error_pages := d.path }).calls } := by
  have htext : d.text ++ tail = d.before ++ (d.keyword ++ (d.gap ++ (d.spelling ++
      (d.after ++ 59 :: tail)))) := by
    unfold PagesDirective.text
    simp only [List.append_assoc, List.cons_append, List.nil_append]
  rw [htext]
  obtain ⟨c, gap, hgap⟩ := List.exists_cons_of_ne_nil d.gap_ne
  have hc : endsWord c = true := by
    unfold Reader.endsWord
    rw [d.gap_spaces c (hgap ▸ List.mem_cons_self ..)]
    rfl
  have hword : readWord false [] (fileAt text (d.before ++ (d.keyword ++ (d.gap ++ (d.spelling ++
      (d.after ++ 59 :: tail)))))) g = {
        result := .ok (0, ascii "default_error_pages", fileAt text (d.gap ++ (d.spelling ++
          (d.after ++ 59 :: tail))))
        globals := g
        calls := [.word false [] (fileAt text (d.before ++ (d.keyword ++ (d.gap ++ (d.spelling ++
          (d.after ++ 59 :: tail)))))) (some (0, ascii "default_error_pages"))] } := by
    rw [hgap]
    exact readWord_ok (getNextWord_spells d.keyword_spells (by decide) d.before_spaces hc _)
  have hpath := @readWord_at text { g with default_error_pages := [] } _ _ _ _
    d.gap_spaces d.path_spells d.path_ne d.after_spaces 59 (by decide) tail
  generalize hs : fileAt text (d.before ++ (d.keyword ++ (d.gap ++ (d.spelling ++
      (d.after ++ 59 :: tail))))) = s at hword ⊢
  generalize ht : fileAt text (d.gap ++ (d.spelling ++ (d.after ++ 59 :: tail))) = t
    at hword hpath
  refine ⟨[.word false [] s (some (0, ascii "default_error_pages")),
    .word false [] t (some (0, d.path)),
    .semicolon (fileAt text (d.after ++ 59 :: tail)) true], ?_, ?_⟩
  · intro c hc
    simp only [List.mem_cons, List.not_mem_nil, or_false] at hc
    rcases hc with rfl | rfl | rfl
    · exact harmless_word ..
    · exact harmless_word ..
    · exact harmless_semicolon ..
  · intro fuel
    rw [configLoop, bind_of_ok (a := (0, ascii "default_error_pages", _)) (by rw [hword]), hword]
    dsimp only
    rw [if_pos rfl]
    have hrequired : requiredWord [] (some "default error page location") t
        { g with default_error_pages := [] } = {
          result := .ok (d.path, fileAt text (d.after ++ 59 :: tail))
          globals := { g with default_error_pages := [] }
          calls := [.word false [] t (some (0, d.path))] } := by
      unfold requiredWord
      rw [bind_of_ok (a := (0, d.path, _)) (by rw [Option.isNone_some, hpath]),
        Option.isNone_some, hpath]
      rfl
    have hparse : parsePath [] (some "default error page location") none t
        { g with default_error_pages := [] } = {
          result := .ok (d.path, fileAt text (d.after ++ 59 :: tail))
          globals := { g with default_error_pages := [] }
          calls := [.word false [] t (some (0, d.path))] } := by
      unfold parsePath
      rw [bind_of_ok (a := (d.path, _)) (by rw [hrequired]), hrequired]
      rfl
    have hhandle : handleConfigToken opens bound (ascii "default_error_pages") t g = {
        result := .ok (fileAt text (d.after ++ 59 :: tail))
        globals := { g with default_error_pages := d.path }
        calls := [.word false [] t (some (0, d.path))] } := by
      unfold handleConfigToken
      rw [if_neg (by decide), if_pos rfl, bind_of_ok (m := ParseM.modify _) (a := ()) rfl]
      dsimp only [ParseM.modify]
      rw [bind_of_ok (a := (d.path, fileAt text (d.after ++ 59 :: tail))) (by rw [hparse]), hparse]
      rfl
    rw [bind_of_ok (a := fileAt text (d.after ++ 59 :: tail)) (by rw [hhandle]), hhandle]
    dsimp only
    rw [bind_of_ok (a := (true, fileAt text tail)) (by rw [checkSemiColon_at d.after_spaces]),
      checkSemiColon_at d.after_spaces]
    dsimp only
    rw [if_pos rfl]
    simp only [List.cons_append, List.nil_append]

end Blocks

/-- Errors are contained: the whole text is read, and every block without an error is
registered unless one of its names was taken when its turn came. -/
structure ErrorsContained (opens : Bytes → Bytes → Bool) (bound : ℕ) (c : Configuration) :
    Prop where
  read : (parseConfigFile opens bound c.text {}).result = .ok 0
  registered : ∀ i b config, c.blocks[i]? = some b → ErrorFree bound c.directive.path b config →
    (∀ port ∈ config.ports, opens config.addr port = true) →
      (registryAfter opens bound (.ofText c.text 0) {} (i + 1)).checkServerNames config.addr
          config.ports config.host.server_names = false ∨
        Registered (parseConfigFile opens bound c.text {}).globals.registry
          (Registry.withErrorPages c.directive.path config)

/-- A name is taken where some host is registered under it at the address and one of the
ports. -/
theorem nameTaken_iff {r : Registry} (hr : Linked r) {addr : Bytes} {ports names : List Bytes} :
    r.checkServerNames addr ports names = false ↔ ∃ port ∈ ports, ∃ name ∈ names, ∃ p s q h,
      r.servers.get? p = some s ∧ s.ip = addr ∧ s.port = port ∧ s.hostMap.find? name = some q ∧
        r.hosts.get? q = some h ∧ h.RegisteredAt name s p := by
  rw [← Bool.not_eq_true, checkServerNames_iff hr]
  push Not
  constructor
  · rintro ⟨port, hport, p, s, hs, hip, hsport, name, hname, htaken⟩
    obtain ⟨q, hq⟩ := Option.ne_none_iff_exists'.mp htaken
    obtain ⟨h, hh, hregistered⟩ := hr.mapped p s name q hs hq
    exact ⟨port, hport, name, hname, p, s, q, h, hs, hip, hsport, hq, hh, hregistered⟩
  · rintro ⟨port, hport, name, hname, p, s, q, h, hs, hip, hsport, hq, -, -⟩
    refine ⟨port, hport, p, s, hs, hip, hsport, name, hname, ?_⟩
    rw [hq]
    exact Option.some_ne_none q

section Containment

variable {opens : Bytes → Bytes → Bool} {bound : ℕ}

/-- What is done behind the loop makes no calls. -/
theorem parseConfigFile_calls (text : Bytes) (g : Globals) :
    (parseConfigFile opens bound text g).calls =
      (configLoop opens bound bound (.ofText text 0) g).calls := by
  have hend : ∀ (res : ℤ) (g : Globals), ((if res ≠ 0 then pure res else ParseM.get >>= fun g =>
      if g.default_error_pages = [] then throw (.missingToken "default_error_pages") else pure 0 :
        ParseM ℤ) g).calls = [] := by
    intro res g
    by_cases hres : res ≠ 0
    · rw [if_pos hres]
      rfl
    · rw [if_neg hres, bind_of_ok (m := ParseM.get) (a := g) rfl]
      dsimp only [ParseM.get]
      split <;> rfl
  have hcaught : (tryCatch (configLoop opens bound bound (.ofText text 0) >>= fun _ => pure 0)
      (fun e => pure (if e = .lastBlock then (0 : ℤ) else 1)) g).calls =
        (configLoop opens bound bound (.ofText text 0) g).calls := by
    cases hloop : (configLoop opens bound bound (.ofText text 0) g).result with
    | error e =>
      have hbody := bind_of_error (f := fun _ => (pure 0 : ParseM ℤ)) hloop
      by_cases hexception : ∃ x, e = .exception x
      · obtain ⟨x, rfl⟩ := hexception
        rw [tryCatch_of_exception (e := x) (by rw [hbody]), hbody]
        exact List.append_nil _
      · rw [tryCatch_of_other (by rw [hbody]; simpa using hexception), hbody]
    | ok u =>
      have hbody := bind_of_ok (f := fun _ => (pure 0 : ParseM ℤ)) hloop
      rw [tryCatch_of_other (by rw [hbody]; nofun), hbody]
      exact List.append_nil _
  unfold parseConfigFile
  cases hres : (tryCatch (configLoop opens bound bound (.ofText text 0) >>= fun _ => pure 0)
      (fun e => pure (if e = .lastBlock then (0 : ℤ) else 1)) g).result with
  | error e => rw [bind_of_error hres, hcaught]
  | ok res => rw [bind_of_ok hres, hcaught, hend, List.append_nil]

/-- A loop that ends well with its default error pages set is a parser that ends with 0. -/
theorem parseConfigFile_ok {text : Bytes} {g : Globals}
    (hloop : (configLoop opens bound bound (.ofText text 0) g).result = .ok ())
    (hpages : (configLoop opens bound bound (.ofText text 0) g).globals.default_error_pages ≠ []) :
    (parseConfigFile opens bound text g).result = .ok 0 ∧
      (parseConfigFile opens bound text g).globals =
        (configLoop opens bound bound (.ofText text 0) g).globals := by
  have hbody := bind_of_ok (f := fun _ => (pure 0 : ParseM ℤ)) hloop
  have hcaught : tryCatch (configLoop opens bound bound (.ofText text 0) >>= fun _ => pure 0)
      (fun e => pure (if e = .lastBlock then (0 : ℤ) else 1)) g = _ :=
    (tryCatch_of_other (by rw [hbody]; nofun)).trans hbody
  unfold parseConfigFile
  rw [bind_of_ok (a := 0) (by rw [hcaught]; rfl), hcaught]
  rw [if_neg (not_not_intro rfl), bind_of_ok (m := ParseM.get) (a := _) rfl]
  dsimp only [ParseM.get]
  have hset : ((pure 0 : ParseM ℤ) (configLoop opens bound bound
      (.ofText text 0) g).globals).globals.default_error_pages ≠ [] := hpages
  rw [if_neg hset]
  exact ⟨rfl, rfl⟩

theorem ServerBlock.length_body (b : ServerBlock) : b.body.length < b.text.length := by
  unfold ServerBlock.text
  simp only [List.length_append, List.length_cons]
  omega

theorem blocks_length (blocks : List ServerBlock) :
    blocks.length ≤ (blocks.flatMap ServerBlock.text).length ∧
      ∀ b ∈ blocks, b.body.length < (blocks.flatMap ServerBlock.text).length := by
  induction blocks with
  | nil => exact ⟨le_rfl, nofun⟩
  | cons b blocks ih =>
    have hbody := b.length_body
    rw [List.flatMap_cons, List.length_append, List.length_cons]
    refine ⟨by omega, ?_⟩
    intro b' hb'
    rcases List.mem_cons.mp hb' with rfl | hb'
    · omega
    · have hrest := ih.2 b' hb'
      omega

theorem contained_of_harmless (c : Configuration) (hbound : c.text.length < bound)
    (hcalls : ∀ call ∈ (parseConfigFile opens bound c.text {}).calls, Harmless call) :
    ErrorsContained opens bound c := by
  obtain ⟨front, hfront, hloop⟩ := @configLoop_directive opens bound
    c.text c.directive (c.blocks.flatMap ServerBlock.text ++ c.last) {}
  obtain ⟨fuel, rfl⟩ : ∃ k, bound = k + 1 := ⟨bound - 1, by omega⟩
  have hstart : IStream.ofText c.text 0 = fileAt c.text (c.directive.text ++
      (c.blocks.flatMap ServerBlock.text ++ c.last)) := rfl
  have hlengths := blocks_length c.blocks
  have htext : c.text.length = c.directive.text.length +
      ((c.blocks.flatMap ServerBlock.text).length + c.last.length) := by
    unfold Configuration.text
    rw [List.length_append, List.length_append]
  have hpositive : 0 < c.directive.text.length := by
    unfold PagesDirective.text
    simp only [List.length_append, List.length_cons]
    omega
  have hblocks := @configLoop_blocks opens (fuel + 1) c.text
    c.directive.path c.blocks _ c.last_spaces (List.suffix_append _ _)
    (fun b hb => by have := hlengths.2 b hb; omega) fuel (by omega)
    { default_error_pages := c.directive.path } sound_empty filled_empty rfl ?_
  · obtain ⟨hresult, hpages, hsound, -, hregisters⟩ := hblocks
    have hparse := @parseConfigFile_ok opens (fuel + 1) c.text {}
      (by rw [hstart, hloop]; exact hresult)
      (by rw [hstart, hloop]; exact fun h => c.directive.path_ne (hpages.symm.trans h))
    rw [hstart, hloop] at hparse
    refine ⟨hparse.1, ?_⟩
    intro i b config hi hfree hopens
    have hbefore : registryAfter opens (fuel + 1) (.ofText c.text 0) {} (i + 1) =
        registryAfter opens (fuel + 1) (fileAt c.text (c.blocks.flatMap ServerBlock.text ++ c.last))
          { default_error_pages := c.directive.path } i := by
      unfold registryAfter
      rw [hstart, hloop]
    rw [hbefore, hparse.2]
    refine (hregisters i b config hi hfree hopens).imp_right ?_
    intro ⟨q, h, hh, hconfig, hports⟩
    exact registered_of_holds hsound.linked hh hconfig hports
  · intro call hcall
    refine hcalls call ?_
    rw [parseConfigFile_calls, hstart, hloop]
    exact List.mem_append_right _ hcall

/-- As long as no block is cut out of a line that was read before, errors are contained if and
only if no missing value is reported under a null pointer. -/
theorem contained_iff (opens : Bytes → Bytes → Bool) (bound : ℕ) (c : Configuration)
    (hbound : c.text.length < bound)
    (hlines : ∀ call ∈ (parseConfigFile opens bound c.text {}).calls, ¬ Rereads call) :
    ErrorsContained opens bound c ↔
      ∀ call ∈ (parseConfigFile opens bound c.text {}).calls, ¬ NamesNull call := by
  constructor
  · intro h call hcall hnames
    obtain ⟨-, hnull, -⟩ := contained_parseConfigFile c.text hbound {} hlines
    have hresult := hnull.mpr ⟨call, hcall, hnames⟩
    rw [h.read] at hresult
    cases hresult
  · intro h
    exact contained_of_harmless c hbound fun call hcall => ⟨h call hcall, hlines call hcall⟩

/-- A configuration of blocks that are written without spaces. -/
def plainDirective : PagesDirective where
  before := []
  keyword := ascii "default_error_pages"
  gap := [32]
  spelling := ascii "e"
  path := ascii "e"
  after := []
  before_spaces := nofun
  keyword_spells := Spells.plainly (by decide +kernel) []
  gap_spaces := by unfold Spaces; decide +kernel
  gap_ne := by decide
  path_spells := Spells.plainly (by decide +kernel) []
  path_ne := by decide
  after_spaces := nofun

def plainBlock (body : Bytes) (h : Balanced body) : ServerBlock where
  before := []
  keyword := ascii "server"
  between := []
  body := body
  after := []
  before_spaces := nofun
  keyword_spells := Spells.plainly (by decide +kernel) []
  between_spaces := nofun
  body_balanced := h
  after_spaces := nofun

def plainConfiguration (blocks : List ServerBlock) : Configuration where
  directive := plainDirective
  blocks := blocks
  last := []
  last_spaces := nofun

/-- A block without an error. -/
def goodBlock : ServerBlock :=
  plainBlock (ascii "listen 80;server_name a;location *\x7broot /x;\x7d;") (by decide)

theorem bad_port_contained :
    ErrorsContained (fun _ _ => true) 100
      (plainConfiguration [plainBlock (ascii "listen x;") (by decide), goodBlock]) :=
  (contained_iff (fun _ _ => true) 100 _ (by decide +kernel) (by decide +kernel)).mpr
    (by decide +kernel)

theorem missing_value_uncaught :
    ¬ ErrorsContained (fun _ _ => true) 120
      (plainConfiguration [plainBlock (ascii "error_pages ;") (by decide), goodBlock]) := by
  intro h
  have hresult : (parseConfigFile (fun _ _ => true) 120 (plainConfiguration
      [plainBlock (ascii "error_pages ;") (by decide), goodBlock]).text {}).result =
      .error .logicError := by decide +kernel
  rw [h.read] at hresult
  cases hresult

end Containment

end Webserveau.ErrorContainment
