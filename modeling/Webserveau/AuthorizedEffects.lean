import Webserveau.GrantedEffects

/-!
The files that a connection makes the server remove.
A request that fails takes the file of its body with it, and the end of a process takes the file
that the hints name then: its output, or the page of an error that has replaced it. With what is
opened, deleted and run, these are all the effects that a connection has on disk.
-/
namespace Webserveau.AuthorizedEffects

open ByteStrings OrderedMaps Formats Requests Clients EventLoop Checks HeadSafety ParserFrames
  Transitions Intake Replies LoopInvariants LoopSteps HandlerRules HostLookups BodyTargets
  GrantedEffects

/-- A page that stands for an error of a client of the server. -/
def ErrorPage (server : ListenServer) (path : Bytes) : Prop :=
  ∃ pages, (pages = server.default_error_pages ∨
      ∃ host, Hosted server host ∧ pages = host.dir_errors) ∧
    ∃ status, path = pages ++ IntToString status ++ ascii ".html"

/-- The output of a process, or what a response has put in its place. -/
def Released (server : ListenServer) (output path : Bytes) : Prop :=
  path = output ∨ path = [] ∨ ErrorPage server path

def Authorized (server : ListenServer) : Action → Prop
  | .opened path => Temporary server path ∨ Uploads server path
  | .deleted path => Deletes server path
  | .removed path => Temporary server path ∨ Uploads server path
  | .spawned output => Output output
  | .destroyed output path => Output output ∧ Released server output path
  | _ => True

/-- Actions by which a file goes with what it belongs to. -/
def Frees : Action → Prop
  | .removed _ => True
  | .destroyed _ _ => True
  | _ => False

/-- The file of the body is that of the client before, or has been opened since, and none is let
go. -/
structure Files (c d : Client) : Prop where
  stream : d.bodyStream ≠ none → c.bodyStream ≠ none ∧ d.bodyFileName = c.bodyFileName ∨
    .opened d.bodyFileName ∈ d.trace
  adds : Adds (fun a => ¬ Frees a) c d

/-- What is held and what was removed is the file of a body, or of a process. -/
structure Owned (server : ListenServer) (c : Client) : Prop where
  streamed : c.bodyStream ≠ none → .opened c.bodyFileName ∈ c.trace
  removed : ∀ path, .removed path ∈ c.trace → .opened path ∈ c.trace
  destroyed : ∀ output path, .destroyed output path ∈ c.trace →
    Output output ∧ Released server output path
  writes : ∀ name, (view c).cgi = some name → Output name ∧ Released server name (view c).path
  processing : (view c).cgi ≠ none → (view c).header = .done ∧ (view c).body ≠ .ongoing

namespace Files

variable {c d e : Client}

theorem of_eq (hstream : d.bodyStream = c.bodyStream) (hname : d.bodyFileName = c.bodyFileName)
    (htrace : d.trace = c.trace) : Files c d where
  stream hsome := Or.inl ⟨hstream ▸ hsome, hname⟩
  adds := Adds.of_eq htrace

theorem refl (c : Client) : Files c c := of_eq rfl rfl rfl

theorem record (h : Files c d) {a : Action} (ha : ¬ Frees a) : Files c (d.record a) where
  stream hsome := (h.stream hsome).imp_right fun hmem => List.mem_append_left _ hmem
  adds := h.adds.trans (Adds.record rfl ha)

theorem trans (h : Files c d) (h' : Files d e) : Files c e where
  stream hsome := by
    rcases h'.stream hsome with ⟨hstream, hname⟩ | hopened
    · rcases h.stream hstream with ⟨hstream', hname'⟩ | hopened
      · exact Or.inl ⟨hstream', hname.trans hname'⟩
      · obtain ⟨actions, htrace, -⟩ := h'.adds
        rw [hname, htrace]
        exact Or.inr (List.mem_append_left _ hopened)
    · exact Or.inr hopened
  adds := h.adds.trans h'.adds

end Files

section Operations

variable (env : Env) (c : Client)

/-- The parser of a body writes to the stream that is there. -/
theorem parseRequest_files (bytes : Bytes) :
    Ends (c.parseRequest bytes) fun out => Files c out.2 := by
  unfold Client.parseRequest
  split
  · apply Ends.bind_any
    intro out
    exact ends_pure.mpr (Files.of_eq rfl rfl rfl)
  · split
    · refine Ends.bind (parseInput_onTarget _ _) ?_
      intro out hout
      exact ends_pure.mpr ⟨fun hsome => Or.inl ⟨hout.stream hsome, rfl⟩, Adds.of_eq rfl⟩
    · exact ends_pure.mpr (Files.of_eq rfl rfl rfl)

theorem tryResponse_files (status : ℤ) : Files c (tryResponse env c status).2 := by
  unfold tryResponse
  dsimp only
  split
  · exact Files.of_eq rfl rfl rfl
  · refine Files.record ?_ id
    exact Files.of_eq rfl rfl rfl

theorem clearResponse_files : Files c c.clearResponse := Files.of_eq rfl rfl rfl

theorem generateResponse_files (status : ℤ) : Files c (generateResponse env c status).2 := by
  have hfirst := tryResponse_files env c status
  have hsecond := tryResponse_files env (tryResponse env c status).2.clearResponse
    RES_INTERNAL_ERROR
  have hboth := (hfirst.trans (clearResponse_files _)).trans hsecond
  unfold generateResponse
  split
  · exact Files.refl c
  · dsimp only
    split
    · exact hfirst
    · split
      · exact hfirst.trans (clearResponse_files _)
      · split
        · exact hboth
        · exact hboth.trans (clearResponse_files _)

theorem handleRequestBodyDone_files : Files c (handleRequestBodyDone c).2 := by
  unfold handleRequestBodyDone
  dsimp only
  split
  · exact (Files.refl c).record id
  · split
    · exact (((Files.refl c).record id).record id).trans (Files.of_eq rfl rfl rfl)
    · exact (Files.refl c).record id

theorem setBodyFile_files (path : Bytes) (opens : Bool) :
    Files c (c.setBodyFile path opens) := by
  unfold Client.setBodyFile
  dsimp only
  split
  · exact ⟨fun _ => Or.inr (List.mem_append_right _ (List.mem_singleton_self _)),
      Adds.record rfl id⟩
  · exact ⟨fun hsome => absurd rfl hsome, Adds.of_eq rfl⟩

theorem keepContentType_files : Files c (keepContentType c) := by
  unfold keepContentType
  dsimp only
  split
  · exact Files.of_eq rfl rfl rfl
  · exact Files.refl c

theorem setUnlink_files (unlink : Bool) : Files c (setUnlink c unlink) := Files.of_eq rfl rfl rfl

theorem setRequest_files (r : Request) : Files c (c.setRequest r) := Files.of_eq rfl rfl rfl

theorem uploadTo_files (filePath : Bytes) (status : ℤ) (alreadyExist : Bool) :
    Files c (uploadTo env c filePath status alreadyExist) := by
  have hset := (setRequest_files c { c.getRequest with resHints := { c.getRequest.resHints with
    alreadyExist := alreadyExist
    status := status
    path := filePath } }).trans (setBodyFile_files _ filePath env.opens)
  exact (hset.trans (setUnlink_files _ false)).trans (keepContentType_files _)

theorem defineBodyParsing_files : Files c (defineBodyParsing env c) := by
  unfold defineBodyParsing
  dsimp only
  split
  · exact ((setBodyFile_files c _ env.opens).trans (setUnlink_files _ true)).trans
      (keepContentType_files _)
  · split
    · split
      · exact uploadTo_files env c _ _ _
      · split
        · exact setRequest_files c _
        · exact uploadTo_files env c _ _ _
      · exact setRequest_files c _
    · exact (setBodyFile_files c [] env.opens).trans (keepContentType_files _)

theorem generateContinueResponse_files : Files c (generateContinueResponse c) := by
  unfold generateContinueResponse
  refine Files.record ?_ id
  exact Files.of_eq rfl rfl rfl

theorem acceptHeaders_files (res : ℤ) : Files c (acceptHeaders env res c).2 := by
  have hdefined : Files c
      (if c.getRequest.resHints.cgiRedir = .none then defineBodyParsing env c else c) := by
    split
    · exact defineBodyParsing_files env c
    · exact Files.refl c
  unfold acceptHeaders
  generalize (if c.getRequest.resHints.cgiRedir = .none then defineBodyParsing env c else c) = d
    at hdefined ⊢
  have hdone : Files d { d with headerStatus := .done } := Files.of_eq rfl rfl rfl
  dsimp only
  split
  · exact (hdefined.trans hdone).trans (generateContinueResponse_files _)
  · exact hdefined.trans hdone

theorem checkContinue_files : Files c (checkContinue c).2 := by
  unfold checkContinue
  dsimp only
  split
  · split
    · exact Files.of_eq rfl rfl rfl
    · exact Files.refl c
  · split
    · exact Files.of_eq rfl rfl rfl
    · exact Files.refl c

theorem finishHeaders_files : Files c (finishHeaders env c).2 := by
  have hcontinue := checkContinue_files c
  unfold finishHeaders
  dsimp only
  split
  · exact hcontinue
  · exact hcontinue.trans (acceptHeaders_files env _ _)

theorem checkNewBody_files : Files c (checkNewBody c).2 := by
  unfold checkNewBody checkBodyLength
  dsimp only
  split
  · split
    · exact Files.of_eq rfl rfl rfl
    · unfold announceBody
      dsimp only
      split
      · exact Files.of_eq rfl rfl rfl
      · exact Files.of_eq rfl rfl rfl
  · exact Files.refl c

theorem assignHost_files : Files c (assignHost c).2 := by
  unfold assignHost
  dsimp only
  split
  · exact Files.of_eq rfl rfl rfl
  · unfold Client.setHost
    split
    · exact Files.refl c
    · exact Files.of_eq rfl rfl rfl

variable {c}

theorem onRequest_files {c₀ : Client} (check : Request → Checked (ℤ × Request)) (h : Files c₀ c) :
    Ends (onRequest check c) fun out => Files c₀ out.2 := by
  apply Ends.bind_any
  intro out
  exact ends_pure.mpr (h.trans (setRequest_files c out.2))

theorem andThen_files {c₀ : Client} {first : Checked (ℤ × Client)}
    {next : Client → Checked (ℤ × Client)} (hfirst : Ends first fun out => Files c₀ out.2)
    (hnext : ∀ d, Files c₀ d → Ends (next d) fun out => Files c₀ out.2) :
    Ends (andThen first next) fun out => Files c₀ out.2 := by
  refine Ends.andThen (I := Files c₀) ?_ hnext
  intro out hout
  exact ⟨fun _ => hfirst out hout, fun _ => hfirst out hout⟩

theorem handleRequestHeaders_files (c : Client) :
    Ends (handleRequestHeaders env c) fun out => Files c out.2 := by
  refine andThen_files (ends_ok.mpr (assignHost_files c)) ?_
  intro d hd
  refine andThen_files (onRequest_files _ hd) ?_
  intro d hd
  refine andThen_files (onRequest_files _ hd) ?_
  intro d hd
  refine andThen_files (ends_ok.mpr (hd.trans (checkNewBody_files d))) ?_
  intro d hd
  refine andThen_files (onRequest_files _ hd) ?_
  intro d hd
  exact ends_ok.mpr (hd.trans (finishHeaders_files env d))

end Operations

/-- A response leaves the path, or takes none or a page in its place. -/
def Repathed (server : ListenServer) (c d : Client) : Prop :=
  (view d).path = (view c).path ∨ (view d).path = [] ∨ ErrorPage server (view d).path

section Responses

variable {server : ListenServer} {c d e : Client}

theorem Repathed.trans (h : Repathed server c d) (h' : Repathed server d e) :
    Repathed server c e := by
  rcases h' with hpath | hreplaced
  · rcases h with hpath' | hreplaced
    · exact Or.inl (hpath.trans hpath')
    · unfold Repathed
      rw [hpath]
      exact Or.inr hreplaced
  · exact Or.inr hreplaced

/-- The pages of a client are those of its server or of one of its hosts. -/
theorem errorPages_from (hserver : c.listenServer = server)
    (hhosts : ∀ host, c.host = some host → Hosted server host) :
    errorPages c = server.default_error_pages ∨
      ∃ host, Hosted server host ∧ errorPages c = host.dir_errors := by
  unfold errorPages
  cases hhost : c.host with
  | none => exact Or.inl (congrArg ListenServer.default_error_pages hserver)
  | some host => exact Or.inr ⟨host, hhosts host hhost, rfl⟩

theorem tryResponse_repathed (hserver : c.listenServer = server)
    (hhosts : ∀ host, c.host = some host → Hosted server host) (env : Env) (status : ℤ) :
    Repathed server c (tryResponse env c status).2 := by
  have hreply : Repathed server c (tryResponse env c status).2 ↔
      (replyHints c status).path = (view c).path ∨ (replyHints c status).path = [] ∨
        ErrorPage server (replyHints c status).path := by
    obtain ⟨r, hints, hsame, hhints, -, -, hcases⟩ := tryResponse_eq env c status
    have hpath : (view (tryResponse env c status).2).path = (replyHints c status).path := by
      rcases hcases with ⟨-, response, buffers, connection, origin, -, hout⟩ | ⟨-, hout⟩
      · rw [hout, ← hsame.path_eq, ← hhints]
        rfl
      · rw [hout, ← hsame.path_eq, ← hhints]
        rfl
    unfold Repathed
    rw [hpath]
  obtain ⟨hints, hfills, hresponse⟩ := fillResponse_fills (errorPages c)
    (if status ≠ 0 then c.getRequest.setHintStatus status else c.getRequest)
  have hpath : (replyHints c status).path = hints.path := by
    unfold replyHints
    rw [hresponse]
  have hkept : (if status ≠ 0 then c.getRequest.setHintStatus status else
      c.getRequest).resHints.path = (view c).path := by
    split
    · rfl
    · rfl
  rw [hreply, hpath]
  rcases hfills.path with hsame | hnone | hpage
  · exact Or.inl (hsame.trans hkept)
  · exact Or.inr (Or.inl hnone)
  · exact Or.inr (Or.inr ⟨errorPages c, errorPages_from hserver hhosts, _, hpage⟩)

theorem generateResponse_repathed (h : Grounded server c) (env : Env) (status : ℤ) :
    Repathed server c (generateResponse env c status).2 := by
  have hfirst := tryResponse_repathed h.server_eq h.hosted env status
  have hhost := tryResponse_sameHost env c status
  have hsecond := tryResponse_repathed (c := (tryResponse env c status).2.clearResponse)
    (hhost.server.trans h.server_eq) (fun host hsome => h.hosted host (hhost.host ▸ hsome)) env
    RES_INTERNAL_ERROR
  have hboth := hfirst.trans hsecond
  unfold generateResponse
  split
  · exact Or.inl rfl
  · dsimp only
    split
    · exact hfirst
    · split
      · exact hfirst
      · split
        · exact hboth
        · exact hboth

end Responses

namespace Owned

variable {server : ListenServer} {c d : Client}

theorem after (h : Owned server c) (hfiles : Files c d)
    (hwrites : ∀ name, (view d).cgi = some name → Output name ∧ Released server name (view d).path)
    (hprocessing : (view d).cgi ≠ none → (view d).header = .done ∧ (view d).body ≠ .ongoing) :
    Owned server d := by
  obtain ⟨actions, htrace, hkept⟩ := hfiles.adds
  refine ⟨?_, ?_, ?_, hwrites, hprocessing⟩
  · intro hsome
    rcases hfiles.stream hsome with ⟨hstream, hname⟩ | hopened
    · rw [hname, htrace]
      exact List.mem_append_left _ (h.streamed hstream)
    · exact hopened
  · intro path hmem
    rw [htrace] at hmem ⊢
    rcases List.mem_append.mp hmem with hmem | hmem
    · exact List.mem_append_left _ (h.removed path hmem)
    · exact absurd True.intro (hkept _ hmem)
  · intro output path hmem
    rw [htrace] at hmem
    rcases List.mem_append.mp hmem with hmem | hmem
    · exact h.destroyed output path hmem
    · exact absurd True.intro (hkept _ hmem)

/-- Without a process there is nothing to write to. -/
theorem idle (h : Owned server c) (hfiles : Files c d) (hnone : (view d).cgi = none) :
    Owned server d := by
  refine h.after hfiles ?_ fun hsome => absurd hnone hsome
  intro name hname
  rw [hnone] at hname
  cases hname

theorem same (h : Owned server c) (hfiles : Files c d) (hpath : Repathed server c d)
    (hcgi : (view d).cgi = (view c).cgi) (hheader : (view d).header = (view c).header)
    (hbody : (view d).body = (view c).body) : Owned server d := by
  refine h.after hfiles ?_ ?_
  · intro name hname
    obtain ⟨houtput, hreleased⟩ := h.writes name (hcgi ▸ hname)
    refine ⟨houtput, ?_⟩
    rcases hpath with hsame | hreplaced
    · rw [hsame]
      exact hreleased
    · exact Or.inr hreplaced
  · rw [hcgi, hheader, hbody]
    exact h.processing

theorem no_process (h : Owned server c)
    (hopen : (view c).header ≠ .done ∨ (view c).body = .ongoing) : (view c).cgi = none := by
  by_contra hsome
  obtain ⟨hdone, hbody⟩ := h.processing hsome
  rcases hopen with hheader | hongoing
  · exact hheader hdone
  · exact hbody hongoing

theorem deleteCGIProcess (h : Owned server c) : Owned server c.deleteCGIProcess := by
  have hnone : (view c.deleteCGIProcess).cgi = none := by rw [deleteCGIProcess_view]
  unfold Client.deleteCGIProcess at hnone ⊢
  split
  · exact h
  · rename_i p hsome
    have hcgi : (view c).cgi = some p.output := by
      show c.cgiProcess.map CGIProcess.output = _
      rw [hsome]
      rfl
    refine ⟨fun hstream => List.mem_append_left _ (h.streamed hstream), ?_, ?_, nofun,
      fun hprocess => absurd rfl hprocess⟩
    · intro path hmem
      rcases List.mem_append.mp hmem with hmem | hmem
      · exact List.mem_append_left _ (h.removed path hmem)
      · cases List.mem_singleton.mp hmem
    · intro output path hmem
      rcases List.mem_append.mp hmem with hmem | hmem
      · exact h.destroyed output path hmem
      · cases List.mem_singleton.mp hmem
        exact h.writes p.output hcgi

theorem deleteBodyStream (h : Owned server c) : Owned server c.deleteBodyStream := by
  unfold Client.deleteBodyStream
  split
  · exact h
  · rename_i stream hsome
    have hstream : c.bodyStream ≠ none := by
      rw [hsome]
      exact nofun
    dsimp only
    split
    · refine ⟨fun hnone => absurd rfl hnone, ?_, ?_, h.writes, h.processing⟩
      · intro path hmem
        rcases List.mem_append.mp hmem with hmem | hmem
        · exact List.mem_append_left _ (h.removed path hmem)
        · cases List.mem_singleton.mp hmem
          exact List.mem_append_left _ (h.streamed hstream)
      · intro output path hmem
        rcases List.mem_append.mp hmem with hmem | hmem
        · exact h.destroyed output path hmem
        · cases List.mem_singleton.mp hmem
    · exact ⟨fun hnone => absurd rfl hnone, h.removed, h.destroyed, h.writes, h.processing⟩

theorem clear (h : Owned server c) : Owned server c.clear := by
  have hdropped : c.deleteBodyStream.bodyStream = none := by
    unfold Client.deleteBodyStream
    split
    · assumption
    · dsimp only
      split
      · rfl
      · rfl
  have hcleared : c.clear.bodyStream = none := by
    refine Eq.trans ?_ hdropped
    show c.deleteBodyStream.deleteCGIProcess.bodyStream = c.deleteBodyStream.bodyStream
    unfold Client.deleteCGIProcess
    split
    · rfl
    · rfl
  have hfiles : Files c.deleteBodyStream.deleteCGIProcess c.clear :=
    ⟨fun hsome => absurd hcleared hsome, Adds.of_eq rfl⟩
  exact h.deleteBodyStream.deleteCGIProcess.idle hfiles (congrArg View.cgi (clear_view c))

theorem terminate (h : Owned server c) : Owned server c.terminate := by
  have hview := clear_view c
  have hdead : Files c.clear { c.clear with alive := false } := Files.of_eq rfl rfl rfl
  exact h.clear.idle (hdead.record id) (congrArg View.cgi hview)

/-- A response is no reason to let a file go. -/
theorem answered (h : Owned server c) (hgrounded : Grounded server c) (env : Env) (status : ℤ) :
    Owned server (generateResponse env c status).2 := by
  have hfiles := generateResponse_files env c status
  have hpath := generateResponse_repathed hgrounded env status
  rcases generateResponse_cases env c status with ⟨-, hout⟩ | ⟨-, final, d, hout, hresponds, -⟩
  · rw [hout]
    exact h
  · rw [hout] at hfiles hpath ⊢
    obtain ⟨path, connection, hview, -⟩ := hresponds.settled
    refine h.same hfiles hpath ?_ ?_ ?_
    · rw [hview]
    · rw [hview]
    · rw [hview]

theorem started (h : Owned server c) (env : Env) (hheader : c.headerStatus = .done)
    (hbody : c.bodyStatus ≠ .ongoing) : Owned server (generateCGIProcess env c).2 := by
  have hwriting : ∀ p : CGIProcess, p.output = generateName none env.outputTime →
      Owned server { c.setRequest { c.getRequest with resHints := { c.getRequest.resHints with
        path := generateName none env.outputTime } } with cgiProcess := some p } := by
    intro p hp
    refine h.after (Files.of_eq rfl rfl rfl) ?_ fun _ => ⟨hheader, hbody⟩
    intro name hname
    have hsome : some p.output = some name := hname
    obtain rfl := Option.some.inj hsome
    rw [hp]
    exact ⟨⟨env.outputTime, rfl⟩, Or.inl rfl⟩
  unfold generateCGIProcess execCGI
  dsimp only
  by_cases hpid : env.pid > 0
  · rw [if_pos hpid]
    dsimp only
    rw [if_neg (not_not_intro rfl)]
    have hspawned : ∀ d : Client,
        Files d ((d.record (.spawned (generateName none env.outputTime))).setMode .write) :=
      fun d => ((Files.refl d).record id).trans (Files.of_eq rfl rfl rfl)
    exact (hwriting { output := generateName none env.outputTime, pid := env.pid } rfl).same
      (hspawned _) (Or.inl rfl) rfl rfl rfl
  · rw [if_neg hpid]
    dsimp only
    rw [if_pos one_ne_zero]
    exact (hwriting { output := generateName none env.outputTime } rfl).deleteCGIProcess

theorem parsed (h : Owned server c) (bytes : Bytes) :
    Ends (c.parseRequest bytes) fun out =>
      Owned server out.2 ∧ (view out.2).cgi = (view c).cgi := by
  intro out hout
  obtain ⟨-, hparsed, -⟩ := parseRequest_parsed c bytes out hout
  have hfiles := parseRequest_files c bytes out hout
  have hcgi : (view out.2).cgi = (view c).cgi := by
    cases hparsed with
    | head expect hheader hview => rw [hview]
    | body expect hheader hbody hview => rw [hview]
    | idle hidle hres hview => rw [hview]
  refine ⟨?_, hcgi⟩
  cases hparsed with
  | head expect hheader hview =>
    have hopen : (view c).header ≠ .done := by
      show c.headerStatus ≠ .done
      rw [hheader]
      exact nofun
    exact h.idle hfiles (hcgi.trans (h.no_process (Or.inl hopen)))
  | body expect hheader hbody hview =>
    exact h.idle hfiles (hcgi.trans (h.no_process (Or.inr hbody)))
  | idle hidle hres hview =>
    refine h.same hfiles (Or.inl ?_) hcgi ?_ ?_
    · rw [hview]
    · rw [hview]
    · rw [hview]

/-- The checks of a head start and end without a process. -/
theorem headed (h : Owned server c) (env : Env) (hnone : (view c).cgi = none) :
    Ends (handleRequestHeaders env c) fun out =>
      Owned server out.2 ∧ (view out.2).cgi = none := by
  intro out hout
  have hfiles := handleRequestHeaders_files env c out hout
  have hcgi : (view out.2).cgi = none := by
    rcases handleRequestHeaders_checked env c out hout with hrefused | haccepted
    · obtain ⟨body, type, path, expect, hview⟩ := hrefused.settled
      rw [hview]
      exact hnone
    · obtain ⟨body, type, path, hview⟩ := haccepted.settled
      rw [hview]
      split
      · exact hnone
      · exact hnone
  exact ⟨h.idle hfiles hcgi, hcgi⟩

end Owned

section Runs

variable {server : ListenServer}

theorem owned_rules (server : ListenServer) : Rules
    (fun c => Lawful server c ∧ Owned server c)
    fun c => Deletable server c ∧ (view c).cgi = none where
  parsed c bytes h := by
    intro out hout
    obtain ⟨hlawful, hdue⟩ := (lawful_rules server).parsed c bytes h.1 out hout
    obtain ⟨howned, hcgi⟩ := h.2.parsed bytes out hout
    exact ⟨⟨hlawful, howned⟩, fun hheader hd => ⟨hdue hheader hd.1, hcgi.trans hd.2⟩⟩
  due c h hheader hbody hresponse :=
    ⟨(lawful_rules server).due c h.1 hheader hbody hresponse, h.2.no_process (Or.inr hbody)⟩
  begun c h hready := by
    have hopen : (view c).header ≠ .done := by
      show c.headerStatus ≠ .done
      rw [hready]
      exact nofun
    have hnone := h.2.no_process (Or.inl hopen)
    exact ⟨(lawful_rules server).begun c h.1 hready, h.2.idle (Files.of_eq rfl rfl rfl) hnone⟩
  headers env c h hready := by
    intro out hout
    obtain ⟨hlawful, hdue⟩ := (lawful_rules server).headers env c h.1 hready out hout
    have hopen : (view c).header ≠ .done := by
      show c.headerStatus ≠ .done
      rw [hready]
      exact nofun
    obtain ⟨howned, hcgi⟩ := h.2.headed env (h.2.no_process (Or.inl hopen)) out hout
    exact ⟨⟨hlawful, howned⟩, fun hzero => ⟨hdue hzero, hcgi⟩⟩
  redirected env c h hheader hbody htype hredir hnone := by
    intro out hout
    obtain ⟨haccepted, hrefused⟩ := (lawful_rules server).redirected env c h.1 hheader hbody htype
      hredir hnone out hout
    have hcgi : (view c).cgi = none := Option.map_eq_none_iff.mpr hnone
    obtain ⟨howned, -⟩ := h.2.headed env hcgi out hout
    have hgrounded := (handleRequestHeaders_heard env h.1.toGrounded out hout).grounded
    exact ⟨fun hzero => ⟨haccepted hzero, howned⟩,
      fun hne => ⟨hrefused hne, howned.answered hgrounded env out.1⟩⟩
  noted c res := by
    obtain ⟨hlawful, hdue⟩ := (lawful_rules server).noted c res
    refine ⟨fun h => ⟨hlawful h.1, ?_⟩, fun hd => ⟨hdue hd.1, hd.2⟩⟩
    exact h.2.same ((Files.refl c).record id) (Or.inl rfl) rfl rfl rfl
  done c h hd hheader hbody := by
    obtain ⟨⟨path, hview⟩, -⟩ := handleRequestBodyDone_view c
    refine ⟨(lawful_rules server).done c h.1 hd.1 hheader hbody, ?_⟩
    refine h.2.idle (handleRequestBodyDone_files c) ?_
    rw [hview]
    exact hd.2
  answered env c status h :=
    ⟨(lawful_rules server).answered env c status h.1, h.2.answered h.1.toGrounded env status⟩
  started env c h hheader hbody htype :=
    ⟨(lawful_rules server).started env c h.1 hheader hbody htype, h.2.started env hheader hbody⟩
  removed c h := ⟨(lawful_rules server).removed c h.1, h.2.deleteCGIProcess⟩
  judged fs c verdict r h hparse := by
    obtain ⟨-, -, hpath, -⟩ := parseCgiHeaders_keeps fs _ _ hparse
    exact ⟨(lawful_rules server).judged fs c verdict r h.1 hparse,
      h.2.same (Files.of_eq rfl rfl rfl) (Or.inl hpath) rfl rfl rfl⟩
  reaped c p q h hp hq := by
    refine ⟨(lawful_rules server).reaped c p q h.1 hp hq, ?_⟩
    refine h.2.same (Files.of_eq rfl rfl rfl) (Or.inl rfl) ?_ rfl rfl
    show some q.output = c.cgiProcess.map CGIProcess.output
    rw [hp, hq]
    rfl
  sent c rest bytes h := by
    have hrest : Files c { c with outBuffers := rest } := Files.of_eq rfl rfl rfl
    exact ⟨(lawful_rules server).sent c rest bytes h.1,
      h.2.same (hrest.record id) (Or.inl rfl) rfl rfl rfl⟩
  expected c h := ⟨(lawful_rules server).expected c h.1,
    h.2.same (Files.of_eq rfl rfl rfl) (Or.inl rfl) rfl rfl rfl⟩
  continued c h hcontinue := ⟨(lawful_rules server).continued c h.1 hcontinue,
    h.2.same (Files.of_eq rfl rfl rfl) (Or.inl rfl) rfl rfl rfl⟩
  cleared c h := ⟨(lawful_rules server).cleared c h.1,
    h.2.clear.same (Files.of_eq rfl rfl rfl) (Or.inl rfl) rfl rfl rfl⟩
  terminated c h := ⟨(lawful_rules server).terminated c h.1, h.2.terminate⟩
  expired c request h hmode hrequest := by
    refine ⟨(lawful_rules server).expired c request h.1 hmode hrequest, ?_⟩
    refine h.2.same (Files.of_eq rfl rfl rfl) (Or.inl ?_) rfl rfl rfl
    show request.resHints.path = c.getRequest.resHints.path
    rw [Client.getRequest, hrequest]
    rfl

/-- What is held to the law and owned is authorized. -/
theorem Owned.authorized {c : Client} (howned : Owned server c) (h : Lawful server c) :
    ∀ a ∈ c.trace, Authorized server a := by
  intro a ha
  cases a with
  | opened path => exact h.granted _ ha
  | deleted path => exact h.granted _ ha
  | removed path =>
    have hopened : Temporary server path ∨ Uploads server path :=
      h.granted _ (howned.removed path ha)
    exact hopened
  | spawned output => exact h.granted _ ha
  | destroyed output path => exact howned.destroyed output path ha
  | _ => exact True.intro

theorem effects_reached {events : List Event} {c : Client}
    (h : Reaches EventLoop.step (fun _ _ => True) (Client.newClient server) events c) :
    Lawful server c ∧ (∀ a ∈ c.trace, Authorized server a) ∧
      (∀ path, .removed path ∈ c.trace → .opened path ∈ c.trace) ∧
      (c.cgiProcess ≠ none → Scripts server c.getRequest) := by
  obtain ⟨-, hscripts⟩ := lawful_reached h
  have hnew : Owned server (Client.newClient server) := by
    refine ⟨fun hnone => absurd rfl hnone, ?_, ?_, nofun, fun hprocess => absurd rfl hprocess⟩
    · intro path hmem
      cases hmem
    · intro output path hmem
      cases hmem
  have hlawful := (lawful_reached (.nil : Reaches EventLoop.step (fun _ _ => True)
    (Client.newClient server) [] _)).1
  obtain ⟨-, hkept, howned⟩ := (owned_rules server).reached ⟨hlawful, hnew⟩ h
  exact ⟨hkept, howned.authorized hkept, howned.removed, hscripts⟩

/-- Whatever a connection goes through, all that it makes the server do on disk is authorized
by the hosts of its server: what is opened, deleted or removed, and what a process that is there
runs. A file is removed only where it has been opened for a body. -/
theorem effects_authorized {events : List Event} {c : Client}
    (h : Reaches EventLoop.step (fun _ _ => True) (Client.newClient server) events c) :
    (∀ a ∈ c.trace, Authorized server a) ∧
      (∀ path, .removed path ∈ c.trace → .opened path ∈ c.trace) ∧
      (c.cgiProcess ≠ none → Scripts server c.getRequest) := by
  obtain ⟨-, hauthorized, hopened, hscripts⟩ := effects_reached h
  exact ⟨hauthorized, hopened, hscripts⟩

/-- A request to delete a file, read in one piece. -/
def deletion : List Event :=
  [reading (ascii "DELETE /f HTTP/1.1" ++ CRLF ++ ascii "Host: a" ++ CRLF ++ CRLF)]

def deletesFile (a : Action) : Bool :=
  match a with
  | .deleted path => path = ascii "f"
  | _ => false

theorem effects_authorized_deletion :
    ∃ c, Reaches EventLoop.step (fun _ _ => True) (Client.newClient plainServer) deletion c ∧
      Action.deleted (ascii "f") ∈ c.trace ∧ Deletes plainServer (ascii "f") := by
  have hrun : (deletion.foldlM EventLoop.step (Client.newClient plainServer)).toOption.any
      (fun c => c.trace.any deletesFile) = true := by decide +kernel
  obtain ⟨c, hsteps, hany⟩ := exists_of_any hrun
  have hreached : Reaches EventLoop.step (fun _ _ => True) (Client.newClient plainServer)
      deletion c := Reaches.of_foldlM (fun _ _ => True.intro) hsteps
  obtain ⟨a, ha, hdeletes⟩ := List.any_eq_true.mp hany
  have hdeleted : a = .deleted (ascii "f") := by
    cases a with
    | deleted path =>
      have hpath : path = ascii "f" := of_decide_eq_true hdeletes
      rw [hpath]
    | _ => cases hdeletes
  rw [hdeleted] at ha
  exact ⟨c, hreached, ha, (effects_authorized hreached).1 _ ha⟩

end Runs

end Webserveau.AuthorizedEffects
