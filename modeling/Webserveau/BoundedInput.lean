import Webserveau.HeldBytes
import Webserveau.LoopSteps

/-!
The memory of a client for what it has read.
Bytes are held in the buffer of the client and in the line of its request. Parsing tests
their number, but not at every place: not before the end of the request line, and not while
nothing is due to be parsed. A run keeps the bound as long as what is read there stays
within the size of a head.
-/
namespace Webserveau.BoundedInput

open ByteStrings OrderedMaps Formats Requests Clients EventLoop Checks DelimitedTexts
  HeadSegmentation BodySegmentation HeldBytes RoutingFrames Transitions LoopSteps

/-- The number of bytes held for a client. -/
def held (c : Client) : ℕ := c.buffer.length + c.getRequest.line.length

/-- The bytes meet a parser that tests their number. -/
def Tested (c : Client) (bytes : Bytes) : Prop :=
  c.buffer = [] ∧ (c.headerStatus = .ongoing ∧ HeadTested c.getRequest bytes ∨
    c.headerStatus = .done ∧ c.bodyStatus = .ongoing ∧ BodyTested c.getRequest bytes)

/-- The event reads these bytes from the connection. -/
def ReadsBytes (c : Client) (event : Event) (bytes : Bytes) : Prop :=
  ∃ e, event = .epoll e ∧ ¬ (e.hup = true ∨ c.mode = .error) ∧
    (e.epollin = true ∧ (c.mode = .read ∨ c.bodyStatus ≠ .ongoing)) ∧ e.incoming = some bytes

/-- A read fills one buffer at most. -/
def SmallReads (c : Client) (event : Event) : Prop :=
  ∀ bytes, ReadsBytes c event bytes → bytes.length ≤ BUFFER_SIZE

/-- A read is small, and it is tested or fits a head together with what is held. -/
def Guarded (c : Client) (event : Event) : Prop :=
  ∀ bytes, ReadsBytes c event bytes → bytes.length ≤ BUFFER_SIZE ∧
    (Tested c bytes ∨ held c + bytes.length ≤ HEADER_MAX_BUFFER * BUFFER_SIZE)

/-- The bound for a limit of the body. -/
def inputBound (m : ℕ) : ℕ := max (HEADER_MAX_BUFFER * BUFFER_SIZE) m

/-- A client within its bound; the hosts that it may be bound to are within the limit. -/
structure Bounded (m : ℕ) (c : Client) : Prop where
  hosts : ∀ name, (c.listenServer.bindClient name).getMaxSize ≤ m
  host : getMaxSize c ≤ m
  limit : c.getRequest.body_max_size ≤ m
  unbroken : Unbroken 13 10 c.getRequest.line
  held_le : held c ≤ inputBound m

/-- A request whose line is kept or emptied. -/
structure Slack (r r' : Request) : Prop where
  line : r'.line = r.line ∨ r'.line = []
  limit : r'.body_max_size = r.body_max_size

theorem Slack.same {r r' : Request} (hline : r'.line = r.line)
    (hlimit : r'.body_max_size = r.body_max_size) : Slack r r' := ⟨Or.inl hline, hlimit⟩

/-- Only the line and the limit of a request matter. -/
theorem Slack.congr {r s t : Request} (h : Slack s t) (hline : s.line = r.line)
    (hlimit : s.body_max_size = r.body_max_size) : Slack r t where
  line := by
    rw [← hline]
    exact h.line
  limit := h.limit.trans hlimit

theorem Slack.trans {r s t : Request} (h : Slack r s) (h' : Slack s t) : Slack r t where
  line := by
    rcases h'.line with hline | hline
    · rw [hline]
      exact h.line
    · exact Or.inr hline
  limit := h'.limit.trans h.limit

variable {m : ℕ}

/-- Another request in the place of the one before. -/
theorem Bounded.replace {c d : Client} (h : Bounded m c) (hserver : d.listenServer = c.listenServer)
    (hhost : d.host = c.host) (hbuffer : d.buffer = c.buffer)
    (hline : d.getRequest.line = c.getRequest.line ∨ d.getRequest.line = [])
    (hlimit : d.getRequest.body_max_size ≤ m) : Bounded m d where
  hosts := by
    rw [hserver]
    exact h.hosts
  host := by
    unfold getMaxSize
    rw [hhost]
    exact h.host
  limit := hlimit
  unbroken := by
    rcases hline with hline | hline
    · rw [hline]
      exact h.unbroken
    · rw [hline]
      exact unbroken_nil
  held_le := by
    have hheld := h.held_le
    unfold held at *
    rw [hbuffer]
    rcases hline with hline | hline
    · rw [hline]
      exact hheld
    · rw [hline, List.length_nil]
      omega

theorem Bounded.slack {c d : Client} (h : Bounded m c) (hserver : d.listenServer = c.listenServer)
    (hhost : d.host = c.host) (hbuffer : d.buffer = c.buffer)
    (hslack : Slack c.getRequest d.getRequest) : Bounded m d :=
  h.replace hserver hhost hbuffer hslack.line (by rw [hslack.limit]; exact h.limit)

theorem Bounded.same {c d : Client} (h : Bounded m c) (hserver : d.listenServer = c.listenServer)
    (hhost : d.host = c.host) (hbuffer : d.buffer = c.buffer)
    (hline : d.getRequest.line = c.getRequest.line)
    (hlimit : d.getRequest.body_max_size = c.getRequest.body_max_size) : Bounded m d :=
  h.slack hserver hhost hbuffer (.same hline hlimit)

theorem Bounded.setRequest {c : Client} (h : Bounded m c) {r : Request}
    (hslack : Slack c.getRequest r) : Bounded m (c.setRequest r) := h.slack rfl rfl rfl hslack

section Replies

variable (env : Env)

theorem handleRequestBodyDone_bounded {c : Client} (h : Bounded m c) :
    Bounded m (handleRequestBodyDone c).2 := by
  unfold handleRequestBodyDone
  dsimp only
  split
  · exact h.same rfl rfl rfl rfl rfl
  · split
    · exact h.same rfl rfl rfl rfl rfl
    · exact h.same rfl rfl rfl rfl rfl

theorem tryResponse_bounded {c : Client} (h : Bounded m c) (status : ℤ) :
    Bounded m (tryResponse env c status).2 := by
  have hslack : ∀ hints, Slack c.getRequest ({ (if status ≠ 0 then
      c.getRequest.setHintStatus status else c.getRequest) with resHints := hints } : Request) := by
    intro hints
    split
    · exact .same rfl rfl
    · exact .same rfl rfl
  unfold tryResponse
  dsimp only
  split
  · exact h.setRequest (hslack _)
  · exact h.slack rfl rfl rfl (hslack _)

theorem clearResponse_bounded {c : Client} (h : Bounded m c) : Bounded m c.clearResponse :=
  h.same rfl rfl rfl rfl rfl

theorem generateResponse_bounded {c : Client} (h : Bounded m c) (status : ℤ) :
    Bounded m (generateResponse env c status).2 := by
  have hfirst := tryResponse_bounded env h status
  unfold generateResponse
  split
  · exact h
  · dsimp only
    split
    · exact hfirst
    · split
      · exact clearResponse_bounded hfirst
      · have hsecond := tryResponse_bounded env (clearResponse_bounded hfirst) RES_INTERNAL_ERROR
        split
        · exact hsecond
        · exact clearResponse_bounded hsecond

theorem deleteCGIProcess_bounded {c : Client} (h : Bounded m c) : Bounded m c.deleteCGIProcess := by
  unfold Client.deleteCGIProcess
  split
  · exact h
  · exact h.same rfl rfl rfl rfl rfl

theorem generateCGIProcess_bounded {c : Client} (h : Bounded m c) :
    Bounded m (generateCGIProcess env c).2 := by
  unfold generateCGIProcess execCGI
  dsimp only
  by_cases hpid : env.pid > 0
  · rw [if_pos hpid]
    exact h.same rfl rfl rfl rfl rfl
  · rw [if_neg hpid]
    exact h.same rfl rfl rfl rfl rfl

theorem handleClientResponse_bounded {c : Client} (h : Bounded m c) (response : ℤ) :
    Bounded m (handleClientResponse env c response).2 := by
  have hprocess := generateCGIProcess_bounded env h
  unfold handleClientResponse
  split
  · exact generateResponse_bounded env h response
  · dsimp only
    split
    · exact generateResponse_bounded env hprocess _
    · exact hprocess

theorem respondTo_bounded {out : ℤ × Client} (h : Bounded m out.2) :
    Bounded m (respondTo env out).2 := by
  unfold respondTo
  split
  · exact handleClientResponse_bounded env h out.1
  · exact h

theorem deleteBodyStream_bounded {c : Client} (h : Bounded m c) : Bounded m c.deleteBodyStream := by
  unfold Client.deleteBodyStream
  split
  · exact h
  · dsimp only
    split
    · exact h.same rfl rfl rfl rfl rfl
    · exact h.same rfl rfl rfl rfl rfl

theorem clear_bounded {c : Client} (h : Bounded m c) : Bounded m c.clear := by
  have hcleared := deleteCGIProcess_bounded (deleteBodyStream_bounded h)
  unfold Client.clear
  exact hcleared.replace rfl rfl rfl (Or.inr rfl) (Int.natCast_nonneg m)

theorem terminate_bounded {c : Client} (h : Bounded m c) : Bounded m c.terminate :=
  (clear_bounded h).same rfl rfl rfl rfl rfl

end Replies

section Requests

theorem slack_of_routes {r r' : Request} (h : Routes r r') : Slack r r' where
  line := h.line
  limit := by rw [h.rest]

theorem parseURI_slack (r : Request) : Ends r.parseURI fun out => Slack r out.2 :=
  (parseURI_routes r).mono fun _ h => slack_of_routes h.1

theorem checkRequest_slack (host : Host) (fs : FileSystem) (r : Request) :
    Ends (host.checkRequest fs r) fun out => Slack r out.2 :=
  (checkRequest_routes host fs r).mono fun _ h => slack_of_routes h.1

theorem checkForbiddenHeaders_slack (r : Request) : Slack r (checkForbiddenHeaders r).2 :=
  slack_of_routes (checkForbiddenHeaders_routes r).1

theorem inspectHeaders_slack (headers : HeaderMap) (r : Request) :
    Slack r (Request.inspectHeaders headers r).2 := by
  unfold Request.inspectHeaders
  dsimp only
  split
  · exact .same rfl rfl
  · split
    · exact .same rfl rfl
    · split
      · exact .same rfl rfl
      · split
        · exact .same rfl rfl
        · exact .same rfl rfl

theorem parseCgiHeaders_slack (fs : FileSystem) (r : Request) :
    Ends (r.parseCgiHeaders fs) fun out => Slack r out.2 := by
  unfold Request.parseCgiHeaders
  refine Ends.bind_any ?_
  intro out
  obtain ⟨res, p⟩ := out
  dsimp only
  split
  · exact ends_pure.mpr (.same rfl rfl)
  · exact ends_pure.mpr ((inspectHeaders_slack _ _).congr rfl rfl)

end Requests

section Headers

theorem setHost_bounded {c : Client} (h : Bounded m c) (hostname : Bytes) :
    Bounded m (c.setHost hostname) := by
  unfold Client.setHost
  split
  · exact h
  · exact ⟨h.hosts, h.hosts hostname, h.limit, h.unbroken, h.held_le⟩

theorem assignHost_bounded {c : Client} (h : Bounded m c) : Bounded m (assignHost c).2 := by
  unfold assignHost
  dsimp only
  split
  · exact h.setRequest (.same rfl rfl)
  · exact setHost_bounded h _

theorem onRequest_bounded {check : Request → Checked (ℤ × Request)} {c : Client}
    (h : Bounded m c) (hcheck : Ends (check c.getRequest) fun out => Slack c.getRequest out.2) :
    Ends (onRequest check c) fun out => Bounded m out.2 := by
  refine Ends.bind hcheck ?_
  intro out hout
  exact ends_pure.mpr (h.setRequest hout)

/-- A body is announced with the limit of the host. -/
theorem announceBody_bounded {c : Client} (h : Bounded m c) : Bounded m (announceBody c) := by
  unfold announceBody
  dsimp only
  split
  · refine h.replace rfl rfl rfl (Or.inl ?_) h.host
    show Request.line (Request.setBodyMaxSize (if isChunked c.getRequest then
      c.getRequest.setChunked true else c.getRequest) (getMaxSize c)) = c.getRequest.line
    split
    · rfl
    · rfl
  · exact h

theorem checkNewBody_bounded {c : Client} (h : Bounded m c) : Bounded m (checkNewBody c).2 := by
  unfold checkNewBody checkBodyLength
  dsimp only
  split
  · split
    · exact h.setRequest (.same rfl rfl)
    · refine announceBody_bounded (h.setRequest ?_)
      unfold withLength
      split
      · exact .same rfl rfl
      · exact .same rfl rfl
  · exact h

theorem keepContentType_bounded {c : Client} (h : Bounded m c) : Bounded m (keepContentType c) := by
  unfold keepContentType
  dsimp only
  split
  · exact h.setRequest (.same rfl rfl)
  · exact h

theorem setBodyFile_bounded {c : Client} (h : Bounded m c) (path : Bytes) (opens : Bool) :
    Bounded m (c.setBodyFile path opens) := by
  unfold Client.setBodyFile
  dsimp only
  split
  · exact h.same rfl rfl rfl rfl rfl
  · exact h.same rfl rfl rfl rfl rfl

theorem setUnlink_bounded {c : Client} (h : Bounded m c) (unlink : Bool) :
    Bounded m (setUnlink c unlink) := h.same rfl rfl rfl rfl rfl

variable (env : Env)

theorem uploadTo_bounded {c : Client} (h : Bounded m c) (filePath : Bytes) (status : ℤ)
    (alreadyExist : Bool) : Bounded m (uploadTo env c filePath status alreadyExist) := by
  unfold uploadTo
  dsimp only
  refine keepContentType_bounded (setUnlink_bounded (setBodyFile_bounded ?_ _ _) _)
  exact h.setRequest (.same rfl rfl)

theorem defineBodyParsing_bounded {c : Client} (h : Bounded m c) :
    Bounded m (defineBodyParsing env c) := by
  unfold defineBodyParsing
  dsimp only
  split
  · exact keepContentType_bounded (setUnlink_bounded (setBodyFile_bounded h _ _) _)
  · split
    · split
      · exact uploadTo_bounded env h _ _ _
      · split
        · exact h.setRequest (.same rfl rfl)
        · exact uploadTo_bounded env h _ _ _
      · exact h.setRequest (.same rfl rfl)
    · exact keepContentType_bounded (setBodyFile_bounded h _ _)

theorem acceptHeaders_bounded {c : Client} (h : Bounded m c) (res : ℤ) :
    Bounded m (acceptHeaders env res c).2 := by
  have hdefined : Bounded m (if c.getRequest.resHints.cgiRedir = .none then
      defineBodyParsing env c else c) := by
    split
    · exact defineBodyParsing_bounded env h
    · exact h
  unfold acceptHeaders
  dsimp only
  split
  · exact hdefined.same rfl rfl rfl rfl rfl
  · exact hdefined.same rfl rfl rfl rfl rfl

theorem finishHeaders_bounded {c : Client} (h : Bounded m c) :
    Bounded m (finishHeaders env c).2 := by
  have hcontinue : Bounded m (checkContinue c).2 := by
    unfold checkContinue
    dsimp only
    split
    · split
      · exact h.setRequest (.same rfl rfl)
      · exact h
    · split
      · exact h.setRequest (.same rfl rfl)
      · exact h
  unfold finishHeaders
  dsimp only
  split
  · exact hcontinue
  · exact acceptHeaders_bounded env hcontinue _

theorem andThen_bounded {first : Checked (ℤ × Client)} {next : Client → Checked (ℤ × Client)}
    (hfirst : Ends first fun out => Bounded m out.2)
    (hnext : ∀ d, Bounded m d → Ends (next d) fun out => Bounded m out.2) :
    Ends (andThen first next) fun out => Bounded m out.2 := by
  refine Ends.andThen (I := Bounded m) (hfirst.mono ?_) hnext
  intro out hout
  exact ⟨fun _ => hout, fun _ => hout⟩

/-- The checks of a head leave what is held as it is, or empty its line. -/
theorem handleRequestHeaders_bounded {c : Client} (h : Bounded m c) :
    Ends (handleRequestHeaders env c) fun out => Bounded m out.2 := by
  refine andThen_bounded (ends_ok.mpr (assignHost_bounded h)) ?_
  intro c h
  refine andThen_bounded (onRequest_bounded h (parseURI_slack _)) ?_
  intro c h
  refine andThen_bounded (onRequest_bounded h (ends_ok.mpr (checkForbiddenHeaders_slack _))) ?_
  intro c h
  refine andThen_bounded (ends_ok.mpr (checkNewBody_bounded h)) ?_
  intro c h
  refine andThen_bounded (onRequest_bounded h (checkRequest_slack _ _ _)) ?_
  intro c h
  exact ends_ok.mpr (finishHeaders_bounded env h)

end Headers

section Steps

/-- What a parser leaves is within the bound when it leaves no more than it found. -/
theorem Bounded.parsed {c d : Client} (h : Bounded m c) (hserver : d.listenServer = c.listenServer)
    (hhost : d.host = c.host) {buffer : Bytes}
    (hdrains : Drains c.getRequest buffer d.getRequest d.buffer)
    (hheld : held d ≤ inputBound m) : Bounded m d where
  hosts := by
    rw [hserver]
    exact h.hosts
  host := by
    unfold getMaxSize
    rw [hhost]
    exact h.host
  limit := by
    rw [hdrains.limit]
    exact h.limit
  unbroken := hdrains.unbroken h.unbroken
  held_le := hheld

theorem inputBound_head (m : ℕ) : HEADER_MAX_BUFFER * BUFFER_SIZE ≤ inputBound m :=
  le_max_left _ _

theorem inputBound_buffer (m : ℕ) : BUFFER_SIZE ≤ inputBound m :=
  (by decide : BUFFER_SIZE ≤ HEADER_MAX_BUFFER * BUFFER_SIZE).trans (inputBound_head m)

/-- A call of the parser never leaves more than was there. -/
theorem parseRequest_fits {c : Client} (h : Bounded m c) {bytes : Bytes}
    (hfits : held c + bytes.length ≤ inputBound m) :
    Ends (c.parseRequest bytes) fun out => Bounded m out.2 := by
  have hjoined : c.getRequest.line.length + (c.buffer ++ bytes).length = held c + bytes.length := by
    rw [List.length_append]
    unfold held
    omega
  unfold Client.parseRequest
  dsimp only
  split
  · refine Ends.bind (parseHeaders_drains _ _) ?_
    intro out hout
    have hheld := hout.held
    refine ends_pure.mpr (h.parsed rfl rfl hout ?_)
    show out.2.2.length + out.2.1.line.length ≤ _
    omega
  · split
    · refine Ends.bind (parseInput_drains (c.getRequest, c.bodyStream) _) ?_
      intro out hout
      have hheld := hout.held
      refine ends_pure.mpr (h.parsed rfl rfl hout ?_)
      show out.2.2.length + out.2.1.1.line.length ≤ _
      dsimp only at hheld
      omega
    · refine ends_pure.mpr (h.parsed rfl rfl (Drains.refl c.getRequest (c.buffer ++ bytes)) ?_)
      show (c.buffer ++ bytes).length + c.getRequest.line.length ≤ _
      omega

theorem parseRequest_tested {c : Client} (h : Bounded m c) {bytes : Bytes} (hne : bytes ≠ [])
    (hsmall : bytes.length ≤ BUFFER_SIZE) (htested : Tested c bytes) :
    Ends (c.parseRequest bytes) fun out => Bounded m out.2 := by
  have hbuffer := inputBound_buffer m
  obtain ⟨hempty, hphase⟩ := htested
  unfold Client.parseRequest
  dsimp only
  rw [hempty, List.nil_append]
  rcases hphase with ⟨hheader, hhead⟩ | ⟨hheader, hbody, hopen⟩
  · rw [if_pos hheader]
    have hcall : Ends (c.getRequest.parseHeaders bytes) fun out =>
        Drains c.getRequest bytes out.2.1 out.2.2 ∧
          out.2.1.line.length + out.2.2.length ≤ max BUFFER_SIZE bytes.length := by
      intro out hout
      exact ⟨parseHeaders_drains _ _ out hout, parseHeaders_tested h.unbroken hhead out hout⟩
    refine Ends.bind hcall ?_
    intro out hout
    obtain ⟨hdrains, hheld⟩ := hout
    refine ends_pure.mpr (h.parsed rfl rfl hdrains ?_)
    show out.2.2.length + out.2.1.line.length ≤ _
    have hmax : max BUFFER_SIZE bytes.length ≤ inputBound m := max_le hbuffer (hsmall.trans hbuffer)
    omega
  · have hnot : ¬ c.headerStatus = .ongoing := by
      rw [hheader]
      decide
    rw [if_neg hnot, if_pos ⟨hheader, hbody⟩]
    have hcall : Ends (Request.parseInput (c.getRequest, c.bodyStream) bytes) fun out =>
        Drains c.getRequest bytes out.2.1.1 out.2.2 ∧ Within c.getRequest bytes.length out := by
      intro out hout
      exact ⟨parseInput_drains _ _ out hout,
        parseInput_tested c.bodyStream hne h.unbroken hopen out hout⟩
    refine Ends.bind hcall ?_
    intro out hout
    obtain ⟨hdrains, hheld⟩ := hout
    refine ends_pure.mpr (h.parsed rfl rfl hdrains ?_)
    show out.2.2.length + out.2.1.1.line.length ≤ _
    have hlimit := h.limit
    have hmax : bodyLimit c.getRequest bytes.length ≤ inputBound m := by
      refine max_le (hsmall.trans hbuffer) (le_max_of_le_right ?_)
      omega
    unfold Within at hheld
    omega

variable (env : Env)

theorem checkHeaders_bounded {c : Client} (h : Bounded m c) :
    Ends (checkHeaders env c) fun out => Bounded m out.2 := by
  refine Ends.bind (handleRequestHeaders_bounded env (c := { c with bodyStatus := .none })
    (h.same rfl rfl rfl rfl rfl)) ?_
  intro out hout
  exact ends_pure.mpr (hout.same rfl rfl rfl rfl rfl)

theorem finishBody_bounded (res : ℤ) {c : Client} (h : Bounded m c) :
    Bounded m (finishBody res c).2 := by
  unfold finishBody
  split
  · exact handleRequestBodyDone_bounded h
  · exact h

/-- Without new bytes nothing is added to what is held. -/
theorem parseRequest_again {c : Client} (h : Bounded m c) :
    Ends (c.parseRequest []) fun out => Bounded m out.2 := parseRequest_fits h h.held_le

theorem startBody_bounded {c : Client} (h : Bounded m c) :
    Ends (startBody c) fun out => Bounded m out.2 := by
  have hrest : Ends (parseRest c) fun out => Bounded m out.2 := by
    unfold parseRest
    split
    · exact parseRequest_again h
    · exact ends_ok.mpr h
  refine Ends.bind hrest ?_
  intro out hout
  exact ends_pure.mpr (finishBody_bounded out.1 hout)

theorem receive_bounded {c : Client} {bytes : Bytes}
    (hparse : Ends (c.parseRequest bytes) fun out => Bounded m out.2) :
    Ends (receive env c bytes) fun out => Bounded m out.2 := by
  refine Ends.bind hparse ?_
  intro out hout
  obtain ⟨res, d⟩ := out
  dsimp only at hout ⊢
  split
  · exact ends_pure.mpr hout
  · split
    · exact andThen_bounded (checkHeaders_bounded env hout) fun d hd => startBody_bounded hd
    · exact ends_pure.mpr (finishBody_bounded res hout)

theorem handleReadable_bounded {event : EpollEvent} {c : Client} (h : Bounded m c)
    (hguard : ∀ bytes, event.incoming = some bytes → bytes.length ≤ BUFFER_SIZE ∧
      (Tested c bytes ∨ held c + bytes.length ≤ HEADER_MAX_BUFFER * BUFFER_SIZE)) :
    Ends (handleReadable event c) fun out => Bounded m out.2 := by
  have hread : Ends (handleClientIn event c) fun out => Bounded m out.2 := by
    unfold handleClientIn
    cases hincoming : event.incoming with
    | none => exact ends_ok.mpr h
    | some bytes =>
      dsimp only
      split
      · exact ends_ok.mpr h
      · rename_i hne
        obtain ⟨hsmall, htested | hfits⟩ := hguard bytes hincoming
        · exact receive_bounded event.env (parseRequest_tested h hne hsmall htested)
        · exact receive_bounded event.env
            (parseRequest_fits h (hfits.trans (inputBound_head m)))
  refine Ends.bind hread ?_
  intro out hout
  exact ends_pure.mpr (respondTo_bounded event.env hout)

theorem followRedirect_bounded {c : Client} (h : Bounded m c) :
    Ends (followRedirect env c) fun out => Bounded m out.2 := by
  refine Ends.bind (handleRequestHeaders_bounded env (deleteCGIProcess_bounded h)) ?_
  intro out hout
  obtain ⟨res, d⟩ := out
  have hprocess := generateCGIProcess_bounded env hout
  dsimp only at hout hprocess ⊢
  split
  · exact ends_pure.mpr (generateResponse_bounded env hout _)
  · split
    · exact ends_pure.mpr (generateResponse_bounded env hout _)
    · split
      · exact ends_pure.mpr (generateResponse_bounded env (deleteCGIProcess_bounded hprocess) _)
      · exact ends_pure.mpr hprocess

theorem handleCGIProcess_bounded (event : EpollEvent) {c : Client} (h : Bounded m c) :
    Ends (handleCGIProcess event c) fun out => Bounded m out.2 := by
  unfold handleCGIProcess
  cases hcgi : c.cgiProcess with
  | none => exact ends_ok.mpr h
  | some p =>
    have hended : Bounded m { c with cgiProcess := some (checkEnd event.child p).2 } :=
      h.same rfl rfl rfl rfl rfl
    dsimp only
    split
    · exact ends_ok.mpr hended
    · split
      · exact ends_ok.mpr (generateResponse_bounded event.env (deleteCGIProcess_bounded hended) _)
      · refine Ends.bind (parseCgiHeaders_slack _ _) ?_
        intro out hout
        obtain ⟨verdict, request⟩ := out
        have hdue : Bounded m (withVerdict { c with cgiProcess := some (checkEnd event.child p).2 }
            verdict request) := hended.setRequest (hout.trans (.same rfl rfl))
        dsimp only
        split
        · exact ends_pure.mpr
            (generateResponse_bounded event.env (deleteCGIProcess_bounded hdue) _)
        · exact ends_pure.mpr (deleteCGIProcess_bounded hdue)
        · exact ends_pure.mpr (deleteCGIProcess_bounded (generateResponse_bounded event.env hdue 0))
        · exact ends_pure.mpr (deleteCGIProcess_bounded (generateResponse_bounded event.env hdue 0))
        · exact followRedirect_bounded event.env hdue

theorem afterWrite_bounded {c : Client} (h : Bounded m c) : Bounded m (afterWrite c).2 := by
  unfold afterWrite
  split
  · exact h
  · split
    · exact h.setRequest (.same rfl rfl)
    · split
      · exact h
      · exact h

theorem handleClientOut_bounded (written : Bytes → ℤ) {c : Client} (h : Bounded m c) :
    Bounded m (handleClientOut written c).2 := by
  unfold handleClientOut writeBuffer
  cases c.outBuffers with
  | nil => exact afterWrite_bounded h
  | cons front rest =>
    dsimp only
    by_cases hfail : written front < 0
    · rw [if_pos hfail]
      exact h
    · rw [if_neg hfail]
      exact afterWrite_bounded (h.same rfl rfl rfl rfl rfl)

/-- The next request starts with what is in the buffer already. -/
theorem keepAlive_bounded {c : Client} (h : Bounded m c) :
    Ends (keepAlive env c) fun out => Bounded m out.2 := by
  have hcleared : Bounded m (c.clear.setMode .read) := (clear_bounded h).same rfl rfl rfl rfl rfl
  refine Ends.bind (receive_bounded env (parseRequest_again hcleared)) ?_
  intro out hout
  exact ends_pure.mpr (respondTo_bounded env hout)

theorem handleResponseOut_bounded (event : EpollEvent) {c : Client} (h : Bounded m c) :
    Ends (handleResponseOut event c) fun out => Bounded m out.2 := by
  have hwritten := handleClientOut_bounded event.written h
  unfold handleResponseOut
  split
  · exact ends_ok.mpr h
  · cases hout : handleClientOut event.written c with
    | mk situation d =>
      rw [hout] at hwritten
      dsimp only at hwritten
      cases situation with
      | pending => exact ends_ok.mpr hwritten
      | close => exact ends_ok.mpr (terminate_bounded hwritten)
      | keepAlive => exact keepAlive_bounded event.next hwritten
      | «continue» => exact ends_ok.mpr (hwritten.same rfl rfl rfl rfl rfl)

theorem handleWritable_bounded (event : EpollEvent) {c : Client} (h : Bounded m c) :
    Ends (handleWritable event c) fun out => Bounded m out.2 := by
  refine Ends.bind (handleCGIProcess_bounded event h) ?_
  intro out hout
  obtain ⟨res, d⟩ := out
  dsimp only at hout ⊢
  split
  · exact ends_pure.mpr hout
  · exact handleResponseOut_bounded event hout

theorem handleEpoll_bounded {event : EpollEvent} {c : Client} (h : Bounded m c)
    (hguard : Guarded c (.epoll event)) : Ends (handleEpoll event c) (Bounded m) := by
  have hhandled : Ends (handleClientEvent event c) fun out => Bounded m out.2 := by
    unfold handleClientEvent
    split
    · exact ends_ok.mpr (terminate_bounded h)
    · rename_i hopen
      split
      · rename_i hreads
        refine handleReadable_bounded h ?_
        intro bytes hbytes
        exact hguard bytes ⟨event, rfl, hopen, hreads, hbytes⟩
      · split
        · exact handleWritable_bounded event h
        · exact ends_ok.mpr h
  refine Ends.bind hhandled ?_
  intro out hout
  obtain ⟨res, d⟩ := out
  dsimp only at hout ⊢
  split
  · exact ends_pure.mpr (terminate_bounded hout)
  · exact ends_pure.mpr hout

theorem checkTO_bounded (expired : Bool) {c : Client} (h : Bounded m c) :
    Bounded m (checkTO expired env c) := by
  unfold checkTO
  split
  · split
    · exact terminate_bounded h
    · rename_i request hrequest
      have hget : c.getRequest = request := by rw [Client.getRequest, hrequest, Option.getD_some]
      have hlimit := h.limit
      rw [hget] at hlimit
      refine generateResponse_bounded env ?_ _
      exact h.replace rfl rfl rfl (Or.inr rfl) hlimit
  · exact h

/-- A guarded step keeps a client within its bound. -/
theorem step_bounded {event : Event} {c : Client} (h : Bounded m c) (hguard : Guarded c event) :
    Ends (step c event) (Bounded m) := by
  unfold step
  split
  · exact ends_ok.mpr h
  · cases event with
    | epoll event => exact handleEpoll_bounded h hguard
    | timeOut expired env => exact ends_ok.mpr (checkTO_bounded env expired h)

end Steps

theorem newClient_bounded {server : ListenServer}
    (hhosts : ∀ name, (server.bindClient name).getMaxSize ≤ m) :
    Bounded m (Client.newClient server) where
  hosts := hhosts
  host := Int.natCast_nonneg m
  limit := Int.natCast_nonneg m
  unbroken := unbroken_nil
  held_le := Nat.zero_le _

/-- In every run of guarded steps the bytes held for a client stay within a bound given by the
size of a head and the limit of a body. -/
theorem held_le_inputBound {server : ListenServer}
    (hhosts : ∀ name, (server.bindClient name).getMaxSize ≤ m) {events : List Event} {c : Client}
    (h : Reaches step Guarded (Client.newClient server) events c) : held c ≤ inputBound m := by
  have hbounded : Bounded m c := by
    refine Reaches.invariant (newClient_bounded hhosts) ?_ h
    intro c event hc hguard
    exact step_bounded hc hguard
  exact hbounded.held_le

theorem plainServer_bind (name : Bytes) : plainServer.bindClient name = plainHost := by
  unfold ListenServer.bindClient
  cases hfind : plainServer.hostMap.find? name with
  | none => rfl
  | some host =>
    obtain ⟨e, he, rfl⟩ := OrderedMap.mem_of_find? hfind
    rw [List.mem_singleton.mp he]
    rfl

theorem script_head_bounded :
    ∃ c, Reaches step Guarded (Client.newClient plainServer) [reading scriptHead] c ∧
      held c ≤ inputBound 2147483647 := by
  have hhosts : ∀ name, (plainServer.bindClient name).getMaxSize ≤ (2147483647 : ℕ) := by
    intro name
    rw [plainServer_bind]
    decide
  have hrun : (step (Client.newClient plainServer) (reading scriptHead)).toOption.any
      (fun _ => true) = true := by decide +kernel
  obtain ⟨c, hc, -⟩ := exists_of_any hrun
  have hguard : Guarded (Client.newClient plainServer) (reading scriptHead) := by
    intro bytes ⟨e, he, _, _, hbytes⟩
    obtain rfl := Event.epoll.inj he
    obtain rfl : scriptHead = bytes := Option.some.inj hbytes
    exact ⟨by decide +kernel, Or.inr (by decide +kernel)⟩
  have hreach : Reaches step Guarded (Client.newClient plainServer) ([] ++ [reading scriptHead])
      c := .snoc .nil hguard hc
  exact ⟨c, hreach, held_le_inputBound hhosts hreach⟩

/-- A client in the middle of a request line of `n` letters. -/
structure InLine (n : ℕ) (c : Client) : Prop where
  alive : c.alive = true
  mode : c.mode = .read
  header : c.headerStatus = .ongoing
  buffer : c.buffer = []
  status : c.getRequest.status = .rline
  trailer : c.getRequest.trailer_status = .term
  line : c.getRequest.line = List.replicate n 65

theorem replicate_unbroken (n : ℕ) : Unbroken 13 10 (List.replicate n (65 : UInt8)) := by
  refine unbroken_of_not_mem ?_
  intro hmem
  exact absurd (List.eq_of_mem_replicate hmem) (by decide)

/-- No size is tested before the end of the request line. -/
theorem checkSizes_rline {r : Request} (hr : r.status = .rline) (ht : r.trailer_status = .term) :
    r.checkSizes = (0, r) := by
  unfold Request.checkSizes
  rw [hr, ht, if_neg (by decide), if_neg (fun h => absurd h.1 (by decide)), if_neg (by decide)]

theorem requestLine_letter {r : Request} {n : ℕ} (hr : r.status = .rline)
    (ht : r.trailer_status = .term) (hline : r.line = List.replicate n 65) :
    r.requestLine [65] = .ok (0, { r with line := List.replicate (n + 1) 65 }, []) := by
  have hjoined : r.line ++ [65] = List.replicate (n + 1) 65 := by
    rw [hline, List.replicate_succ']
  rw [Request.requestLine_eq r hr, hjoined, cutAt_eq_none_iff.mpr (replicate_unbroken (n + 1))]
  dsimp only
  rw [checkSizes_rline (by exact hr) (by exact ht)]

/-- A read that the parser takes without an answer. -/
theorem reading_step {c d : Client} {bytes : Bytes} (halive : c.alive = true)
    (hmode : c.mode = .read) (hne : bytes ≠ []) (hparse : c.parseRequest bytes = .ok (0, d)) :
    step c (reading bytes) = .ok d := by
  have hreceive : receive plainEnv c bytes = .ok (0, d) := by
    unfold receive
    rw [hparse]
    rfl
  unfold step
  rw [if_neg (by rw [halive]; decide)]
  show handleEpoll _ c = _
  unfold handleEpoll handleClientEvent
  rw [hmode, if_neg (by rintro (h | h) <;> cases h), if_pos ⟨rfl, Or.inl rfl⟩]
  unfold handleReadable handleClientIn
  dsimp only
  rw [if_neg hne, hreceive]
  rfl

theorem letter_taken {n : ℕ} {c : Client} {r : Request} (halive : c.alive = true)
    (hmode : c.mode = .read) (hheader : c.headerStatus = .ongoing) (hbuffer : c.buffer = [])
    (hr : r.status = .rline) (ht : r.trailer_status = .term) (hline : r.line = List.replicate n 65)
    (hparse : c.getRequest.parseHeaders [65] = r.requestLine [65]) :
    ∃ d, step c (reading [65]) = .ok d ∧ InLine (n + 1) d := by
  have hcall : c.parseRequest [65] = .ok (0, { c with
      request := some { r with line := List.replicate (n + 1) 65 }
      buffer := []
      headerStatus := .ongoing }) := by
    unfold Client.parseRequest
    dsimp only
    rw [if_pos hheader, hbuffer, List.nil_append, hparse, requestLine_letter hr ht hline]
    rfl
  refine ⟨_, reading_step halive hmode (List.cons_ne_nil _ _) hcall, ?_⟩
  exact ⟨halive, hmode, rfl, rfl, hr, ht, rfl⟩

/-- The client that has been sent `n + 1` letters and no end of a line. -/
theorem letters_held (server : ListenServer) (n : ℕ) :
    ∃ events c, Reaches step SmallReads (Client.newClient server) events c ∧ InLine (n + 1) c := by
  have hsmall : ∀ c, SmallReads c (reading [65]) := by
    intro c bytes ⟨e, he, _, _, hbytes⟩
    obtain rfl := Event.epoll.inj he
    obtain rfl : [65] = bytes := Option.some.inj hbytes
    decide
  induction n with
  | zero =>
    have hstart : Request.parseHeaders {} [65] =
        Request.requestLine { status := .rline, header_size := toInt ([65] : Bytes).length }
          [65] :=
      parseHeaders_start {} rfl (by decide) (List.cons_ne_nil _ _)
    obtain ⟨d, hstep, hline⟩ := letter_taken (c := Client.newClient server) (n := 0) rfl rfl rfl rfl
      rfl rfl rfl hstart
    exact ⟨[] ++ [reading [65]], d, .snoc .nil (hsmall _) hstep, hline⟩
  | succ n ih =>
    obtain ⟨events, c, hreach, hline⟩ := ih
    have hnext := parseHeaders_inHead (Or.inl hline.status) [65]
    obtain ⟨d, hstep, hline'⟩ := letter_taken (r := grow c.getRequest 1) hline.alive hline.mode
      hline.header hline.buffer hline.status hline.trailer hline.line hnext
    exact ⟨events ++ [reading [65]], d, .snoc hreach (hsmall c) hstep, hline'⟩

/-- A request line without an end is held in full, whatever its length. -/
theorem held_unbounded :
    ¬ ∃ bound : ℕ → ℕ, ∀ (m : ℕ) (server : ListenServer) (events : List Event) (c : Client),
      (∀ name, (server.bindClient name).getMaxSize ≤ m) →
        Reaches step SmallReads (Client.newClient server) events c → held c ≤ bound m := by
  intro ⟨bound, hbound⟩
  have hhosts : ∀ name, (plainServer.bindClient name).getMaxSize ≤ (2147483647 : ℕ) := by
    intro name
    rw [plainServer_bind]
    decide
  obtain ⟨events, c, hreach, hline⟩ := letters_held plainServer (bound 2147483647)
  have hheld := hbound 2147483647 plainServer events c hhosts hreach
  unfold held at hheld
  rw [hline.buffer, hline.line, List.length_replicate, List.length_nil] at hheld
  omega

end Webserveau.BoundedInput
