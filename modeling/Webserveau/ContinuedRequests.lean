import Webserveau.ExpectedAnswers
import Webserveau.HeadSegmentation

/-!
From the head of a request that waits for the answer 100 to its final answer.
The bytes of a run are those of one request, cut into reads at any places. What a client
has parsed of them stands for all that it has read, so the read that completes the head
finds the request that the whole text has, and the body is counted from there.
-/
namespace Webserveau.ContinuedRequests

open ByteStrings OrderedMaps Formats Requests Clients EventLoop Checks Transitions Intake Replies
  HeadSegmentation Numerals Acceptance BodyIntake ContentLength LoopSteps BodyEvents StatusLines
  UploadChecks AnswerLogs ExpectedAnswers

/-- A client that waits for a request, of which nothing has been parsed. -/
structure Waiting (s : Client) : Prop where
  alive : s.alive = true
  mode : s.mode = .read
  header : s.headerStatus = .ongoing
  request : s.getRequest = {}
  response : s.response = none
  process : s.cgiProcess = none

/-- A request that asks for the answer 100 and announces a body of `n` bytes. -/
structure Asks (n : ℕ) (r : Request) : Prop where
  expects : r.getHeader (ascii "expect") = ascii "100-continue"
  field : r.checkHeader (ascii "content-length") = true
  length : Denotes 10 (r.getHeader (ascii "content-length")) n
  positive : 0 < n
  plain : isChunked r = false

/-- Bytes that go on with the head of a request, or complete it, and are not refused. -/
def Accepts (env : Env) (x : Client) (bytes : Bytes) : Prop :=
  x.headerStatus = .ongoing → ∀ res c, x.parseRequest bytes = .ok (res, c) →
    res = 0 ∨ res = -1 ∧ ∃ d, checkHeaders env c = .ok (0, d)

/-- With the end of the head come fewer than `n` bytes of the body. -/
def LeavesBody (n : ℕ) (x : Client) (bytes : Bytes) : Prop :=
  x.headerStatus = .ongoing → ∀ c, x.parseRequest bytes = .ok (-1, c) → c.buffer.length < n

/-- A run in which a client reads a request that is accepted, with the bytes read so far.
The first of them may have come with the request before, and are looked at when that is
over. -/
inductive Exchange (Taken : Client → Bytes → Prop) (Allowed : Client → Event → Prop)
    (s : Client) : Bytes → Client → Prop
  | waiting : s.buffer = [] → Exchange Taken Allowed s [] s
  | kept {b d y : Client} {event : EpollEvent} : b.alive = true → Writable b event →
      handleWritable event b = keepAlive event.next d → s = d.clear.setMode .read →
      Accepts event.next s [] → Taken s [] → step b (.epoll event) = .ok y →
      Exchange Taken Allowed s s.buffer y
  | next {text : Bytes} {x y : Client} {event : Event} : Exchange Taken Allowed s text x →
      Undisturbed x event → Accepts (envOf event) x (arrived x event) →
      Taken x (arrived x event) → Allowed x event → step x event = .ok y →
      Exchange Taken Allowed s (text ++ arrived x event) y

/-- A client in the course of a head: it parses on as if it parsed all of it. -/
structure Heading (s : Client) (text : Bytes) (x : Client) : Prop where
  alive : x.alive = true
  mode : x.mode = .read
  header : x.headerStatus = .ongoing
  response : x.response = none
  process : x.cgiProcess = none
  host : x.host = s.host
  server : x.listenServer = s.listenServer
  logs : Logs [] s x
  parses : ∀ more, x.getRequest.parseHeaders (x.buffer ++ more) =
    Request.parseHeaders {} (text ++ more)

/-- How far an exchange is: its head is incomplete, or its body is counted. -/
inductive Phase (s : Client) (n : ℕ) (text : Bytes) (x : Client) : Prop
  | heading : Heading s text x →
      Request.parseHeaders {} text = .ok (0, x.getRequest, x.buffer) → Phase s n text x
  | asked (r : Request) (body : Bytes) : Request.parseHeaders {} text = .ok (-1, r, body) →
      Stage s n body.length x → Phase s n text x

/-- A client that is kept for another request waits for it. -/
theorem kept_waiting {d : Client} (h : d.alive = true) : Waiting (d.clear.setMode .read) := by
  have hcgi : (view (d.clear.setMode .read)).cgi = none := congrArg View.cgi (clear_view d)
  exact ⟨(clear_alive d).trans h, rfl, rfl, rfl, rfl, process_none hcgi⟩

theorem Waiting.heading {s : Client} (h : Waiting s) : Heading s s.buffer s := by
  refine ⟨h.alive, h.mode, h.header, h.response, h.process, rfl, rfl, .of_eq rfl rfl, ?_⟩
  intro more
  rw [h.request]

/-- A request that is accepted with its body outstanding. -/
structure Continuing (c : Client) (n : ℕ) (d : Client) : Prop where
  measures : Measures d n 0
  mode : d.mode = .write
  response : (view d).response = some RES_CONTINUE
  expect : (view d).expect = CONTINUE
  buffer : d.buffer = c.buffer
  process : d.cgiProcess = none
  alive : d.alive = c.alive
  upload : UploadStatus d.getRequest
  status : d.getRequest.resHints.status ≠ RES_CONTINUE
  logs : Logs [RES_CONTINUE] c d

theorem entered_logs {c d : Client} (h : Entered c d) (hexpect : (view c).expect = CONTINUE) :
    Logs [RES_CONTINUE] c d := by
  obtain ⟨opens, htrace, hall⟩ := h.trace
  have hout := h.outBuffers
  rw [if_pos hexpect] at htrace hout
  have hsilent : ∀ a ∈ opens, Silent a := by
    intro a ha
    obtain ⟨path, rfl⟩ := hall a ha
    trivial
  have hopens : Logs [] c { c with trace := c.trace ++ opens } :=
    .of_silent ⟨opens, rfl, hsilent⟩ rfl
  have hanswered : Logs [RES_CONTINUE] { c with trace := c.trace ++ opens } d := by
    refine ⟨[.responded 100 [] continueBuffers none], htrace, rfl, ?_⟩
    show d.outBuffers = c.outBuffers ++ (continueBuffers ++ [])
    rw [hout, List.append_nil]
  exact hopens.trans hanswered

/-- An accepted request that waits for the answer 100 is given it. -/
theorem checkHeaders_continuing (env : Env) {c d : Client} {r : Request} {n : ℕ}
    (hread : HeadRead r) (hrequest : c.request = some r) (hasks : Asks n r)
    (hint : (n : ℤ) ≤ INT32_MAX) (hintact : ¬ BrokenDefault (hostOf c) r.uri)
    (hprocess : c.cgiProcess = none) (h : checkHeaders env c = .ok (0, d)) :
    Continuing c n d := by
  have hget : c.getRequest = r := by
    rw [Client.getRequest, hrequest]
    rfl
  have hexpect : (view { c with bodyStatus := .none }).expect = CONTINUE := by
    show c.getRequest.getHeader (ascii "expect") = CONTINUE
    rw [hget]
    exact hasks.expects
  have hlength : bodyLength r = n := (bodyLength_eq_iff hasks.field hasks.length).mpr hint
  have hpositive := hasks.positive
  have hmeasures : Measures d n 0 := by
    cases checkHeaders_announced hread hasks.plain env hrequest h with
    | empty hempty => omega
    | measured _ _ hmeasures =>
      rw [hlength] at hmeasures
      exact hmeasures
    | stuck _ hbroken => exact absurd hbroken hintact
  unfold checkHeaders at h
  rw [bind_eq_ok_iff] at h
  obtain ⟨⟨res, e⟩, hheaders, hrecord⟩ := h
  change Except.ok (res, e.record (.checked res)) = _ at hrecord
  rw [Except.ok.injEq, Prod.mk.injEq] at hrecord
  obtain ⟨rfl, rfl⟩ := hrecord
  have hentered := handleRequestHeaders_entered env (c := { c with bodyStatus := .none })
    (by
      show c.getRequest.resHints.cgiRedir = .none
      rw [hget]
      exact hread.cgiRedir) hheaders
  have hstatus := handleRequestHeaders_status env hheaders
  have haccepted : Accepted { c with bodyStatus := .none } 0 e := by
    rcases handleRequestHeaders_checked env _ _ hheaders with hrefused | haccepted
    · have hverdict : (300 : ℤ) ≤ 0 := hrefused.verdict
      omega
    · exact haccepted
  obtain ⟨body, type, path, hview⟩ := haccepted.settled
  rw [if_pos hexpect] at hview
  refine ⟨hmeasures, ?_, ?_, ?_, hentered.buffer, process_none ?_, haccepted.alive_eq,
    hentered.upload, hstatus, ?_⟩
  · exact congrArg View.mode hview
  · exact congrArg View.response hview
  · exact (congrArg View.expect hview).trans hexpect
  · refine (congrArg View.cgi hview).trans ?_
    show c.cgiProcess.map CGIProcess.output = none
    rw [hprocess]
    rfl
  · exact (entered_logs hentered hexpect).silent (.record trivial)

/-- The bytes that came with the head are counted, and the body goes on. -/
theorem Continuing.startBody {s c d : Client} {n : ℕ} (h : Continuing c n d)
    (halive : c.alive = true) (hlogs : Logs [] s c) (hshort : c.buffer.length < n) :
    ∃ z, startBody d = .ok (0, z) ∧ Stage s n c.buffer.length z := by
  obtain ⟨r, hcounted, hmeasures, hstart⟩ :=
    startBody_filling h.measures (by rwa [h.buffer, Nat.sub_zero])
  obtain ⟨hupload, hstatus, hheader⟩ := counted_kept hcounted h.upload h.status
  rw [h.buffer, Nat.zero_add] at hmeasures
  refine ⟨_, hstart, .taking ?_ ?_ ?_ ?_⟩
  · rw [h.buffer]
    exact ⟨hmeasures, rfl, h.process, h.alive.trans halive, hupload, hstatus⟩
  · exact .continuing h.mode h.response (hheader.trans h.expect)
  · intro hread
    have hwrite : d.mode = .write := h.mode
    rw [show d.mode = .read from hread] at hwrite
    cases hwrite
  · exact (hlogs.trans h.logs).silent (.of_eq rfl rfl)

theorem hostOf_congr {c d : Client} (hhost : c.host = d.host)
    (hserver : c.listenServer = d.listenServer)
    (hname : c.getRequest.getHeader (ascii "host") = d.getRequest.getHeader (ascii "host")) :
    hostOf c = hostOf d := by
  unfold hostOf Client.setHost
  rw [hname, hhost, hserver]
  split
  · rw [hhost]
  · rfl

/-- A client whose head has just been completed. -/
def headed (x : Client) (r : Request) (rest : Bytes) : Client :=
  { x.setRequest r with buffer := rest, headerStatus := .ready }

theorem fresh_open : Open {} := by
  show Status.new ≠ .term
  decide

/-- A read in the course of the head leaves it incomplete, or has the body counted. -/
theorem Heading.receive (env : Env) {s x : Client} {text bytes more body : Bytes} {r : Request}
    {n : ℕ} (h : Heading s text x) (haccepts : Accepts env x bytes) (hleaves : LeavesBody n x bytes)
    (hwhole : Request.parseHeaders {} (text ++ bytes ++ more) = .ok (-1, r, body))
    (hasks : Asks n r) (hint : (n : ℤ) ≤ INT32_MAX)
    (hintact : ¬ BrokenDefault (hostOf (s.setRequest r)) r.uri) {out : ℤ × Client}
    (hout : receive env x bytes = .ok out) :
    ∃ y, respondTo env out = (0, y) ∧ Phase s n (text ++ bytes) y := by
  have hparse : x.parseRequest bytes = (Request.parseHeaders {} (text ++ bytes) >>= fun out =>
      .ok (out.1, { x.setRequest out.2.1 with
        buffer := out.2.2
        headerStatus := if out.1 < 0 then .ready else .ongoing })) := by
    unfold Client.parseRequest
    rw [if_pos h.header, ← h.parses bytes]
    rfl
  cases hhead : Request.parseHeaders {} (text ++ bytes) with
  | error e =>
    rw [hhead] at hparse
    unfold EventLoop.receive at hout
    rw [hparse] at hout
    cases hout
  | ok parsed =>
    obtain ⟨res, r₁, rest⟩ := parsed
    rw [hhead] at hparse
    have hlogs : ∀ c : Client, c.trace = x.trace → c.outBuffers = x.outBuffers → Logs [] s c :=
      fun c htrace hqueue => h.logs.silent (.of_eq htrace hqueue)
    rcases haccepts h.header _ _ hparse with hzero | ⟨hminus, -⟩
    · dsimp only at hzero
      subst hzero
      unfold EventLoop.receive at hout
      rw [hparse] at hout
      cases hout
      refine ⟨_, respondTo_zero env _, .heading ⟨h.alive, h.mode, rfl, h.response, h.process,
        h.host, h.server, hlogs _ rfl rfl, ?_⟩ hhead⟩
      intro more
      obtain ⟨-, hrest, hnext⟩ := parseHeaders_incremental _ _ _ _ fresh_open hhead
      rw [← hnext more]
      show r₁.parseHeaders (rest ++ more) = _
      rw [hrest]
      rfl
    · dsimp only at hminus
      subst hminus
      have hheaded : x.parseRequest bytes = .ok (-1, headed x r₁ rest) := hparse
      rcases haccepts h.header _ _ hheaded with hzero | ⟨-, d, hchecked⟩
      · exact absurd hzero (by decide)
      · have hgrown := parseHeaders_extend fresh_open hhead more
        rw [hwhole, Except.ok.injEq, Prod.mk.injEq, Prod.mk.injEq] at hgrown
        obtain ⟨-, hr, hbody⟩ := hgrown
        rw [hr] at hasks hintact
        have hasks₁ : Asks n r₁ :=
          ⟨hasks.expects, hasks.field, hasks.length, hasks.positive, hasks.plain⟩
        have hhost : hostOf (headed x r₁ rest) = hostOf (s.setRequest (grow r₁ more.length)) :=
          hostOf_congr h.host h.server rfl
        have hcontinuing := checkHeaders_continuing env (c := headed x r₁ rest)
          (headRead_of_parse hhead) rfl hasks₁ hint (by rwa [hhost]) h.process hchecked
        obtain ⟨z, hstart, hstage⟩ := hcontinuing.startBody h.alive (hlogs _ rfl rfl)
          (hleaves h.header _ hheaded)
        have hboth : EventLoop.receive env x bytes = .ok (0, z) := by
          unfold EventLoop.receive
          rw [hheaded]
          show andThen (checkHeaders env (headed x r₁ rest)) EventLoop.startBody = _
          unfold andThen
          rw [hchecked]
          exact hstart
        rw [hboth, Except.ok.injEq] at hout
        subst hout
        exact ⟨z, respondTo_zero env z, .asked r₁ rest hhead hstage⟩

section Run

variable {s : Client} {r : Request} {n : ℕ} {total body : Bytes}

/-- One more event of an exchange that is to read the whole text. -/
theorem Phase.step {text more : Bytes} {x y : Client} {event : Event} (h : Phase s n text x)
    (hasks : Asks n r) (hint : (n : ℤ) ≤ INT32_MAX)
    (hintact : ¬ BrokenDefault (hostOf (s.setRequest r)) r.uri)
    (hwhole : Request.parseHeaders {} (text ++ arrived x event ++ more) = .ok (-1, r, body))
    (hbody : body.length = n) (hevent : Undisturbed x event)
    (haccepts : Accepts (envOf event) x (arrived x event))
    (hleaves : LeavesBody n x (arrived x event)) (hanswering : Answering x event)
    (hstep : EventLoop.step x event = .ok y) : Phase s n (text ++ arrived x event) y := by
  cases h with
  | heading hheading hhead =>
    have hmode : x.mode ≠ .error := by
      rw [hheading.mode]
      exact Mode.noConfusion
    cases step_happens hheading.alive hmode hevent hstep with
    | nothing hnil hsame =>
      rw [hnil, hsame, List.append_nil]
      exact .heading hheading hhead
    | read e bytes out he _ _ harrived hout hy =>
      rw [harrived] at hwhole haccepts hleaves ⊢
      rw [he] at haccepts
      obtain ⟨z, hanswer, hphase⟩ :=
        hheading.receive e.env haccepts hleaves hwhole hasks hint hintact hout
      rw [hanswer] at hy
      rwa [hy (Int.le_refl 0)]
    | written e out _ hwritable _ _ _ _ =>
      obtain ⟨-, -, -, hwrite⟩ := hwritable
      rw [hheading.mode] at hwrite
      cases hwrite
  | asked r₁ body₁ hhead hstage =>
    have hgrown := parseHeaders_extend fresh_open hhead (arrived x event)
    have hfull := parseHeaders_extend fresh_open hgrown more
    rw [hwhole, Except.ok.injEq, Prod.mk.injEq, Prod.mk.injEq] at hfull
    obtain ⟨-, -, hrest⟩ := hfull
    have hle : body₁.length + (arrived x event).length ≤ n := by
      rw [← hbody, hrest, List.length_append, List.length_append]
      omega
    refine .asked _ _ hgrown ?_
    rw [List.length_append]
    exact hstage.step hevent hanswering hstep hle

/-- An exchange goes through its phases. -/
theorem Exchange.phase {text : Bytes} {x : Client}
    (h : Exchange (LeavesBody n) Answering s text x) (hwaiting : Waiting s) (hasks : Asks n r)
    (hint : (n : ℤ) ≤ INT32_MAX) (hintact : ¬ BrokenDefault (hostOf (s.setRequest r)) r.uri)
    (hbody : body.length = n) :
    ∀ more, Request.parseHeaders {} (text ++ more) = .ok (-1, r, body) → Phase s n text x := by
  induction h with
  | waiting hbuffer =>
    intro more _
    have hheading := hwaiting.heading
    rw [hbuffer] at hheading
    refine .heading hheading ?_
    rw [hwaiting.request, hbuffer]
    rfl
  | @kept b d y event halive hwritable hkept hs haccepts hleaves hstep =>
    intro more hwhole
    have hout : (keepAlive event.next d >>= fun out =>
        if out.1 < 0 then pure out.2.terminate else pure out.2) = .ok y := by
      obtain ⟨hopen, hbusy, hwrite⟩ := hwritable
      unfold EventLoop.step at hstep
      rw [if_neg (by rw [halive]; exact Bool.noConfusion)] at hstep
      dsimp only at hstep
      unfold handleEpoll handleClientEvent at hstep
      rw [if_neg hopen, if_neg hbusy, if_pos hwrite, hkept] at hstep
      exact hstep
    unfold keepAlive at hout
    rw [← hs] at hout
    cases hreceive : receive event.next s [] with
    | error e =>
      rw [hreceive] at hout
      cases hout
    | ok out =>
      have hfull : Request.parseHeaders {} (s.buffer ++ [] ++ more) = .ok (-1, r, body) := by
        rwa [List.append_nil]
      obtain ⟨z, hanswer, hphase⟩ := hwaiting.heading.receive event.next haccepts hleaves hfull
        hasks hint hintact hreceive
      rw [hreceive] at hout
      simp only [bind, Except.bind, pure, Except.pure, hanswer] at hout
      rw [if_neg (by omega), Except.ok.injEq] at hout
      rw [List.append_nil] at hphase
      rwa [← hout]
  | next hrun hevent haccepts hleaves hanswering hstep ih =>
    intro more hwhole
    exact (ih _ (by rwa [← List.append_assoc])).step hasks hint hintact hwhole hbody hevent
      haccepts hleaves hanswering hstep

/-- Where the end of the head comes with less than the whole body, the length fits, the
default URI stands and each process gives a verdict, every exchange that is over has
brought the answer 100 and one final answer. -/
theorem expected_request_answered {x : Client} (hwaiting : Waiting s)
    (hrun : Exchange (LeavesBody n) Answering s total x)
    (hhead : Request.parseHeaders {} total = .ok (-1, r, body)) (hbody : body.length = n)
    (hasks : Asks n r) (hint : (n : ℤ) ≤ INT32_MAX)
    (hintact : ¬ BrokenDefault (hostOf (s.setRequest r)) r.uri) (hflushed : x.outBuffers = [])
    (hended : x.cgiProcess = none) : Delivered s x := by
  have hphase := hrun.phase hwaiting hasks hint hintact hbody []
  rw [List.append_nil] at hphase
  cases hphase hhead with
  | heading _ hzero =>
    rw [hhead] at hzero
    cases hzero
  | asked r₁ body₁ hasked hstage =>
    rw [hhead, Except.ok.injEq, Prod.mk.injEq, Prod.mk.injEq] at hasked
    obtain ⟨-, -, rfl⟩ := hasked
    rw [hbody] at hstage
    exact hstage.delivered hflushed hended

end Run

/-- The head of an upload of five bytes that waits for the answer 100. -/
def expectHead : Bytes :=
  ascii "PUT /f HTTP/1.1" ++ CRLF ++ ascii "Host: a" ++ CRLF ++ ascii "Content-Length: 5" ++
    CRLF ++ ascii "Expect: 100-continue" ++ CRLF ++ CRLF

def receiving (bytes : Bytes) : Event := .epoll {
  epollin := true
  incoming := some bytes
  output := plainFiles []
  env := Uploads.uploadEnv
  next := Uploads.uploadEnv }

theorem plainServer_waiting : Waiting (Client.newClient plainServer) :=
  ⟨rfl, rfl, rfl, rfl, rfl, rfl⟩

section Samples

variable {Taken : Client → Bytes → Prop} {Allowed : Client → Event → Prop} {s x y : Client}
  {text : Bytes}

theorem Exchange.received (h : Exchange Taken Allowed s text x) (halive : x.alive = true)
    (hmode : x.mode = .read) {bytes : Bytes} (hne : bytes ≠ [])
    (haccepts : Accepts Uploads.uploadEnv x bytes) (htaken : Taken x bytes)
    (hallowed : Allowed x (receiving bytes)) (hstep : step x (receiving bytes) = .ok y) :
    Exchange Taken Allowed s (text ++ bytes) y := by
  have hopen : ¬ (false = true ∨ x.mode = .error) := by
    rw [hmode]
    decide
  have harrived : arrived x (receiving bytes) = bytes := by
    unfold arrived
    rw [if_pos halive]
    exact if_pos ⟨hopen, rfl, Or.inl hmode⟩
  have hevent : Undisturbed x (receiving bytes) := ⟨rfl, fun _ => hne, fun _ => rfl⟩
  have hrun := h.next hevent (by rwa [harrived]) (by rwa [harrived]) hallowed hstep
  rwa [harrived] at hrun

theorem Exchange.wrote (h : Exchange Taken Allowed s text x) (hheader : x.headerStatus ≠ .ongoing)
    (htaken : Taken x []) (hallowed : Allowed x (writing .running []))
    (hstep : step x (writing .running []) = .ok y) : Exchange Taken Allowed s text y := by
  have harrived : arrived x (writing .running []) = [] := by
    unfold arrived
    split
    · exact if_neg fun hin => Bool.noConfusion hin.2.1
    · rfl
  have hevent : Undisturbed x (writing .running []) :=
    ⟨rfl, fun hin => Bool.noConfusion hin.2.1, fun _ => rfl⟩
  have hrun := h.next hevent (fun hongoing => absurd hongoing hheader) (by rwa [harrived])
    hallowed hstep
  rwa [harrived, List.append_nil] at hrun

end Samples

/-- What is looked at in the first read of a run that ends with `final`. -/
def firstRead (final : Client → Bool) (bytes : Bytes) (rest : ℕ) : Bool :=
  ((Client.newClient plainServer).parseRequest bytes).toOption.any (fun out => out.1 = -1 ∧
    out.2.buffer.length = rest ∧
    (checkHeaders Uploads.uploadEnv out.2).toOption.any fun out => out.1 = 0) ∧
  (step (Client.newClient plainServer) (receiving bytes)).toOption.any final

theorem firstRead_sound (Taken : Client → Bytes → Prop) (Allowed : Client → Event → Prop)
    {final : Client → Bool} {bytes : Bytes} {rest : ℕ} (h : firstRead final bytes rest = true)
    (hne : bytes ≠ []) (hallowed : Allowed (Client.newClient plainServer) (receiving bytes))
    (htaken : (∀ c, (Client.newClient plainServer).parseRequest bytes = .ok (-1, c) →
      c.buffer.length = rest) → Taken (Client.newClient plainServer) bytes) :
    ∃ x, Exchange Taken Allowed (Client.newClient plainServer) bytes x ∧ final x = true := by
  obtain ⟨hread, hstep⟩ := of_decide_eq_true h
  obtain ⟨⟨res, c⟩, hparse, hout⟩ := exists_of_any hread
  obtain ⟨hres, hrest, haccept⟩ := of_decide_eq_true hout
  obtain ⟨⟨code, d⟩, hcheck, hcode⟩ := exists_of_any haccept
  obtain ⟨x, hx, hfinal⟩ := exists_of_any hstep
  have hzero : code = 0 := of_decide_eq_true hcode
  dsimp only at hres hrest
  subst hres hzero
  have honly : ∀ out, (Client.newClient plainServer).parseRequest bytes = .ok out → out = (-1, c) :=
    fun out hparse' => Except.ok.inj (hparse'.symm.trans hparse)
  have haccepts : Accepts Uploads.uploadEnv (Client.newClient plainServer) bytes := by
    intro _ res' c' hparse'
    obtain ⟨rfl, rfl⟩ := Prod.mk.inj (honly _ hparse')
    exact Or.inr ⟨rfl, d, hcheck⟩
  have hleft : Taken (Client.newClient plainServer) bytes := by
    refine htaken ?_
    intro c' hparse'
    rw [(Prod.mk.inj (honly _ hparse')).2]
    exact hrest
  have hstart : Exchange Taken Allowed (Client.newClient plainServer) [] _ := .waiting rfl
  exact ⟨x, hstart.received rfl rfl hne haccepts hleft hallowed hx, hfinal⟩

/-- The request that the head and its body have. -/
theorem expectHead_parse : ∃ r body,
    Request.parseHeaders {} (expectHead ++ ascii "hello") = .ok (-1, r, body) ∧
      body.length = 5 ∧ Asks 5 r ∧ r.uri = ascii "/f" := by
  have hparse : (Request.parseHeaders {} (expectHead ++ ascii "hello")).toOption.any (fun out =>
      out.1 = -1 ∧ out.2.2.length = 5 ∧ out.2.1.uri = ascii "/f" ∧
      out.2.1.getHeader (ascii "expect") = ascii "100-continue" ∧
      out.2.1.checkHeader (ascii "content-length") = true ∧
      out.2.1.getHeader (ascii "content-length") = ascii "5" ∧ isChunked out.2.1 = false) =
      true := by decide +kernel
  obtain ⟨⟨res, r, body⟩, hhead, hout⟩ := exists_of_any hparse
  obtain ⟨hres, hbody, huri, hexpects, hfield, hvalue, hplain⟩ := of_decide_eq_true hout
  dsimp only at hres hbody huri hexpects hfield hvalue hplain
  subst hres
  refine ⟨r, body, hhead, hbody, ⟨hexpects, hfield, ?_, by decide, hplain⟩, huri⟩
  rw [hvalue]
  decide +kernel

theorem receiving_answering (x : Client) (bytes : Bytes) : Answering x (receiving bytes) := by
  intro ⟨_, _, hout, _⟩
  cases hout

theorem writing_answering (x : Client) : Answering x (writing .running []) := by
  intro _ _ ⟨_, _, _, hended⟩
  cases hended

/-- A body of which three bytes come after the answer 100. -/
theorem cut_upload_answered : ∃ x,
    Exchange (LeavesBody 5) Answering (Client.newClient plainServer)
      (expectHead ++ ascii "hello") x ∧
      x.outBuffers = [] ∧ Delivered (Client.newClient plainServer) x := by
  have hrun : firstRead (fun x => x.headerStatus ≠ .ongoing ∧
      (step x (writing .running [])).toOption.any fun y => y.headerStatus ≠ .ongoing ∧
        y.alive = true ∧ y.mode = .read ∧
        (step y (receiving (ascii "llo"))).toOption.any fun z => z.headerStatus ≠ .ongoing ∧
          (step z (writing .running [])).toOption.any fun v => v.outBuffers = [] ∧
            v.cgiProcess.isSome = false) (expectHead ++ ascii "he") 2 = true := by
    decide +kernel
  obtain ⟨x, hfirst, hx⟩ := firstRead_sound (LeavesBody 5) Answering hrun (by decide)
    (receiving_answering _ _) (by
      intro hrest _ c hc
      rw [hrest c hc]
      decide)
  have hlate : ∀ {c : Client} {bytes : Bytes}, c.headerStatus ≠ .ongoing → LeavesBody 5 c bytes :=
    fun hheader hongoing => absurd hongoing hheader
  obtain ⟨hheader, hx⟩ := of_decide_eq_true hx
  obtain ⟨y, hy, hstate⟩ := exists_of_any hx
  obtain ⟨hheader', halive, hmode, hstate⟩ := of_decide_eq_true hstate
  obtain ⟨z, hz, hstate⟩ := exists_of_any hstate
  obtain ⟨hheader'', hstate⟩ := of_decide_eq_true hstate
  obtain ⟨v, hv, hstate⟩ := exists_of_any hstate
  obtain ⟨hflushed, hended⟩ := of_decide_eq_true hstate
  have hcontinued := hfirst.wrote hheader (hlate hheader) (writing_answering x) hy
  have hrest : ascii "llo" ≠ [] := by decide
  have hread := hcontinued.received halive hmode hrest
    (fun hongoing => absurd hongoing hheader') (hlate hheader') (receiving_answering y _) hz
  have hdone := hread.wrote hheader'' (hlate hheader'') (writing_answering z) hv
  have htext : expectHead ++ ascii "he" ++ ascii "llo" = expectHead ++ ascii "hello" := by
    rw [List.append_assoc]
    rfl
  rw [htext] at hdone
  obtain ⟨r, body, hhead, hbody, hasks, huri⟩ := expectHead_parse
  refine ⟨v, hdone, hflushed, expected_request_answered plainServer_waiting hdone hhead hbody hasks
    (by decide) ?_ hflushed (Option.isNone_iff_eq_none.mp (Option.isSome_eq_false_iff.mp hended))⟩
  rw [huri]
  exact file_intact _

/-- The whole body comes with the head: the upload gets no answer but 100. -/
theorem not_all_expected_requests_answered :
    ¬ ∀ (s x : Client) (total body : Bytes) (r : Request) (n : ℕ), Waiting s →
      Exchange (fun _ _ => True) (fun _ _ => True) s total x →
      Request.parseHeaders {} total = .ok (-1, r, body) → body.length = n → Asks n r →
      x.outBuffers = [] → x.cgiProcess = none → Delivered s x := by
  intro h
  have hrun : firstRead (fun x => x.headerStatus ≠ .ongoing ∧
      (step x (writing .running [])).toOption.any fun y => y.outBuffers = [] ∧
        y.cgiProcess.isSome = false ∧ answers y.trace = [RES_CONTINUE])
      (expectHead ++ ascii "hello") 5 = true := by decide +kernel
  obtain ⟨x, hfirst, hx⟩ := firstRead_sound (fun _ _ => True) (fun _ _ => True) hrun
    (by decide) trivial fun _ => trivial
  obtain ⟨hheader, hx⟩ := of_decide_eq_true hx
  obtain ⟨y, hy, hstate⟩ := exists_of_any hx
  obtain ⟨hflushed, hended, hanswers⟩ := of_decide_eq_true hstate
  obtain ⟨r, body, hhead, hbody, hasks, -⟩ := expectHead_parse
  obtain ⟨actions, final, htrace, hboth, -⟩ := h _ y _ body r 5 plainServer_waiting
    (hfirst.wrote hheader trivial trivial hy) hhead hbody hasks hflushed
    (Option.isNone_iff_eq_none.mp (Option.isSome_eq_false_iff.mp hended))
  have hsame : y.trace = actions := htrace
  rw [hsame, hboth] at hanswers
  cases hanswers

end Webserveau.ContinuedRequests
