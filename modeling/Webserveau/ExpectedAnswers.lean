import Webserveau.AnswerLogs
import Webserveau.BodyEvents

/-!
Requests that wait for the answer 100 before they send their body.
The answer 100 and the final one share one place for a response. While the answer 100 is
in it, nothing else can be answered, so a body that is complete by then is never answered.
Where part of the body is still to be read when the head is complete, the exchange goes
through its stages in order and the connection is sent both answers.
-/
namespace Webserveau.ExpectedAnswers

open ByteStrings OrderedMaps Formats Requests Clients EventLoop Checks Transitions Intake Replies
  HeadSafety Numerals Acceptance BodyIntake ContentLength LoopInvariants LoopSteps BodyEvents
  StatusLines UploadChecks AnswerLogs

/-- An event after which the exchange can go on: the connection is not hung up or closed,
what is written is taken whole, and the time has not run out. -/
def Undisturbed (c : Client) : Event → Prop
  | .epoll event => event.hup = false ∧ (Readable c event → event.incoming.getD [] ≠ []) ∧
    ∀ bytes, event.written bytes = bytes.length
  | .timeOut expired _ => expired = false

/-- What an undisturbed event does to a client: nothing, or it is read or written to. -/
inductive Happens (x : Client) (event : Event) (y : Client) : Prop
  | nothing : arrived x event = [] → y = x → Happens x event y
  | read (e : EpollEvent) (bytes : Bytes) (out : ℤ × Client) : event = .epoll e → Readable x e →
      bytes ≠ [] → arrived x event = bytes → receive e.env x bytes = .ok out →
      (0 ≤ (respondTo e.env out).1 → y = (respondTo e.env out).2) → Happens x event y
  | written (e : EpollEvent) (out : ℤ × Client) : event = .epoll e → Writable x e →
      arrived x event = [] → (∀ bytes, e.written bytes = bytes.length) →
      handleWritable e x = .ok out → (0 ≤ out.1 → y = out.2) → Happens x event y

theorem step_happens {x y : Client} {event : Event} (halive : x.alive = true)
    (hmode : x.mode ≠ .error) (hevent : Undisturbed x event) (hstep : step x event = .ok y) :
    Happens x event y := by
  have harrived : arrived x event = Uploads.arrived x event := if_pos halive
  unfold step at hstep
  rw [if_neg (by rw [halive]; exact Bool.noConfusion)] at hstep
  cases event with
  | timeOut expired env =>
    have hexpired : expired = false := hevent
    have hsame : checkTO expired env x = x := by
      unfold checkTO
      rw [if_neg (by rw [hexpired]; exact fun hdue => Bool.noConfusion hdue.2)]
    dsimp only at hstep
    rw [hsame] at hstep
    cases hstep
    exact .nothing harrived rfl
  | epoll e =>
    obtain ⟨hup, hincoming, hwhole⟩ := hevent
    have hopen : ¬ (e.hup = true ∨ x.mode = .error) := by
      rw [hup]
      intro hgone
      rcases hgone with hgone | hgone
      · cases hgone
      · exact hmode hgone
    dsimp only at hstep
    unfold handleEpoll handleClientEvent at hstep
    rw [if_neg hopen] at hstep
    unfold Uploads.arrived at harrived
    dsimp only at harrived
    by_cases hin : e.epollin ∧ (x.mode = .read ∨ x.bodyStatus ≠ .ongoing)
    · have hreadable : Readable x e := ⟨hopen, hin⟩
      have hsome := hincoming hreadable
      rw [if_pos ⟨hopen, hin⟩] at harrived
      rw [if_pos hin] at hstep
      cases hbytes : e.incoming with
      | none => exact absurd (by rw [hbytes]; rfl) hsome
      | some bytes =>
        have hne : bytes ≠ [] := by
          rw [hbytes] at hsome
          exact hsome
        rw [hbytes] at harrived
        unfold handleReadable handleClientIn at hstep
        rw [hbytes] at hstep
        dsimp only at hstep
        rw [if_neg hne] at hstep
        cases hout : receive e.env x bytes with
        | error err =>
          rw [hout] at hstep
          cases hstep
        | ok out =>
          rw [hout] at hstep
          refine .read e bytes out rfl hreadable hne harrived hout ?_
          intro hpos
          simp only [bind, Except.bind, pure, Except.pure] at hstep
          rw [if_neg (by omega)] at hstep
          exact (Except.ok.inj hstep).symm
    · rw [if_neg (fun hread => hin hread.2)] at harrived
      rw [if_neg hin] at hstep
      by_cases hwrite : e.epollout ∧ x.mode = .write
      · rw [if_pos hwrite] at hstep
        cases hout : handleWritable e x with
        | error err =>
          rw [hout] at hstep
          cases hstep
        | ok out =>
          rw [hout] at hstep
          refine .written e out rfl ⟨hopen, hin, hwrite⟩ harrived hwhole hout ?_
          intro hpos
          simp only [bind, Except.bind, pure, Except.pure] at hstep
          rw [if_neg (by omega)] at hstep
          exact (Except.ok.inj hstep).symm
      · rw [if_neg hwrite] at hstep
        cases hstep
        exact .nothing harrived rfl

/-- A client in the course of the body: `m` of its `n` bytes are in. -/
structure Taking (n m : ℕ) (x : Client) : Prop where
  measures : Measures x n m
  buffer : x.buffer = []
  process : x.cgiProcess = none
  alive : x.alive = true
  upload : UploadStatus x.getRequest
  status : x.getRequest.resHints.status ≠ RES_CONTINUE

/-- The request is complete and the answer 100 is out; no final answer is made yet. -/
structure Due (c x : Client) : Prop where
  alive : x.alive = true
  response : x.response = none
  buffer : x.buffer = []
  body : x.bodyStatus ≠ .ongoing
  logs : Logs [RES_CONTINUE] c x

/-- The final answer is made. -/
structure Final (c x : Client) (final : ℤ) : Prop where
  interim : final ≠ RES_CONTINUE
  alive : x.alive = true
  response : (view x).response = some final
  mode : x.mode = .write
  buffer : x.buffer = []
  body : x.bodyStatus ≠ .ongoing
  logs : Logs [RES_CONTINUE, final] c x

/-- A complete request has a process that is waited for, or its final answer is made. -/
inductive Complete (c x : Client) : Prop
  | running : Due c x → x.mode = .write → x.cgiProcess ≠ none → (view x).expect ≠ CONTINUE →
      Complete c x
  | replied (final : ℤ) : Final c x final → x.cgiProcess = none → Complete c x

/-- The stages of an exchange, with the number of bytes of the body that have been read. -/
inductive Stage (c : Client) (n : ℕ) : ℕ → Client → Prop
  | taking {m : ℕ} {x : Client} : Taking n m x → Proceeds x →
      (x.mode = .read → (view x).expect ≠ CONTINUE) → Logs [RES_CONTINUE] c x → Stage c n m x
  | complete {x : Client} : Complete c x → Stage c n n x
  | released {x : Client} (final : ℤ) : final ≠ RES_CONTINUE → Logs [RES_CONTINUE, final] c x →
      (x.alive = true → x.mode = .read ∧ x.bodyStatus ≠ .ongoing) → Stage c n n x

/-- The connection has been sent the answer 100 and one final answer, buffer by buffer,
behind what waited before. -/
def Delivered (s x : Client) : Prop :=
  ∃ actions final, x.trace = s.trace ++ actions ∧ answers actions = [RES_CONTINUE, final] ∧
    final ≠ RES_CONTINUE ∧ sent actions = s.outBuffers ++ queued actions

theorem process_none {x : Client} (h : (view x).cgi = none) : x.cgiProcess = none :=
  Option.map_eq_none_iff.mp h

theorem response_none {x : Client} (h : (view x).response = none) : x.response = none :=
  Option.map_eq_none_iff.mp h

/-- A final answer is made where one is due. -/
theorem Due.answer (env : Env) {c x : Client} (h : Due c x) (status : ℤ)
    (hstatus : statusOf x status ≠ RES_CONTINUE) :
    ∃ final y, generateResponse env x status = (0, y) ∧ Final c y final ∧
      (view y).cgi = (view x).cgi := by
  obtain ⟨final, y, hout, ⟨⟨path, connection, hview, -⟩, -, halive⟩, hfinal, hlogs⟩ :=
    generateResponse_logs env status h.response
  have hsame := generateResponse_same env x status
  rw [hout] at hsame
  refine ⟨final, y, hout, ⟨?_, halive.trans h.alive, ?_, ?_, hsame.buffer.trans h.buffer, ?_,
    h.logs.trans hlogs⟩, ?_⟩
  · rcases hfinal with rfl | rfl
    · exact hstatus
    · decide
  · rw [hview]
  · exact congrArg View.mode hview
  · rw [hsame.body]
    exact h.body
  · rw [hview]

theorem Due.deleteCGIProcess {c x : Client} (h : Due c x) :
    Due c x.deleteCGIProcess ∧ x.deleteCGIProcess.cgiProcess = none := by
  have hview := deleteCGIProcess_view x
  have hsame := deleteCGIProcess_same x
  refine ⟨⟨(deleteCGIProcess_alive x).trans h.alive, ?_, hsame.buffer.trans h.buffer, ?_,
    h.logs.silent (deleteCGIProcess_logs x)⟩, ?_⟩
  · refine response_none ?_
    rw [hview]
    show x.response.map Response.getStatus = none
    rw [h.response]
    rfl
  · rw [hsame.body]
    exact h.body
  · refine process_none ?_
    rw [hview]

/-- A process is started for a request that is due, or it is as due as before. -/
theorem Due.start (env : Env) {c x y : Client} {res : ℤ} (h : Due c x)
    (hexpect : (view x).expect ≠ CONTINUE) (hout : generateCGIProcess env x = (res, y)) :
    (res = 0 → Complete c y) ∧
      (res ≠ 0 → res = RES_INTERNAL_ERROR ∧ Due c y ∧ y.cgiProcess = none) := by
  have hstarted := generateCGIProcess_started env x
  have hsame := generateCGIProcess_same env x
  have hlogs := h.logs.silent (generateCGIProcess_logs env x)
  rw [hout] at hstarted hsame hlogs
  have hdue : y.alive = x.alive → (view y).response = (view x).response → Due c y := by
    intro halive hresponse
    refine ⟨halive.trans h.alive, response_none ?_, hsame.buffer.trans h.buffer, ?_, hlogs⟩
    · rw [hresponse]
      show x.response.map Response.getStatus = none
      rw [h.response]
      rfl
    · rw [hsame.body]
      exact h.body
  cases hstarted with
  | started name hview _ halive =>
    refine ⟨fun _ => .running (hdue halive (by rw [hview])) (congrArg View.mode hview) ?_ ?_,
      fun hne => absurd rfl hne⟩
    · intro hnone
      have hcgi : (view y).cgi = none := by
        show y.cgiProcess.map CGIProcess.output = none
        rw [hnone]
        rfl
      rw [hview] at hcgi
      cases hcgi
    · rw [hview]
      exact hexpect
  | failed name hview _ halive =>
    refine ⟨?_, fun _ => ⟨rfl, hdue halive (by rw [hview]), process_none (by rw [hview])⟩⟩
    intro hzero
    cases hzero

/-- Without a process the final answer ends the request. -/
theorem Due.reply (env : Env) {c x : Client} (h : Due c x) (hprocess : x.cgiProcess = none)
    (status : ℤ) (hstatus : statusOf x status ≠ RES_CONTINUE) :
    ∃ y, generateResponse env x status = (0, y) ∧ Complete c y := by
  obtain ⟨final, y, hout, hfinal, hcgi⟩ := h.answer env status hstatus
  refine ⟨y, hout, .replied final hfinal (process_none ?_)⟩
  rw [hcgi]
  show x.cgiProcess.map CGIProcess.output = none
  rw [hprocess]
  rfl

/-- The code of a complete request is answered, or a process is started for it. -/
theorem Due.respond (env : Env) {c x : Client} (h : Due c x) (hprocess : x.cgiProcess = none)
    (hexpect : (view x).expect ≠ CONTINUE) {res : ℤ} (hpos : 0 < res) (hres : res ≠ RES_CONTINUE) :
    ∃ y, respondTo env (res, x) = (0, y) ∧ Complete c y := by
  unfold respondTo handleClientResponse
  rw [if_pos (by exact hpos)]
  dsimp only
  split
  · refine h.reply env hprocess res ?_
    rwa [statusOf, if_pos (by omega)]
  · cases hstart : generateCGIProcess env x with
    | mk code z =>
      obtain ⟨hgood, hbad⟩ := h.start env hexpect hstart
      dsimp only
      split
      · rename_i hne
        obtain ⟨-, hz, hnone⟩ := hbad hne
        exact hz.reply env hnone RES_INTERNAL_ERROR
          (by exact (by decide : RES_INTERNAL_ERROR ≠ RES_CONTINUE))
      · rename_i hzero
        exact ⟨z, rfl, hgood (not_not.mp hzero)⟩

theorem Due.of_view {c x y : Client} (h : Due c x) (hview : view y = view x)
    (hbuffer : y.buffer = x.buffer) (halive : y.alive = x.alive) (hlogs : Logs [] x y) :
    Due c y := by
  refine ⟨halive.trans h.alive, response_none ?_, hbuffer.trans h.buffer, ?_,
    h.logs.silent hlogs⟩
  · rw [hview]
    show x.response.map Response.getStatus = none
    rw [h.response]
    rfl
  · have hbody : (view y).body ≠ .ongoing := by
      rw [hview]
      exact h.body
    exact hbody

/-- A request that its process sends back to the checks is answered, or gets another
process. -/
theorem Due.followRedirect (env : Env) {c x : Client} (h : Due c x)
    (hexpect : (view x).expect ≠ CONTINUE)
    (hredir : x.getRequest.resHints.cgiRedir ≠ .none) :
    Ends (followRedirect env x) fun out => out.1 = 0 ∧ Complete c out.2 := by
  obtain ⟨hdeleted, hprocess⟩ := h.deleteCGIProcess
  have hredir' := deleteCGIProcess_redir hredir
  have hexpect' : (view x.deleteCGIProcess).expect ≠ CONTINUE := by
    rw [deleteCGIProcess_view]
    exact hexpect
  have hcgi : (view x.deleteCGIProcess).cgi = none := by rw [deleteCGIProcess_view]
  have hresponse : (view x.deleteCGIProcess).response = none := by
    show x.deleteCGIProcess.response.map Response.getStatus = none
    rw [hdeleted.response]
    rfl
  have hdue : ∀ d, (view d).response = none → d.bodyStatus = x.deleteCGIProcess.bodyStatus →
      d.alive = x.deleteCGIProcess.alive → Unheard x.deleteCGIProcess d → Due c d := by
    intro d hnone hbody halive hunheard
    refine ⟨halive.trans hdeleted.alive, response_none hnone,
      hunheard.buffer.trans hdeleted.buffer, ?_, hdeleted.logs.silent hunheard.logs⟩
    rw [hbody]
    exact hdeleted.body
  unfold EventLoop.followRedirect
  refine Ends.bind (P := fun out => HeadersChecked x.deleteCGIProcess out ∧
    Unheard x.deleteCGIProcess out.2 ∧
    (out.1 = 0 → out.2.getRequest.resHints.status ≠ RES_CONTINUE)) ?_ ?_
  · intro out hout
    refine ⟨handleRequestHeaders_checked env _ out hout,
      handleRequestHeaders_unheard env hexpect' out hout, ?_⟩
    intro hzero
    obtain ⟨res, d⟩ := out
    dsimp only at hzero
    subst hzero
    exact handleRequestHeaders_status env hout
  · intro out hout
    obtain ⟨res, d⟩ := out
    obtain ⟨hchecked, hunheard, hstatus⟩ := hout
    dsimp only at hunheard hstatus ⊢
    rcases hchecked with hrefused | haccepted
    · have hverdict : 300 ≤ res := hrefused.verdict
      obtain ⟨body, type, path, expect, hview⟩ := hrefused.settled
      dsimp only at hview
      have hd := hdue d (by rw [hview]; exact hresponse) (hrefused.body_eq hredir')
        hrefused.alive_eq hunheard
      obtain ⟨y, hy, hstage⟩ := hd.reply env (process_none (by rw [hview]; exact hcgi))
        res (by
          rw [statusOf, if_pos (by omega)]
          show res ≠ 100
          omega)
      rw [if_pos (by omega), hy]
      exact ends_pure.mpr ⟨rfl, hstage⟩
    · obtain rfl : res = 0 := haccepted.verdict
      obtain ⟨body, type, path, hview⟩ := haccepted.settled
      rw [if_neg hexpect'] at hview
      dsimp only at hview
      have hd := hdue d (by rw [hview]; exact hresponse) (haccepted.body_eq hredir')
        haccepted.alive_eq hunheard
      have hnone : d.cgiProcess = none := process_none (by rw [hview]; exact hcgi)
      rw [if_neg (not_not_intro rfl)]
      split
      · obtain ⟨y, hy, hstage⟩ := hd.reply env hnone 0 (hstatus rfl)
        rw [hy]
        exact ends_pure.mpr ⟨rfl, hstage⟩
      · cases hstart : generateCGIProcess env d with
        | mk code z =>
          obtain ⟨hgood, hbad⟩ := hd.start env (by rw [hview]; exact hexpect') hstart
          dsimp only
          split
          · rename_i hne
            obtain ⟨hz, hznone⟩ := (hbad hne).2.1.deleteCGIProcess
            obtain ⟨y, hy, hstage⟩ := hz.reply env hznone RES_INTERNAL_ERROR
              (by exact (by decide : RES_INTERNAL_ERROR ≠ RES_CONTINUE))
            rw [hy]
            exact ends_pure.mpr ⟨rfl, hstage⟩
          · rename_i hzero
            exact ends_pure.mpr ⟨rfl, hgood (not_not.mp hzero)⟩

/-- A process that failed is answered for. -/
theorem Due.unavailable (env : Env) {c x : Client} (h : Due c x) :
    ∃ y, cgiUnavailable env x = (0, y) ∧ Complete c y := by
  obtain ⟨hdeleted, hprocess⟩ := h.deleteCGIProcess
  exact hdeleted.reply env hprocess RES_SERVICE_UNAVAILABLE
    (by exact (by decide : RES_SERVICE_UNAVAILABLE ≠ RES_CONTINUE))

/-- The document of a process is the final answer. -/
theorem Due.document (env : Env) {c x : Client} (h : Due c x)
    (hstatus : x.getRequest.resHints.status ≠ RES_CONTINUE) :
    ∃ y, serveDocument env x = (0, y) ∧ Complete c y := by
  obtain ⟨final, y, hout, hfinal, -⟩ := h.answer env 0 hstatus
  have hview := deleteCGIProcess_view y
  have hsame := deleteCGIProcess_same y
  refine ⟨y.deleteCGIProcess, ?_, .replied final ⟨hfinal.interim,
    (deleteCGIProcess_alive y).trans hfinal.alive, ?_, ?_, hsame.buffer.trans hfinal.buffer, ?_,
    hfinal.logs.silent (deleteCGIProcess_logs y)⟩ (process_none (by rw [hview]))⟩
  · unfold serveDocument
    rw [hout]
  · rw [hview]
    exact hfinal.response
  · have hmode : (view y.deleteCGIProcess).mode = .write := by
      rw [hview]
      exact hfinal.mode
    exact hmode
  · rw [hsame.body]
    exact hfinal.body

/-- A process that ends with well formed headers leads to the final answer. -/
theorem Due.finish (event : EpollEvent) {c x : Client} (h : Due c x)
    (hexpect : (view x).expect ≠ CONTINUE)
    (hformed : ¬ CgiOutputs.Malformed (outputBuffer event.output x.getRequest.resHints.path)) :
    Ends (finishCGI event x) fun out => out.1 = 0 ∧ Complete c out.2 := by
  unfold finishCGI
  refine Ends.bind (P := fun out : CgiRes × Request =>
    x.getRequest.parseCgiHeaders event.output = .ok out) (fun _ h => h) ?_
  intro out hparse
  obtain ⟨verdict, r⟩ := out
  have hview := withVerdict_view verdict (parseCgiHeaders_keeps _ _ _ hparse)
  have hdue : Due c (withVerdict x verdict r) := h.of_view hview rfl rfl (.of_eq rfl rfl)
  have hserved : verdict = .doc ∨ verdict = .clientRedirect →
      (withVerdict x verdict r).getRequest.resHints.status ≠ RES_CONTINUE :=
    parseCgiHeaders_status _ _ _ hparse
  cases verdict with
  | error =>
    obtain ⟨y, hy, hstage⟩ := hdue.unavailable event.env
    dsimp only
    rw [hy]
    exact ends_pure.mpr ⟨rfl, hstage⟩
  | none => exact absurd ((CgiOutputs.no_verdict_iff _ _).mp ⟨r, hparse⟩) hformed
  | doc =>
    obtain ⟨y, hy, hstage⟩ := hdue.document event.env (hserved (Or.inl rfl))
    dsimp only
    rw [hy]
    exact ends_pure.mpr ⟨rfl, hstage⟩
  | clientRedirect =>
    obtain ⟨y, hy, hstage⟩ := hdue.document event.env (hserved (Or.inr rfl))
    dsimp only
    rw [hy]
    exact ends_pure.mpr ⟨rfl, hstage⟩
  | localRedirect =>
    refine hdue.followRedirect event.env ?_ ?_
    · rw [hview]
      exact hexpect
    · intro hnone
      cases hnone

/-- A look at the process of a complete request. -/
theorem handleCGIProcess_complete (event : EpollEvent) {c x : Client} (h : Due c x)
    (hmode : x.mode = .write) (hprocess : x.cgiProcess ≠ none)
    (hexpect : (view x).expect ≠ CONTINUE) (hverdict : GivesVerdict x event) :
    Ends (handleCGIProcess event x) fun out => out.1 = 0 ∧ Complete c out.2 := by
  have hkept : ∀ {p q : CGIProcess}, x.cgiProcess = some p → q.output = p.output →
      view { x with cgiProcess := some q } = view x ∧ Due c { x with cgiProcess := some q } := by
    intro p q hp hq
    have hview := (reaped_of_output hp hq).view_eq
    exact ⟨hview, h.of_view hview rfl rfl (.of_eq rfl rfl)⟩
  unfold handleCGIProcess
  split
  · rename_i hnone
    exact absurd hnone hprocess
  · rename_i p hp
    have hfailed : ∀ q : CGIProcess, q.output = p.output →
        Ends (.ok (cgiUnavailable event.env { x with cgiProcess := some q }) : Checked (ℤ × Client))
          fun out => out.1 = 0 ∧ Complete c out.2 := by
      intro q hq
      obtain ⟨y, hy, hcomplete⟩ := (hkept hp hq).2.unavailable event.env
      rw [hy]
      exact ends_ok.mpr ⟨rfl, hcomplete⟩
    unfold checkEnd
    by_cases hpid : p.pid = 0
    · rw [if_pos hpid]
      exact hfailed p rfl
    · rw [if_neg hpid]
      cases hchild : event.child with
      | running =>
        obtain ⟨hview, hdue⟩ := hkept hp rfl
        refine ends_ok.mpr ⟨rfl, .running hdue hmode (Option.some_ne_none p) ?_⟩
        rw [hview]
        exact hexpect
      | expired => exact hfailed _ rfl
      | failed => exact hfailed _ rfl
      | exited =>
        obtain ⟨hview, hdue⟩ := @hkept p { p with pid := 0 } hp rfl
        refine hdue.finish event ?_ ?_
        · rw [hview]
          exact hexpect
        · exact hverdict h.response ⟨p, hp, hpid, hchild⟩

/-- A client whose request is over waits for the next one. -/
theorem keepAlive_released (env : Env) {c x : Client} {final : ℤ} (hfinal : final ≠ RES_CONTINUE)
    (hbuffer : x.buffer = []) (hlogs : Logs [RES_CONTINUE, final] c x) (n : ℕ) :
    Ends (keepAlive env x) fun out => out.1 = 0 ∧ Stage c n n out.2 := by
  have hempty : x.clear.buffer ++ [] = [] := by
    rw [List.append_nil, (clear_outBuffers x).2, hbuffer]
  have hparse : (x.clear.setMode .read).parseRequest [] =
      .ok (0, { (x.clear.setMode .read).setRequest {} with buffer := [] }) := by
    have hongoing : (x.clear.setMode .read).headerStatus = .ongoing := rfl
    unfold Client.parseRequest
    rw [if_pos hongoing]
    show (Request.parseHeaders {} (x.clear.buffer ++ []) >>= _) = _
    rw [hempty]
    rfl
  unfold keepAlive receive
  rw [hparse]
  refine ends_ok.mpr ⟨rfl, .released final hfinal ?_ fun _ => ⟨rfl, BodyStatus.noConfusion⟩⟩
  exact (hlogs.silent (clear_logs x)).silent (.of_eq rfl rfl)

/-- The final answer is written further; once all of it is out, the request is over. -/
theorem Complete.out (event : EpollEvent) (hwhole : ∀ bytes, event.written bytes = bytes.length)
    {c x : Client} (h : Complete c x) (n : ℕ) :
    Ends (handleResponseOut event x) fun out => out.1 = 0 ∧ Stage c n n out.2 := by
  cases h with
  | running hdue hmode hprocess hexpect =>
    unfold handleResponseOut
    rw [if_pos hdue.response]
    exact ends_ok.mpr ⟨rfl, .complete (.running hdue hmode hprocess hexpect)⟩
  | replied final hfinal hprocess =>
    have hsome : ¬ x.response = none := by
      intro hnone
      have hresponse : x.response.map Response.getStatus = some final := hfinal.response
      rw [hnone] at hresponse
      cases hresponse
    obtain ⟨hwritten, -, halive⟩ := handleClientOut_written event.written x
    obtain ⟨hlogs, hbuffer⟩ := handleClientOut_logs hwhole x
    have hsent := hfinal.logs.silent hlogs
    have hempty := hbuffer.trans hfinal.buffer
    unfold handleResponseOut
    rw [if_neg hsome]
    cases hout : handleClientOut event.written x with
    | mk situation d =>
      rw [hout] at hwritten halive hsent hempty
      dsimp only at hwritten halive hsent hempty
      cases hwritten with
      | pending hview _ =>
        have hfinal' : Final c d final := by
          refine ⟨hfinal.interim, halive.trans hfinal.alive, ?_, ?_, hempty, ?_, hsent⟩
          · rw [hview]
            exact hfinal.response
          · exact (congrArg View.mode hview).trans hfinal.mode
          · have hbody : (view d).body ≠ .ongoing := by
              rw [hview]
              exact hfinal.body
            exact hbody
        refine ends_ok.mpr ⟨rfl, .complete (.replied final hfinal' (process_none ?_))⟩
        rw [hview]
        show x.cgiProcess.map CGIProcess.output = none
        rw [hprocess]
        rfl
      | close _ =>
        refine ends_ok.mpr ⟨rfl, .released final hfinal.interim
          (hsent.silent (terminate_logs d)) ?_⟩
        intro halive'
        cases halive'
      | keepAlive _ _ => exact keepAlive_released event.next hfinal.interim hempty hsent n
      | proceed _ hcontinue _ =>
        rw [hfinal.response, Option.some.injEq] at hcontinue
        exact absurd hcontinue hfinal.interim

/-- In the course of the body only the answer 100 is written. -/
theorem Taking.out (event : EpollEvent) (hwhole : ∀ bytes, event.written bytes = bytes.length)
    {c x : Client} {n m : ℕ} (h : Taking n m x) (hmode : x.mode = .write)
    (hresponse : (view x).response = some RES_CONTINUE) (hexpect : (view x).expect = CONTINUE)
    (hlogs : Logs [RES_CONTINUE] c x) :
    ∃ y, handleResponseOut event x = .ok (0, y) ∧ Stage c n m y := by
  have hpositive : ∀ bytes, 0 ≤ event.written bytes := by
    intro bytes
    rw [hwhole]
    omega
  obtain ⟨y, hy, hbetween, hproceeds⟩ :=
    handleResponseOut_between event hpositive hresponse hmode hexpect
  obtain ⟨headers, hrequest⟩ := hbetween.request
  have htaking : Taking n m y := by
    refine ⟨⟨hbetween.header.trans h.measures.header, hbetween.body.trans h.measures.body, ?_, ?_,
      ?_, ?_⟩, hbetween.buffer.trans h.buffer, hbetween.process.trans h.process,
      hbetween.alive.trans h.alive, ?_, ?_⟩
    · rw [hrequest]
      obtain ⟨hhead, hbody, hopen, hframed⟩ := h.measures.receiving
      exact ⟨hhead, hbody, hopen, hframed⟩
    · rw [hrequest]
      exact h.measures.measured
    · rw [hrequest]
      exact h.measures.length_eq
    · rw [hrequest]
      exact h.measures.count_eq
    · rw [hrequest]
      exact h.upload
    · rw [hrequest]
      exact h.status
  refine ⟨y, hy, ?_⟩
  have hsome : ¬ x.response = none := by
    intro hnone
    have hview : x.response.map Response.getStatus = some RES_CONTINUE := hresponse
    rw [hnone] at hview
    cases hview
  have hsituation := handleClientOut_continuing hwhole hresponse hexpect
  obtain ⟨hwritten, -, -⟩ := handleClientOut_written event.written x
  obtain ⟨hout, -⟩ := handleClientOut_logs hwhole x
  unfold handleResponseOut at hy
  rw [if_neg hsome] at hy
  cases hsplit : handleClientOut event.written x with
  | mk situation d =>
    rw [hsplit] at hy hsituation hwritten hout
    dsimp only at hsituation hwritten hout
    cases hwritten with
    | pending hview _ =>
      cases hy
      refine .taking htaking hproceeds ?_ (hlogs.silent hout)
      intro hread
      have hsame : (view y).mode = .read := hread
      rw [hview] at hsame
      have hwrite : (view x).mode = .write := hmode
      rw [hwrite] at hsame
      cases hsame
    | close _ =>
      rcases hsituation with hsituation | hsituation
      · cases hsituation
      · cases hsituation
    | keepAlive _ _ =>
      rcases hsituation with hsituation | hsituation
      · cases hsituation
      · cases hsituation
    | proceed _ _ hview =>
      cases hy
      refine .taking htaking hproceeds ?_ ((hlogs.silent hout).silent (.of_eq rfl rfl))
      intro _
      show (view d).expect ≠ CONTINUE
      rw [hview]
      show [] ≠ CONTINUE
      decide

theorem counted_same {r r' : Request} (h : Counted r r') :
    r'.resHints = r.resHints ∧ r'.headers = r.headers ∧ r'.type = r.type ∧
      r'.method = r.method := by
  obtain ⟨len, b_status, final_status, rfl⟩ := h
  exact ⟨rfl, rfl, rfl, rfl⟩

/-- What is settled for the answer does not depend on the counters of the body. -/
theorem counted_kept {r r' : Request} (h : Counted r r') (hupload : UploadStatus r)
    (hstatus : r.resHints.status ≠ RES_CONTINUE) : UploadStatus r' ∧
      r'.resHints.status ≠ RES_CONTINUE ∧
      r'.getHeader (ascii "expect") = r.getHeader (ascii "expect") := by
  obtain ⟨hhints, hheaders, htype, hmethod⟩ := counted_same h
  refine ⟨?_, ?_, ?_⟩
  · unfold UploadStatus
    rw [hhints, htype, hmethod]
    exact hupload
  · rw [hhints]
    exact hstatus
  · rw [Request.getHeader, hheaders]
    rfl

/-- Bytes of the body are taken in; the last ones complete the request. -/
theorem Taking.read (env : Env) {c x : Client} {n m : ℕ} (h : Taking n m x)
    (hmode : x.mode = .read) (hresponse : x.response = none)
    (hexpect : (view x).expect ≠ CONTINUE) (hlogs : Logs [RES_CONTINUE] c x) {bytes : Bytes}
    (hle : m + bytes.length ≤ n) :
    ∃ out y, receive env x bytes = .ok out ∧ respondTo env out = (0, y) ∧
      Stage c n (m + bytes.length) y := by
  have hbuffer : x.buffer ++ bytes = bytes := by
    rw [h.buffer]
    rfl
  by_cases hshort : bytes.length < n - m
  · obtain ⟨r, hcounted, hmeasures, hreceive⟩ :=
      receive_filling env h.measures bytes (by rwa [hbuffer])
    rw [hbuffer] at hmeasures hreceive
    obtain ⟨hupload, hstatus, hheader⟩ := counted_kept hcounted h.upload h.status
    refine ⟨_, _, hreceive, respondTo_zero env _, .taking ⟨hmeasures, rfl, h.process, h.alive,
      hupload, hstatus⟩ (.reading hmode hresponse) (fun _ => ?_)
      (hlogs.silent (.of_eq rfl rfl))⟩
    show r.getHeader (ascii "expect") ≠ CONTINUE
    rw [hheader]
    exact hexpect
  · have htotal : m + bytes.length = n := by
      have hmissing := h.measures.missing.1
      omega
    obtain ⟨r, hcounted, hreceive⟩ :=
      receive_filled env h.measures bytes (by rw [hbuffer]; omega)
    have hdrop : bytes.drop (n - m) = [] := List.drop_of_length_le (by omega)
    rw [hbuffer, hdrop] at hreceive
    obtain ⟨hupload, hstatus, hheader⟩ := counted_kept hcounted h.upload h.status
    generalize hz : filled x r (bytes.take (n - m)) [] = z at hreceive
    have hget : z.getRequest = r := by
      rw [← hz]
      rfl
    obtain ⟨hpos, hfinal⟩ := @handleRequestBodyDone_code z (by rwa [hget]) (by rwa [hget])
    obtain ⟨⟨path, hview⟩, -, halive⟩ := handleRequestBodyDone_view z
    have hsame := handleRequestBodyDone_same z
    have hdone := handleRequestBodyDone_logs z
    have hprocess : (handleRequestBodyDone z).2.cgiProcess = none := by
      refine process_none ?_
      rw [hview, ← hz]
      show x.cgiProcess.map CGIProcess.output = none
      rw [h.process]
      rfl
    have hdue : Due c (handleRequestBodyDone z).2 := by
      refine ⟨halive.trans ?_, response_none ?_, hsame.buffer.trans ?_, ?_, ?_⟩
      · rw [← hz]
        exact h.alive
      · rw [hview, ← hz]
        show x.response.map Response.getStatus = none
        rw [hresponse]
        rfl
      · rw [← hz]
        rfl
      · rw [hsame.body, ← hz]
        exact BodyStatus.noConfusion
      · refine (hlogs.silent ?_).silent hdone
        rw [← hz]
        exact .of_eq rfl rfl
    obtain ⟨y, hy, hcomplete⟩ := hdue.respond env hprocess (by
      rw [hview]
      show z.getRequest.getHeader (ascii "expect") ≠ CONTINUE
      rw [hget, hheader]
      exact hexpect) hpos hfinal
    rw [htotal]
    exact ⟨_, y, hreceive, hy, .complete hcomplete⟩

theorem handleWritable_idle (event : EpollEvent) {x : Client} (h : x.cgiProcess = none) :
    handleWritable event x = handleResponseOut event x := by
  unfold handleWritable handleCGIProcess
  rw [h]
  rfl

/-- An event that finds the connection of a complete request writable. -/
theorem Complete.written (event : EpollEvent)
    (hwhole : ∀ bytes, event.written bytes = bytes.length) {c x : Client} (h : Complete c x)
    (hverdict : GivesVerdict x event) (n : ℕ) :
    Ends (handleWritable event x) fun out => out.1 = 0 ∧ Stage c n n out.2 := by
  cases h with
  | running hdue hmode hprocess hexpect =>
    unfold handleWritable
    refine Ends.bind (handleCGIProcess_complete event hdue hmode hprocess hexpect hverdict) ?_
    intro out hout
    obtain ⟨res, d⟩ := out
    obtain ⟨hzero, hcomplete⟩ := hout
    dsimp only at hzero hcomplete ⊢
    rw [if_neg (not_not_intro hzero)]
    exact hcomplete.out event hwhole n
  | replied final hfinal hprocess =>
    rw [handleWritable_idle event hprocess]
    exact Complete.out event hwhole (.replied final hfinal hprocess) n

theorem Complete.awake {c x : Client} (h : Complete c x) : x.alive = true ∧ x.mode = .write := by
  cases h with
  | running hdue hmode _ _ => exact ⟨hdue.alive, hmode⟩
  | replied _ hfinal _ => exact ⟨hfinal.alive, hfinal.mode⟩

/-- One more event of the exchange, which brings no more than the rest of the body. -/
theorem Stage.step {c x y : Client} {n m : ℕ} (h : Stage c n m x) {event : Event}
    (hevent : Undisturbed x event) (hanswering : Answering x event)
    (hstep : EventLoop.step x event = .ok y) (hle : m + (arrived x event).length ≤ n) :
    Stage c n (m + (arrived x event).length) y := by
  have hidle : ∀ {k : ℕ}, arrived x event = [] → Stage c n k y →
      Stage c n (k + (arrived x event).length) y := by
    intro k hnil hy
    rwa [hnil]
  have hlate : ∀ {bytes : Bytes}, bytes ≠ [] → arrived x event = bytes →
      ¬ n + (arrived x event).length ≤ n := by
    intro bytes hne hbytes hfits
    rw [hbytes] at hfits
    have hpos := List.length_pos_iff.mpr hne
    omega
  cases h with
  | taking htaking hproceeds hexpect hlogs =>
    have hmode : x.mode ≠ .error := by
      cases hproceeds with
      | reading hmode =>
        rw [hmode]
        exact Mode.noConfusion
      | continuing hmode =>
        rw [hmode]
        exact Mode.noConfusion
    cases step_happens htaking.alive hmode hevent hstep with
    | nothing hnil hsame =>
      refine hidle hnil ?_
      rw [hsame]
      exact .taking htaking hproceeds hexpect hlogs
    | read e bytes out _ hreadable hne harrived hout hy =>
      cases hproceeds with
      | reading hmode hresponse =>
        rw [harrived] at hle ⊢
        obtain ⟨out', y', hout', hanswer, hstage⟩ :=
          htaking.read e.env hmode hresponse (hexpect hmode) hlogs hle
        rw [hout, Except.ok.injEq] at hout'
        subst hout'
        rw [hanswer] at hy
        rwa [hy (Int.le_refl 0)]
      | continuing hmode =>
        obtain ⟨-, -, hfree⟩ := hreadable
        rcases hfree with hread | hdone
        · rw [hmode] at hread
          cases hread
        · exact absurd htaking.measures.body hdone
    | written e out _ hwritable hnil hwhole hout hy =>
      cases hproceeds with
      | reading hmode _ =>
        obtain ⟨-, -, -, hwrite⟩ := hwritable
        rw [hmode] at hwrite
        cases hwrite
      | continuing hmode hresponse hcontinue =>
        rw [handleWritable_idle e htaking.process] at hout
        obtain ⟨y', hy', hstage⟩ := htaking.out e hwhole hmode hresponse hcontinue hlogs
        rw [hout, Except.ok.injEq] at hy'
        subst hy'
        refine hidle hnil ?_
        rwa [hy (Int.le_refl 0)]
  | complete hcomplete =>
    obtain ⟨halive, hmode⟩ := hcomplete.awake
    have hopen : x.mode ≠ .error := by
      rw [hmode]
      exact Mode.noConfusion
    cases step_happens halive hopen hevent hstep with
    | nothing hnil hsame =>
      refine hidle hnil ?_
      rw [hsame]
      exact .complete hcomplete
    | read e bytes out _ _ hne harrived _ _ => exact absurd hle (hlate hne harrived)
    | written e out he hwritable hnil hwhole hout hy =>
      have hverdict : GivesVerdict x e := by
        rw [he] at hanswering
        exact hanswering hwritable
      obtain ⟨hzero, hstage⟩ := hcomplete.written e hwhole hverdict n out hout
      refine hidle hnil ?_
      rwa [hy hzero.symm.le]
  | released final hfinal hlogs hwaits =>
    by_cases halive : x.alive = true
    · obtain ⟨hmode, hbody⟩ := hwaits halive
      have hopen : x.mode ≠ .error := by
        rw [hmode]
        exact Mode.noConfusion
      cases step_happens halive hopen hevent hstep with
      | nothing hnil hsame =>
        refine hidle hnil ?_
        rw [hsame]
        exact .released final hfinal hlogs hwaits
      | read e bytes out _ _ hne harrived _ _ => exact absurd hle (hlate hne harrived)
      | written e out _ hwritable _ _ _ _ =>
        obtain ⟨-, -, -, hwrite⟩ := hwritable
        rw [hmode] at hwrite
        cases hwrite
    · have hnil : arrived x event = [] := if_neg halive
      have hgone : x.alive = false := by simpa using halive
      unfold EventLoop.step at hstep
      rw [if_pos hgone] at hstep
      cases hstep
      exact hidle hnil (.released final hfinal hlogs hwaits)

/-- With the whole body read and nothing left to write or to wait for, both answers are
sent. -/
theorem Stage.delivered {s x : Client} {n : ℕ} (h : Stage s n n x) (hflushed : x.outBuffers = [])
    (hended : x.cgiProcess = none) : Delivered s x := by
  have hlogged : ∀ final : ℤ, final ≠ RES_CONTINUE → Logs [RES_CONTINUE, final] s x →
      Delivered s x := by
    intro final hfinal hlogs
    obtain ⟨actions, htrace, hanswers, hqueue⟩ := hlogs
    rw [hflushed, List.append_nil] at hqueue
    exact ⟨actions, final, htrace, hanswers, hfinal, hqueue⟩
  cases h with
  | taking htaking _ _ _ =>
    have hmissing := htaking.measures.missing.1
    omega
  | complete hcomplete =>
    cases hcomplete with
    | running _ _ hprocess _ => exact absurd hended hprocess
    | replied final hfinal _ => exact hlogged final hfinal.interim hfinal.logs
  | released final hfinal hlogs _ => exact hlogged final hfinal hlogs

end Webserveau.ExpectedAnswers
