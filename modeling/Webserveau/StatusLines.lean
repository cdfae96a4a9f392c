import Webserveau.BodyIntake
import Webserveau.ContentLength
import Webserveau.StatusCodes

/-!
Status lines of responses.
Whatever is noted in the hints of a client, and every code that is answered on its behalf,
is 0 or a status of the table. Two steps break this: one that reads a head beyond the
limits, and one in which a process redirects to a resource that is not a script, which
leaves status 0 for the response.
-/
namespace Webserveau.StatusLines

open ByteStrings OrderedMaps Formats Requests Clients EventLoop Checks HeadSafety HeadSegmentation
  ParserFrames Transitions Intake Replies LoopInvariants BodyIntake ContentLength LoopSteps
  StatusCodes

/-- A response has a status with a line in the table. -/
def Lined : Action → Prop
  | .responded status _ _ _ => InTable status
  | _ => True

structure Tidy (c : Client) : Prop where
  status : Tabled c.getRequest.resHints.status
  phase : c.headerStatus ≠ .ongoing → c.getRequest.status = .term
  replies : ∀ a ∈ c.trace, Lined a

/-- What a handler answers with, and the client it leaves. -/
def TidyOut (out : ℤ × Client) : Prop := Tabled out.1 ∧ Tidy out.2

theorem newClient_tidy (server : ListenServer) : Tidy (Client.newClient server) where
  status := tabled_zero
  phase := fun h => absurd rfl h
  replies := by
    intro a ha
    cases ha

theorem lined_of_adds {c d : Client} (h : ∀ a ∈ c.trace, Lined a) (hadds : Adds Lined c d) :
    ∀ a ∈ d.trace, Lined a := by
  obtain ⟨actions, htrace, hall⟩ := hadds
  rw [htrace]
  intro a ha
  rcases List.mem_append.mp ha with ha | ha
  · exact h a ha
  · exact hall a ha

/-- Where the parsers are untouched, the noted status and the actions count. -/
theorem Tidy.of_same {c d : Client} (h : Tidy c) (hsame : SameIntake c d)
    (hstatus : Tabled d.getRequest.resHints.status) (hadds : Adds Lined c d) : Tidy d where
  status := hstatus
  phase := by
    obtain ⟨hints, hrequest⟩ := hsame.request
    rw [hsame.header, hrequest]
    exact h.phase
  replies := lined_of_adds h.replies hadds

/-- The hints are those from before, up to fields that are not looked at here. -/
theorem Tidy.of_eq {c d : Client} (h : Tidy c)
    (hstatus : d.getRequest.resHints.status = c.getRequest.resHints.status)
    (hphase : d.getRequest.status = c.getRequest.status)
    (hheader : d.headerStatus = c.headerStatus) (hadds : Adds Lined c d) : Tidy d where
  status := by
    rw [hstatus]
    exact h.status
  phase := by
    rw [hheader, hphase]
    exact h.phase
  replies := lined_of_adds h.replies hadds

theorem Tidy.record {c : Client} (h : Tidy c) {a : Action} (ha : Lined a) : Tidy (c.record a) :=
  h.of_eq rfl rfl rfl (Adds.record rfl ha)

theorem Tidy.setRequest {c : Client} (h : Tidy c) {r : Request} {res : ℤ}
    (hr : Graded c.getRequest res r) : Tidy (c.setRequest r) where
  status := hr.noted h.status
  phase := fun hhead => hr.phase (h.phase hhead)
  replies := h.replies

theorem deleteCGIProcess_tidy {c : Client} (h : Tidy c) : Tidy c.deleteCGIProcess := by
  unfold Client.deleteCGIProcess
  split
  · exact h
  · exact h.of_eq rfl rfl rfl (Adds.record rfl trivial)

theorem clear_tidy {c : Client} (h : Tidy c) : Tidy c.clear where
  status := tabled_zero
  phase := fun hhead => absurd rfl hhead
  replies := by
    refine lined_of_adds h.replies ((clear_adds c).mono ?_)
    intro a ha
    rcases ha with ⟨path, rfl⟩ | ⟨name, -, rfl⟩
    · trivial
    · trivial

theorem terminate_tidy {c : Client} (h : Tidy c) : Tidy c.terminate :=
  (clear_tidy h).of_eq rfl rfl rfl (Adds.record rfl trivial)

theorem tryResponse_tidy (env : Env) {c : Client} (h : Tidy c) {status : ℤ}
    (hstatus : InTable (statusOf c status)) : Tidy (tryResponse env c status).2 := by
  have hsame := tryResponse_same env c status
  obtain ⟨r, hints, hreply, hhints, -, -, hcases⟩ := tryResponse_eq env c status
  have hnoted : r.resHints.status = statusOf c status := by
    rw [hhints, hreply.status_eq, replyHints_status]
  have htabled : Tabled r.resHints.status := by
    rw [hnoted]
    exact hstatus.tabled
  rcases hcases with ⟨-, response, buffers, connection, origin, hresponse, hout⟩ | ⟨-, hout⟩
  · rw [hout] at hsame ⊢
    refine h.of_same hsame htabled (Adds.record rfl ?_)
    rw [hresponse]
    exact hstatus
  · rw [hout] at hsame ⊢
    exact h.of_same hsame htabled (Adds.of_eq rfl)

/-- A response that is made has a tabled status, and so has the one that replaces it. -/
theorem generateResponse_tidy (env : Env) {c : Client} (h : Tidy c) {status : ℤ}
    (hstatus : c.response = none → InTable (statusOf c status)) :
    Tidy (generateResponse env c status).2 := by
  unfold generateResponse
  split
  · exact h
  · rename_i hresponse
    have hfirst := tryResponse_tidy env h (hstatus (by simpa using hresponse))
    dsimp only
    split
    · exact hfirst
    · have hclear : Tidy (tryResponse env c status).2.clearResponse :=
        hfirst.of_eq rfl rfl rfl (Adds.of_eq rfl)
      split
      · exact hclear
      · have hsecond : Tidy (tryResponse env (tryResponse env c status).2.clearResponse
            RES_INTERNAL_ERROR).2 := tryResponse_tidy env hclear (show InTable 500 by decide)
        split
        · exact hsecond
        · exact hsecond.of_eq rfl rfl rfl (Adds.of_eq rfl)

/-- A status that is passed on is the one a response is made for. -/
theorem generateResponse_code (env : Env) {c : Client} (h : Tidy c) {status : ℤ}
    (hpos : 0 < status) (hstatus : Tabled status) : TidyOut (generateResponse env c status) := by
  constructor
  · rcases generateResponse_cases env c status with ⟨-, hout⟩ | ⟨-, final, c', hout, -⟩
    · rw [hout]
      exact tabled_zero
    · rw [hout]
      exact tabled_zero
  · refine generateResponse_tidy env h fun _ => ?_
    rw [statusOf, if_pos (by omega)]
    exact hstatus hpos

theorem execCGI_tidy (env : Env) {c : Client} (h : Tidy c) : Tidy (execCGI env c).2 := by
  unfold execCGI
  dsimp only
  split
  · exact h.of_eq rfl rfl rfl (Adds.record rfl trivial)
  · exact h.of_eq rfl rfl rfl (Adds.of_eq rfl)

theorem generateCGIProcess_tidy (env : Env) {c : Client} (h : Tidy c) :
    Tidy (generateCGIProcess env c).2 := by
  have hexec := execCGI_tidy env h
  unfold generateCGIProcess
  dsimp only
  split
  · exact deleteCGIProcess_tidy hexec
  · exact hexec.of_eq rfl rfl rfl (Adds.of_eq rfl)

theorem handleClientResponse_tidy (env : Env) {c : Client} (h : Tidy c) {response : ℤ}
    (hpos : 0 < response) (hresponse : Tabled response) :
    TidyOut (handleClientResponse env c response) := by
  unfold handleClientResponse
  split
  · exact generateResponse_code env h hpos hresponse
  · have hstart := generateCGIProcess_tidy env h
    dsimp only
    split
    · exact generateResponse_code env hstart (by decide) (show InTable 500 by decide).tabled
    · exact ⟨tabled_zero, hstart⟩

theorem respondTo_tidy (env : Env) {out : ℤ × Client} (h : TidyOut out) :
    TidyOut (respondTo env out) := by
  unfold respondTo
  split
  · rename_i hpos
    exact handleClientResponse_tidy env h.2 hpos h.1
  · exact h

/-- A client whose head has been read, while its request is checked. -/
def ReadTidy (c : Client) : Prop := Tidy c ∧ c.headerStatus ≠ .ongoing

def ReadOut (out : ℤ × Client) : Prop := Tabled out.1 ∧ ReadTidy out.2

theorem onRequest_tidy {check : Request → Checked (ℤ × Request)} {c : Client} (h : ReadTidy c)
    (hcheck : Ends (check c.getRequest) fun out => Graded c.getRequest out.1 out.2) :
    Ends (onRequest check c) ReadOut := by
  refine Ends.bind hcheck ?_
  intro out hout
  exact ends_pure.mpr ⟨hout.code, h.1.setRequest hout, h.2⟩

theorem assignHost_tidy {c : Client} (h : ReadTidy c) : ReadOut (assignHost c) := by
  unfold assignHost
  dsimp only
  split
  · refine ⟨(show InTable 400 by decide).tabled, ?_, h.2⟩
    exact h.1.setRequest
      (Graded.of_noted tabled_zero (show InTable 400 by decide).tabled fun hr => hr)
  · refine ⟨tabled_zero, ?_⟩
    unfold Client.setHost
    split
    · exact h
    · exact ⟨h.1.of_eq rfl rfl rfl (Adds.of_eq rfl), h.2⟩

theorem announceBody_tidy {c : Client} (h : ReadTidy c) : ReadTidy (announceBody c) := by
  unfold announceBody
  dsimp only
  split
  · refine ⟨h.1.of_eq ?_ ?_ rfl (Adds.of_eq rfl), h.2⟩
    · show (Request.setBodyMaxSize _ _).resHints.status = _
      split
      · rfl
      · rfl
    · show (Request.setBodyMaxSize _ _).status = _
      split
      · rfl
      · rfl
  · exact h

theorem checkNewBody_tidy {c : Client} (h : ReadTidy c) : ReadOut (checkNewBody c) := by
  have hlength : Graded c.getRequest 0 (withLength c.getRequest) := by
    unfold withLength
    split
    · exact Graded.of_eq tabled_zero rfl fun hr => hr
    · exact Graded.refl _
  unfold checkNewBody
  split
  · unfold checkBodyLength
    dsimp only
    split
    · refine ⟨(show InTable 413 by decide).tabled, ?_, h.2⟩
      exact h.1.setRequest
        (Graded.of_noted tabled_zero (show InTable 413 by decide).tabled fun hr => hr)
    · exact ⟨tabled_zero, announceBody_tidy ⟨h.1.setRequest hlength, h.2⟩⟩
  · exact ⟨tabled_zero, h⟩

theorem checkContinue_tidy {c : Client} (h : ReadTidy c) : ReadOut (checkContinue c) := by
  unfold checkContinue
  dsimp only
  split
  · split
    · refine ⟨(show InTable 400 by decide).tabled, ?_, h.2⟩
      exact h.1.setRequest
        (Graded.of_noted tabled_zero (show InTable 400 by decide).tabled fun hr => hr)
    · exact ⟨(show InTable 100 by decide).tabled, h⟩
  · split
    · refine ⟨(show InTable 417 by decide).tabled, ?_, h.2⟩
      exact h.1.setRequest
        (Graded.of_noted tabled_zero (show InTable 417 by decide).tabled fun hr => hr)
    · exact ⟨tabled_zero, h⟩

theorem setBodyFile_tidy {c : Client} (h : ReadTidy c) (path : Bytes) (opens : Bool) :
    ReadTidy (c.setBodyFile path opens) := by
  unfold Client.setBodyFile
  dsimp only
  split
  · exact ⟨h.1.of_eq rfl rfl rfl (Adds.record rfl trivial), h.2⟩
  · exact ⟨h.1.of_eq rfl rfl rfl (Adds.of_eq rfl), h.2⟩

theorem keepContentType_tidy {c : Client} (h : ReadTidy c) : ReadTidy (keepContentType c) := by
  unfold keepContentType
  dsimp only
  split
  · exact ⟨h.1.of_eq rfl rfl rfl (Adds.of_eq rfl), h.2⟩
  · exact h

theorem setUnlink_tidy {c : Client} (h : ReadTidy c) (unlink : Bool) :
    ReadTidy (setUnlink c unlink) := ⟨h.1.of_eq rfl rfl rfl (Adds.of_eq rfl), h.2⟩

theorem uploadTo_tidy (env : Env) {c : Client} (h : ReadTidy c) (filePath : Bytes) {status : ℤ}
    (hstatus : InTable status) (alreadyExist : Bool) :
    ReadTidy (uploadTo env c filePath status alreadyExist) := by
  unfold uploadTo
  refine keepContentType_tidy (setUnlink_tidy (setBodyFile_tidy ?_ _ _) _)
  exact ⟨h.1.setRequest (Graded.of_noted tabled_zero hstatus.tabled fun hr => hr), h.2⟩

theorem defineBodyParsing_tidy (env : Env) {c : Client} (h : ReadTidy c) :
    ReadTidy (defineBodyParsing env c) := by
  have hforbidden : ReadTidy (c.setRequest (c.getRequest.setHintStatus RES_FORBIDDEN)) :=
    ⟨h.1.setRequest (Graded.of_noted tabled_zero (show InTable 403 by decide).tabled fun hr => hr),
      h.2⟩
  unfold defineBodyParsing
  dsimp only
  split
  · exact keepContentType_tidy (setUnlink_tidy (setBodyFile_tidy h _ _) _)
  · split
    · split
      · exact uploadTo_tidy env h _ (by decide) _
      · split
        · exact hforbidden
        · exact uploadTo_tidy env h _ (by decide) _
      · exact hforbidden
    · exact keepContentType_tidy (setBodyFile_tidy h _ _)

theorem acceptHeaders_tidy (env : Env) {res : ℤ} (hres : Tabled res) {c : Client}
    (h : ReadTidy c) : ReadOut (acceptHeaders env res c) := by
  have hdefined : ReadTidy (if c.getRequest.resHints.cgiRedir = .none then
      defineBodyParsing env c else c) := by
    split
    · exact defineBodyParsing_tidy env h
    · exact h
  unfold acceptHeaders
  generalize (if c.getRequest.resHints.cgiRedir = .none then
    defineBodyParsing env c else c) = d at hdefined
  have hdone : Tidy { d with headerStatus := .done } :=
    ⟨hdefined.1.status, fun _ => hdefined.1.phase hdefined.2, hdefined.1.replies⟩
  have hnot : HeaderStatus.done ≠ .ongoing := by decide
  dsimp only
  split
  · refine ⟨tabled_zero, ?_, hnot⟩
    exact hdone.of_eq rfl rfl rfl (Adds.record rfl (show InTable 100 by decide))
  · exact ⟨hres, hdone, hnot⟩

theorem finishHeaders_tidy (env : Env) {c : Client} (h : ReadTidy c) :
    ReadOut (finishHeaders env c) := by
  have hcontinue := checkContinue_tidy h
  unfold finishHeaders
  generalize checkContinue c = out at hcontinue
  dsimp only
  split
  · exact hcontinue
  · exact acceptHeaders_tidy env hcontinue.1 hcontinue.2

theorem andThen_tidy {first : Checked (ℤ × Client)} {next : Client → Checked (ℤ × Client)}
    (hfirst : Ends first ReadOut) (hnext : ∀ c, ReadTidy c → Ends (next c) ReadOut) :
    Ends (andThen first next) ReadOut := by
  refine Ends.andThen (I := ReadTidy) (hfirst.mono ?_) hnext
  intro out hout
  exact ⟨fun _ => hout.2, fun _ => hout⟩

/-- The checks of a request answer with tabled codes. -/
theorem handleRequestHeaders_tidy (env : Env) {c : Client} (h : ReadTidy c) :
    Ends (handleRequestHeaders env c) ReadOut := by
  refine andThen_tidy (ends_ok.mpr (assignHost_tidy h)) ?_
  intro c h
  refine andThen_tidy (onRequest_tidy h (parseURI_graded _)) ?_
  intro c h
  refine andThen_tidy (onRequest_tidy h (ends_ok.mpr (checkForbiddenHeaders_graded _))) ?_
  intro c h
  refine andThen_tidy (ends_ok.mpr (checkNewBody_tidy h)) ?_
  intro c h
  refine andThen_tidy (onRequest_tidy h (checkRequest_graded _ _ _)) ?_
  intro c h
  exact ends_ok.mpr (finishHeaders_tidy env h)

/-- The head parser is called with bytes that make the head too large. -/
def ReadsTooMuch (c : Client) (bytes : Bytes) : Prop :=
  c.headerStatus = .ongoing ∧ HeadTooLarge c.getRequest (c.buffer ++ bytes)

/-- The bytes are some, or the first of a request. -/
def Feeds (c : Client) (bytes : Bytes) : Prop := bytes ≠ [] ∨ c.getRequest = {}

theorem parseRequest_tidy {c : Client} (h : Tidy c) {bytes : Bytes}
    (hfeeds : c.headerStatus = .ongoing → Feeds c bytes) (hsmall : ¬ ReadsTooMuch c bytes) :
    Ends (c.parseRequest bytes) fun out => TidyOut out ∧
      (out.1 < 0 → out.2.headerStatus ≠ .ongoing) := by
  unfold Client.parseRequest
  split
  · rename_i hheader
    have hempty : c.buffer ++ bytes = [] →
        c.getRequest.status = .new ∧ c.getRequest.line = [] := by
      intro hnil
      rcases hfeeds hheader with hne | hnew
      · exact absurd (List.append_eq_nil_iff.mp hnil).2 hne
      · rw [hnew]
        exact ⟨rfl, rfl⟩
    refine Ends.bind (P := fun out => Graded c.getRequest out.1 out.2.1 ∧
      (out.1 < 0 → out.2.1.status = .term)) ?_ ?_
    · intro out hout
      refine ⟨parseHeaders_graded _ _ hempty (fun hlarge => hsmall ⟨hheader, hlarge⟩) _ hout, ?_⟩
      intro hneg
      have hdone : out.1 = -1 := by
        rcases parseHeaders_answer _ _ hout with hres | hres | hres
        · omega
        · exact hres
        · omega
      exact ((parseHeaders_headCall _ _ _ hout).2 hdone).1
    · intro out hout
      obtain ⟨res, r, rest⟩ := out
      obtain ⟨hgraded, hterm⟩ := hout
      dsimp only at hgraded hterm
      refine ends_pure.mpr ⟨⟨hgraded.code, hgraded.noted h.status, ?_, h.replies⟩, ?_⟩
      · show (if res < 0 then HeaderStatus.ready else .ongoing) ≠ .ongoing → r.status = .term
        split
        · rename_i hneg
          exact fun _ => hterm hneg
        · exact fun hne => absurd rfl hne
      · intro hneg
        change res < 0 at hneg
        show (if res < 0 then HeaderStatus.ready else .ongoing) ≠ .ongoing
        rw [if_pos hneg]
        decide
  · split
    · rename_i hheader hbody
      refine Ends.bind (parseInput_graded (h.phase hheader) _ _) ?_
      intro out hout
      obtain ⟨res, ⟨r, stream⟩, rest⟩ := out
      dsimp only at hout
      exact ends_pure.mpr ⟨⟨hout.code, hout.noted h.status, fun hhead => hout.phase (h.phase hhead),
        h.replies⟩, fun _ => hheader⟩
    · rename_i hheader _
      exact ends_pure.mpr ⟨⟨tabled_zero, h.of_eq rfl rfl rfl (Adds.of_eq rfl)⟩, fun _ => hheader⟩

theorem handleRequestBodyDone_tidy {c : Client} (h : Tidy c) :
    TidyOut (handleRequestBodyDone c) := by
  have hdone : ∀ method uri headers stream,
      Tidy (c.record (.bodyDone method uri headers stream)) := fun _ _ _ _ => h.record trivial
  unfold handleRequestBodyDone
  dsimp only
  split
  · refine ⟨?_, hdone _ _ _ _⟩
    dsimp only
    split
    · exact h.status
    · exact (show InTable 204 by decide).tabled
  · split
    · refine ⟨(show InTable 204 by decide).tabled, ?_⟩
      exact (hdone c.getRequest.method c.getRequest.uri c.getRequest.headers c.bodyStream).of_eq
        rfl rfl rfl (Adds.record rfl trivial)
    · exact ⟨(show InTable 200 by decide).tabled, hdone _ _ _ _⟩

theorem finishBody_tidy {out : ℤ × Client} (h : TidyOut out) :
    TidyOut (finishBody out.1 out.2) := by
  unfold finishBody
  split
  · exact handleRequestBodyDone_tidy h.2
  · exact h

theorem startBody_tidy {c : Client} (h : ReadTidy c) : Ends (startBody c) TidyOut := by
  have hsmall : ¬ ReadsTooMuch c [] := fun hreads => h.2 hreads.1
  unfold startBody
  refine Ends.bind (P := TidyOut) ?_ ?_
  · unfold parseRest
    split
    · refine (parseRequest_tidy h.1 (fun hheader => absurd hheader h.2) hsmall).mono ?_
      intro out hout
      exact hout.1
    · exact ends_ok.mpr ⟨tabled_zero, h.1⟩
  · intro out hout
    exact ends_pure.mpr (finishBody_tidy hout)

theorem checkHeaders_tidy (env : Env) {c : Client} (h : ReadTidy c) :
    Ends (checkHeaders env c) ReadOut := by
  have hbare : ReadTidy { c with bodyStatus := .none } :=
    ⟨h.1.of_eq rfl rfl rfl (Adds.of_eq rfl), h.2⟩
  unfold checkHeaders
  refine Ends.bind (handleRequestHeaders_tidy env hbare) ?_
  intro out hout
  exact ends_pure.mpr ⟨hout.1, hout.2.1.record trivial, hout.2.2⟩

/-- Bytes that do not make the head too large are answered with tabled codes. -/
theorem receive_tidy (env : Env) {c : Client} (h : Tidy c) {bytes : Bytes}
    (hfeeds : c.headerStatus = .ongoing → Feeds c bytes) (hsmall : ¬ ReadsTooMuch c bytes) :
    Ends (receive env c bytes) TidyOut := by
  unfold receive
  refine Ends.bind (parseRequest_tidy h hfeeds hsmall) ?_
  intro out hout
  obtain ⟨res, d⟩ := out
  obtain ⟨htidy, hread⟩ := hout
  dsimp only at hread ⊢
  split
  · exact ends_pure.mpr htidy
  · rename_i hneg
    split
    · refine Ends.andThen (I := ReadTidy) ?_ fun d hd => startBody_tidy hd
      refine (checkHeaders_tidy env ⟨htidy.2, hread (by omega)⟩).mono ?_
      intro out hout
      exact ⟨fun _ => hout.2, fun _ => ⟨hout.1, hout.2.1⟩⟩
    · exact ends_pure.mpr (finishBody_tidy htidy)

theorem extractHeader_noted (p : CgiReader) :
    Ends p.extractHeader fun out => out.2.hints.status = p.hints.status := by
  refine (extractHeader_hints p).mono ?_
  intro out hout
  obtain ⟨cookies, hhints⟩ := hout
  rw [hhints]

theorem readLines_noted (fuel : ℕ) {p : CgiReader} (h : Tabled p.hints.status) (buffer : Bytes) :
    Ends (p.readLines fuel buffer) fun out => Tabled out.2.hints.status := by
  induction fuel generalizing p buffer with
  | zero => exact ends_pure.mpr h
  | succ fuel ih =>
    unfold CgiReader.readLines
    refine Ends.bind (getLine_hints p buffer) ?_
    intro out hout
    split
    · exact ends_pure.mpr h
    · rename_i q rest
      have hq : Tabled q.hints.status := by
        rw [hout q rest rfl]
        exact h
      split
      · exact ends_pure.mpr hq
      · refine Ends.bind (extractHeader_noted q) ?_
        intro out' hout'
        obtain ⟨res, q'⟩ := out'
        dsimp only at hout' ⊢
        split
        · exact ends_pure.mpr (show InTable 500 by decide).tabled
        · refine ih ?_ rest
          rw [hout']
          exact hq

theorem retrieveType_status (headers : HeaderMap) (hints : ResHints) :
    (Request.retrieveType headers hints).status = hints.status := by
  unfold Request.retrieveType
  split
  · rfl
  · rfl

/-- A verdict that calls for a response comes with its status. -/
theorem inspectHeaders_graded (headers : HeaderMap) (r : Request) :
    Graded r 0 (Request.inspectHeaders headers r).2 ∧
      ((Request.inspectHeaders headers r).1 = .doc ∨
        (Request.inspectHeaders headers r).1 = .clientRedirect →
          InTable (Request.inspectHeaders headers r).2.resHints.status) := by
  unfold Request.inspectHeaders
  dsimp only
  split
  · exact ⟨Graded.refl r, fun h => by simp at h⟩
  · split
    · have hfound : InTable (Request.retrieveType headers { (r.resHints.addHeader (ascii "Location")
          ((headers.find? (ascii "Location")).getD [])) with status := 302 }).status := by
        rw [retrieveType_status]
        exact (by decide : InTable 302)
      exact ⟨Graded.of_noted tabled_zero hfound.tabled fun h => h, fun _ => hfound⟩
    · split
      · exact ⟨Graded.of_eq tabled_zero rfl fun h => h, fun h => by simp at h⟩
      · split
        · have hfailed : InTable (r.setHintStatus 500).resHints.status :=
            (by decide : InTable 500)
          exact ⟨Graded.of_noted tabled_zero hfailed.tabled fun h => h, fun _ => hfailed⟩
        · have hok : InTable (Request.retrieveType headers
              { r.resHints with status := 200, hasBody := false }).status := by
            rw [retrieveType_status]
            exact (by decide : InTable 200)
          exact ⟨Graded.of_noted tabled_zero hok.tabled fun h => h, fun _ => hok⟩

theorem parseCgiHeaders_graded (fs : FileSystem) {r : Request} (h : Tabled r.resHints.status) :
    Ends (r.parseCgiHeaders fs) fun out => Graded r 0 out.2 ∧
      (out.1 = .doc ∨ out.1 = .clientRedirect → InTable out.2.resHints.status) := by
  unfold Request.parseCgiHeaders
  dsimp only
  refine Ends.bind (readLines_noted _ (show Tabled ({ hints := r.resHints } :
    CgiReader).hints.status from h) _) ?_
  intro out hout
  obtain ⟨res, p⟩ := out
  dsimp only at hout ⊢
  split
  · exact ends_pure.mpr ⟨Graded.of_noted tabled_zero hout fun h => h, fun h => by simp at h⟩
  · obtain ⟨hgraded, hverdict⟩ := inspectHeaders_graded p.headers
      { r with resHints := { p.hints with index := p.index } }
    refine ends_pure.mpr ⟨?_, hverdict⟩
    exact ⟨tabled_zero, fun _ => hgraded.noted hout, hgraded.phase⟩

theorem withVerdict_tidy {c : Client} (h : Tidy c) (verdict : CgiRes) {r : Request}
    (hr : Graded c.getRequest 0 r) : Tidy (withVerdict c verdict r) := by
  have hverdict : Graded c.getRequest 0
      { r with resHints := { r.resHints with cgiRedir := verdict } } :=
    ⟨tabled_zero, hr.noted, hr.phase⟩
  exact h.setRequest hverdict

theorem cgiUnavailable_tidy (env : Env) {c : Client} (h : Tidy c) :
    TidyOut (cgiUnavailable env c) :=
  generateResponse_code env (deleteCGIProcess_tidy h) (by decide)
    (show InTable 503 by decide).tabled

theorem serveDocument_tidy (env : Env) {c : Client} (h : Tidy c)
    (hstatus : InTable c.getRequest.resHints.status) : TidyOut (serveDocument env c) := by
  have hserved := generateResponse_tidy env h fun _ => show InTable (statusOf c 0) from hstatus
  refine ⟨?_, deleteCGIProcess_tidy hserved⟩
  show Tabled (generateResponse env c 0).1
  rcases generateResponse_cases env c 0 with ⟨-, hout⟩ | ⟨-, final, c', hout, -⟩
  · rw [hout]
    exact tabled_zero
  · rw [hout]
    exact tabled_zero

/-- The request a process redirects to is accepted, but not for a script. -/
def ServesFile (env : Env) (c : Client) : Prop :=
  ∃ d, handleRequestHeaders env c.deleteCGIProcess = .ok (0, d) ∧ d.getRequest.type ≠ .cgi ∧
    d.response = none

theorem followRedirect_tidy (env : Env) {c : Client} (h : Tidy c)
    (hheader : c.headerStatus ≠ .ongoing) (hserves : ¬ ServesFile env c) :
    Ends (followRedirect env c) TidyOut := by
  have hread : ReadTidy c.deleteCGIProcess := by
    refine ⟨deleteCGIProcess_tidy h, ?_⟩
    rw [(deleteCGIProcess_same c).header]
    exact hheader
  unfold followRedirect
  refine Ends.bind (P := fun out => handleRequestHeaders env c.deleteCGIProcess = .ok out)
    (fun _ h => h) ?_
  intro out hchecked
  obtain ⟨res, d⟩ := out
  obtain ⟨hcode, htidy, -⟩ := handleRequestHeaders_tidy env hread _ hchecked
  dsimp only at hcode htidy ⊢
  have hverdict : res = 0 ∨ 300 ≤ res := by
    rcases handleRequestHeaders_checked env _ _ hchecked with hrefused | haccepted
    · exact Or.inr hrefused.verdict
    · exact Or.inl haccepted.verdict
  split
  · rename_i hres
    exact ends_pure.mpr (generateResponse_code env htidy (by omega) hcode)
  · rename_i hres
    obtain rfl : res = 0 := not_not.mp hres
    split
    · rename_i htype
      have howed : d.response ≠ none := fun hnone => hserves ⟨d, hchecked, htype, hnone⟩
      have hsome : d.response.isSome = true := Option.isSome_iff_ne_none.mpr howed
      rw [generateResponse, if_pos hsome]
      exact ends_pure.mpr ⟨tabled_zero, htidy⟩
    · have hstart := generateCGIProcess_tidy env htidy
      split
      · exact ends_pure.mpr (generateResponse_code env (deleteCGIProcess_tidy hstart) (by decide)
          (show InTable 500 by decide).tabled)
      · exact ends_pure.mpr ⟨tabled_zero, hstart⟩

/-- A process that ended well redirects to a file while no response is owed. -/
def RedirectsToFile (c : Client) (event : EpollEvent) : Prop :=
  EndsWell c event ∧ ∃ r, c.getRequest.parseCgiHeaders event.output = .ok (.localRedirect, r) ∧
    ServesFile event.env (withVerdict c .localRedirect r)

/-- What is known of a process does not matter once it is removed. -/
theorem servesFile_process {env : Env} {c : Client} {p q : CGIProcess} {r : Request}
    (hp : c.cgiProcess = some p) (hq : q.output = p.output)
    (h : ServesFile env (withVerdict { c with cgiProcess := some q } .localRedirect r)) :
    ServesFile env (withVerdict c .localRedirect r) := by
  have hgone : (withVerdict { c with cgiProcess := some q } .localRedirect r).deleteCGIProcess =
      (withVerdict c .localRedirect r).deleteCGIProcess := by
    have hp' : (withVerdict c .localRedirect r).cgiProcess = some p := hp
    unfold Client.deleteCGIProcess
    rw [hp']
    show ({ (withVerdict c .localRedirect r) with cgiProcess := none } : Client).record
      (.destroyed q.output _) = _
    rw [hq]
    rfl
  unfold ServesFile at h ⊢
  rwa [hgone] at h

theorem finishCGI_tidy (event : EpollEvent) {c : Client} (h : Tidy c)
    (hheader : c.headerStatus ≠ .ongoing)
    (hserves : ∀ r, c.getRequest.parseCgiHeaders event.output = .ok (.localRedirect, r) →
      ¬ ServesFile event.env (withVerdict c .localRedirect r)) :
    Ends (finishCGI event c) TidyOut := by
  unfold finishCGI
  refine Ends.bind (P := fun out : CgiRes × Request =>
    c.getRequest.parseCgiHeaders event.output = .ok out) (fun _ h => h) ?_
  intro out hparse
  obtain ⟨verdict, r⟩ := out
  obtain ⟨hgraded, hverdict⟩ := parseCgiHeaders_graded event.output h.status _ hparse
  dsimp only at hgraded hverdict ⊢
  have htidy := withVerdict_tidy h verdict hgraded
  cases verdict with
  | error => exact ends_pure.mpr (cgiUnavailable_tidy event.env htidy)
  | none => exact ends_pure.mpr ⟨tabled_zero, deleteCGIProcess_tidy htidy⟩
  | doc => exact ends_pure.mpr (serveDocument_tidy event.env htidy (hverdict (Or.inl rfl)))
  | clientRedirect =>
    exact ends_pure.mpr (serveDocument_tidy event.env htidy (hverdict (Or.inr rfl)))
  | localRedirect => exact followRedirect_tidy event.env htidy hheader (hserves r hparse)

/-- A process leaves tabled codes behind, unless it redirects to a file. -/
theorem handleCGIProcess_tidy (event : EpollEvent) {c : Client} (hsound : Sound (view c))
    (h : Tidy c) (hredirects : ¬ RedirectsToFile c event) :
    Ends (handleCGIProcess event c) TidyOut := by
  have hprocess : ∀ q : CGIProcess, Tidy { c with cgiProcess := some q } :=
    fun q => h.of_eq rfl rfl rfl (Adds.of_eq rfl)
  unfold handleCGIProcess
  split
  · exact ends_ok.mpr ⟨tabled_zero, h⟩
  · rename_i p hp
    have hcgi : (view c).cgi ≠ none := by
      show c.cgiProcess.map CGIProcess.output ≠ none
      rw [hp]
      exact Option.some_ne_none _
    have hheader : c.headerStatus ≠ .ongoing := by
      have hdone : c.headerStatus = .done := (hsound.processing hcgi).1
      rw [hdone]
      decide
    unfold checkEnd
    by_cases hpid : p.pid = 0
    · rw [if_pos hpid]
      exact ends_ok.mpr (cgiUnavailable_tidy event.env (hprocess p))
    · rw [if_neg hpid]
      cases hchild : event.child with
      | running => exact ends_ok.mpr ⟨tabled_zero, hprocess p⟩
      | expired => exact ends_ok.mpr (cgiUnavailable_tidy event.env (hprocess _))
      | failed => exact ends_ok.mpr (cgiUnavailable_tidy event.env (hprocess _))
      | exited =>
        refine finishCGI_tidy event (hprocess _) hheader ?_
        intro r hparse hserves
        exact hredirects ⟨⟨p, hp, hpid, hchild⟩, r, hparse, servesFile_process hp rfl hserves⟩

/-- The response is written to its end in the step, and the connection kept. -/
def KeepsOn (c : Client) (event : EpollEvent) (d : Client) : Prop :=
  ∃ e, handleCGIProcess event c = .ok (0, e) ∧ e.response ≠ none ∧
    handleClientOut event.written e = (.keepAlive, d)

/-- No head read in the step is too large, and no process redirects to a file. -/
def Orderly (c : Client) : Event → Prop
  | .epoll event =>
    (Readable c event → ∀ bytes, event.incoming = some bytes → bytes ≠ [] →
      ¬ ReadsTooMuch c bytes) ∧
    (Writable c event → ¬ RedirectsToFile c event ∧
      ∀ d, KeepsOn c event d → ¬ ReadsTooMuch (d.clear.setMode .read) [])
  | .timeOut _ _ => True

theorem handleClientOut_tidy (written : Bytes → ℤ) {c : Client} (h : Tidy c) :
    Tidy (handleClientOut written c).2 := by
  have hafter : ∀ {d : Client}, Tidy d → Tidy (afterWrite d).2 := by
    intro d hd
    unfold afterWrite
    split
    · exact hd
    · split
      · exact hd.setRequest (Graded.of_eq tabled_zero rfl fun hr => hr)
      · split
        · exact hd
        · exact hd
  unfold handleClientOut writeBuffer
  split
  · exact h
  · rename_i d hwrite
    refine hafter ?_
    split at hwrite
    · cases hwrite
      exact h
    · split at hwrite
      · cases hwrite
      · cases hwrite
        exact h.of_eq rfl rfl rfl (Adds.record rfl trivial)

theorem keepAlive_tidy (env : Env) {c : Client} (h : Tidy c)
    (hsmall : ¬ ReadsTooMuch (c.clear.setMode .read) []) : Ends (keepAlive env c) TidyOut := by
  have hclear : Tidy (c.clear.setMode .read) :=
    (clear_tidy h).of_eq rfl rfl rfl (Adds.of_eq rfl)
  unfold keepAlive
  refine Ends.bind (receive_tidy env hclear (fun _ => Or.inr rfl) hsmall) ?_
  intro out hout
  exact ends_pure.mpr (respondTo_tidy env hout)

theorem handleResponseOut_tidy (event : EpollEvent) {c : Client} (h : Tidy c)
    (hsmall : ∀ d, c.response ≠ none → handleClientOut event.written c = (.keepAlive, d) →
      ¬ ReadsTooMuch (d.clear.setMode .read) []) :
    Ends (handleResponseOut event c) TidyOut := by
  have hwritten := handleClientOut_tidy event.written h
  unfold handleResponseOut
  split
  · exact ends_ok.mpr ⟨tabled_zero, h⟩
  · rename_i howed
    split
    · rename_i d hout
      rw [hout] at hwritten
      exact ends_ok.mpr ⟨tabled_zero, hwritten⟩
    · rename_i d hout
      rw [hout] at hwritten
      exact keepAlive_tidy event.next hwritten (hsmall d howed hout)
    · rename_i d hout
      rw [hout] at hwritten
      exact ends_ok.mpr ⟨tabled_zero, hwritten.of_eq rfl rfl rfl (Adds.of_eq rfl)⟩
    · rename_i d hout
      rw [hout] at hwritten
      exact ends_ok.mpr ⟨tabled_zero, terminate_tidy hwritten⟩

theorem handleWritable_tidy (event : EpollEvent) {c : Client} (hsound : Sound (view c))
    (h : Tidy c) (hredirects : ¬ RedirectsToFile c event)
    (hsmall : ∀ d, KeepsOn c event d → ¬ ReadsTooMuch (d.clear.setMode .read) []) :
    Ends (handleWritable event c) fun out => Tidy out.2 := by
  unfold handleWritable
  refine Ends.bind (P := fun out => handleCGIProcess event c = .ok out) (fun _ h => h) ?_
  intro out hcgi
  obtain ⟨res, d⟩ := out
  obtain ⟨-, htidy⟩ := handleCGIProcess_tidy event hsound h hredirects _ hcgi
  dsimp only at htidy ⊢
  split
  · exact ends_pure.mpr htidy
  · rename_i hres
    obtain rfl : res = 0 := not_not.mp hres
    refine (handleResponseOut_tidy event htidy ?_).mono fun out hout => hout.2
    intro e howed hout
    exact hsmall e ⟨d, hcgi, howed, hout⟩

theorem handleReadable_tidy (event : EpollEvent) {c : Client} (h : Tidy c)
    (hsmall : ∀ bytes, event.incoming = some bytes → bytes ≠ [] → ¬ ReadsTooMuch c bytes) :
    Ends (handleReadable event c) fun out => Tidy out.2 := by
  unfold handleReadable
  refine Ends.bind (P := TidyOut) ?_ ?_
  · unfold handleClientIn
    split
    · exact ends_ok.mpr ⟨tabled_done, h⟩
    · rename_i bytes hincoming
      split
      · exact ends_ok.mpr ⟨tabled_done, h⟩
      · rename_i hbytes
        exact receive_tidy event.env h (fun _ => Or.inl hbytes) (hsmall bytes hincoming hbytes)
  · intro out hout
    exact ends_pure.mpr (respondTo_tidy event.env hout).2

theorem handleEpoll_tidy (event : EpollEvent) {c : Client} (hsound : Sound (view c))
    (h : Tidy c) (horderly : Orderly c (.epoll event)) : Ends (handleEpoll event c) Tidy := by
  obtain ⟨hreads, hwrites⟩ := horderly
  unfold handleEpoll
  refine Ends.bind (P := fun out => Tidy out.2) ?_ ?_
  · unfold handleClientEvent
    split
    · exact ends_ok.mpr (terminate_tidy h)
    · rename_i hup
      split
      · rename_i hin
        exact handleReadable_tidy event h (hreads ⟨hup, hin⟩)
      · rename_i hin
        split
        · rename_i hout
          obtain ⟨hredirects, hsmall⟩ := hwrites ⟨hup, hin, hout⟩
          exact handleWritable_tidy event hsound h hredirects hsmall
        · exact ends_ok.mpr h
  · intro out hout
    dsimp only
    split
    · exact ends_pure.mpr (terminate_tidy hout)
    · exact ends_pure.mpr hout

theorem checkTO_tidy (expired : Bool) (env : Env) {c : Client} (h : Tidy c) :
    Tidy (checkTO expired env c) := by
  unfold checkTO
  split
  · split
    · exact terminate_tidy h
    · rename_i request hrequest
      have hget : c.getRequest = request := by
        rw [Client.getRequest, hrequest]
        rfl
      refine (generateResponse_code env ?_ (by decide) (show InTable 408 by decide).tabled).2
      have hwrite : Tidy (c.setMode .write) := h.of_eq rfl rfl rfl (Adds.of_eq rfl)
      have hgraded : Graded c.getRequest 0 ((request.setStatus .complete).fillError 408 []).2 := by
        refine Graded.of_noted tabled_zero (show InTable 408 by decide).tabled ?_
        show c.getRequest.status = .term → request.status = .term
        rw [hget]
        exact fun hr => hr
      exact hwrite.setRequest hgraded
  · exact h

/-- A step that is orderly keeps a client tidy. -/
theorem step_tidy (event : Event) {c : Client} (hsound : Sound (view c)) (h : Tidy c)
    (horderly : Orderly c event) : Ends (step c event) Tidy := by
  unfold step
  split
  · exact ends_ok.mpr h
  · cases event with
    | epoll event => exact handleEpoll_tidy event hsound h horderly
    | timeOut expired env => exact ends_ok.mpr (checkTO_tidy expired env h)

theorem reached_tidy {server : ListenServer} {events : List Event} {c : Client}
    (h : Reaches step Orderly (Client.newClient server) events c) : Sound (view c) ∧ Tidy c := by
  refine Reaches.invariant (I := fun c => Sound (view c) ∧ Tidy c) ?_ ?_ h
  · rw [newClient_view]
    exact ⟨fresh_sound .read, newClient_tidy server⟩
  · intro c event hinv horderly
    obtain ⟨hsound, htidy⟩ := hinv
    intro d hd
    exact ⟨(step_moves event hsound d hd).sound, step_tidy event hsound htidy horderly d hd⟩

/-- In every run of orderly steps each response has a status of the table: a code of three
digits with a text. -/
theorem responded_in_table {server : ListenServer} {events : List Event} {c : Client}
    (h : Reaches step Orderly (Client.newClient server) events c) {status : ℤ}
    {connection : Bytes} {buffers : List Bytes} {origin : Option Origin}
    (hresponded : .responded status connection buffers origin ∈ c.trace) :
    InTable status ∧ 100 ≤ status ∧ status < 1000 ∧ reason status ≠ [] := by
  have hlined : InTable status := (reached_tidy h).2.replies _ hresponded
  exact ⟨hlined, hlined.line⟩

/-- A head without a host, which is refused. -/
def namelessHead : Bytes := ascii "GET / HTTP/1.1" ++ CRLF ++ CRLF

theorem nameless_head_small (server : ListenServer) :
    ¬ ReadsTooMuch (Client.newClient server) namelessHead := by
  intro ⟨_, hlarge⟩
  have hcut : cutAt 13 10 namelessHead = some (ascii "GET / HTTP/1.1", CRLF) := by decide +kernel
  have hlarge' : ∃ line rest, cutAt 13 10 namelessHead = some (line, rest) ∧
      Outgrown (toInt namelessHead.length) rest := hlarge
  obtain ⟨line, rest, hcut', hout⟩ := hlarge'
  rw [hcut, Option.some.injEq, Prod.mk.injEq] at hcut'
  obtain ⟨-, rfl⟩ := hcut'
  have hend : cutAt 13 10 CRLF = some ([], []) := by decide
  cases hout with
  | unfinished hnone _ =>
    rw [hend] at hnone
    cases hnone
  | value hsome hline _ _ =>
    rw [hend, Option.some.injEq, Prod.mk.injEq] at hsome
    exact hline hsome.1.symm
  | next hsome hline _ _ _ =>
    rw [hend, Option.some.injEq, Prod.mk.injEq] at hsome
    exact hline hsome.1.symm

/-- The response of an action, if it is one. -/
def statusResponded : Action → Option ℤ
  | .responded status _ _ _ => some status
  | _ => none

theorem exists_responded {trace : List Action} {status : ℤ}
    (h : (trace.any fun a => statusResponded a = some status) = true) :
    ∃ connection buffers origin, .responded status connection buffers origin ∈ trace := by
  obtain ⟨a, ha, hstatus⟩ := List.any_eq_true.mp h
  have hsome := of_decide_eq_true hstatus
  cases a with
  | responded status' connection buffers origin =>
    obtain rfl : status' = status := Option.some.inj hsome
    exact ⟨connection, buffers, origin, ha⟩
  | _ => cases hsome

theorem nameless_head_in_table :
    ∃ c connection buffers origin, Reaches step Orderly (Client.newClient plainServer)
      [reading namelessHead] c ∧ .responded 400 connection buffers origin ∈ c.trace ∧
        (InTable 400 ∧ 100 ≤ (400 : ℤ) ∧ (400 : ℤ) < 1000 ∧ reason 400 ≠ []) := by
  have hrun : (step (Client.newClient plainServer) (reading namelessHead)).toOption.any
      (fun c => c.trace.any fun a => statusResponded a = some 400) = true := by decide +kernel
  obtain ⟨c, hc, htrace⟩ := exists_of_any hrun
  obtain ⟨connection, buffers, origin, hresponded⟩ := exists_responded htrace
  have hallowed : Orderly (Client.newClient plainServer) (reading namelessHead) := by
    constructor
    · intro _ bytes hbytes _
      obtain rfl : namelessHead = bytes := Option.some.inj hbytes
      exact nameless_head_small plainServer
    · intro hwritable
      exact absurd ⟨rfl, Or.inl rfl⟩ hwritable.2.1
  have hreach : Reaches step Orderly (Client.newClient plainServer) ([] ++ [reading namelessHead])
      c := .snoc .nil hallowed hc
  exact ⟨c, connection, buffers, origin, hreach, hresponded, responded_in_table hreach hresponded⟩

/-- The output of a process that redirects to a file. -/
def fileRedirect : Bytes := ascii "Location: /b" ++ CRLF ++ CRLF

/-- The response to a script that redirects to a file has status 0. -/
theorem not_all_in_table :
    ¬ ∀ (server : ListenServer) (events : List Event) (c : Client) (status : ℤ)
      (connection : Bytes) (buffers : List Bytes) (origin : Option Origin),
      Reaches step (fun _ _ => True) (Client.newClient server) events c →
        .responded status connection buffers origin ∈ c.trace → InTable status := by
  intro h
  have hrun : ([reading scriptHead, writing .exited fileRedirect].foldlM step
      (Client.newClient plainServer)).toOption.any
        (fun c => c.trace.any fun a => statusResponded a = some 0) = true := by decide +kernel
  obtain ⟨c, hc, htrace⟩ := exists_of_any hrun
  obtain ⟨connection, buffers, origin, hresponded⟩ := exists_responded htrace
  have hreach : Reaches step (fun _ _ => True) (Client.newClient plainServer)
      [reading scriptHead, writing .exited fileRedirect] c :=
    Reaches.of_foldlM (fun _ _ => trivial) hc
  have hlined := h _ _ c 0 connection buffers origin hreach hresponded
  exact absurd hlined (by decide)

end Webserveau.StatusLines
