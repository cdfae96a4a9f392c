import Webserveau.StatusLines
import Webserveau.UploadChecks

/-!
What a client has been answered, and what of it has been sent.
Every response that is made puts its buffers at the end of the queue, and a write takes the
first one out. As long as writes are not cut short, the buffers that were sent and those
that still wait are together the ones that the responses have brought.
-/
namespace Webserveau.AnswerLogs

open ByteStrings OrderedMaps Formats Requests Clients EventLoop Checks Transitions Replies
  Acceptance StatusLines LoopInvariants UploadChecks

def buffersOf : Action → List Bytes
  | .responded _ _ buffers _ => buffers
  | _ => []

def bytesSent : Action → Option Bytes
  | .sent bytes => some bytes
  | _ => none

/-- The statuses of the responses that were made. -/
def answers (actions : List Action) : List ℤ := actions.filterMap statusResponded

/-- The buffers of the responses that were made. -/
def queued (actions : List Action) : List Bytes := actions.flatMap buffersOf

def sent (actions : List Action) : List Bytes := actions.filterMap bytesSent

/-- From a client to a later state of it responses with these statuses are made; their
buffers are sent or wait, behind those that waited before. -/
def Logs (statuses : List ℤ) (c d : Client) : Prop :=
  ∃ actions, d.trace = c.trace ++ actions ∧ answers actions = statuses ∧
    sent actions ++ d.outBuffers = c.outBuffers ++ queued actions

theorem Logs.trans {front back : List ℤ} {c d e : Client} (h : Logs front c d)
    (h' : Logs back d e) : Logs (front ++ back) c e := by
  obtain ⟨actions, htrace, hanswers, hqueue⟩ := h
  obtain ⟨actions', htrace', hanswers', hqueue'⟩ := h'
  refine ⟨actions ++ actions', ?_, ?_, ?_⟩
  · rw [htrace', htrace, List.append_assoc]
  · rw [answers, List.filterMap_append]
    exact congrArg₂ _ hanswers hanswers'
  · rw [sent, queued, List.filterMap_append, List.flatMap_append]
    show sent actions ++ sent actions' ++ e.outBuffers = _ ++ (queued actions ++ queued actions')
    rw [List.append_assoc, hqueue', ← List.append_assoc, hqueue, List.append_assoc]

/-- Nothing is answered on the way that follows. -/
theorem Logs.silent {statuses : List ℤ} {c d e : Client} (h : Logs statuses c d)
    (h' : Logs [] d e) : Logs statuses c e := by
  have hboth := h.trans h'
  rwa [List.append_nil] at hboth

theorem Logs.of_eq {c d : Client} (htrace : d.trace = c.trace)
    (hout : d.outBuffers = c.outBuffers) : Logs [] c d := by
  refine ⟨[], ?_, rfl, ?_⟩
  · rw [htrace, List.append_nil]
  · show d.outBuffers = c.outBuffers ++ []
    rw [hout, List.append_nil]

/-- Actions that are no part of an answer. -/
def Silent : Action → Prop
  | .responded _ _ _ _ => False
  | .sent _ => False
  | _ => True

theorem Silent.empty {a : Action} (h : Silent a) :
    statusResponded a = none ∧ bytesSent a = none ∧ buffersOf a = [] := by
  cases a with
  | responded status connection buffers origin => exact h.elim
  | sent bytes => exact h.elim
  | _ => exact ⟨rfl, rfl, rfl⟩

theorem Logs.of_silent {c d : Client} (hadds : Adds Silent c d)
    (hout : d.outBuffers = c.outBuffers) : Logs [] c d := by
  obtain ⟨actions, htrace, hall⟩ := hadds
  refine ⟨actions, htrace, ?_, ?_⟩
  · exact List.filterMap_eq_nil_iff.mpr fun a ha => (hall a ha).empty.1
  · have hsent : sent actions = [] :=
      List.filterMap_eq_nil_iff.mpr fun a ha => (hall a ha).empty.2.1
    have hqueued : queued actions = [] :=
      List.flatMap_eq_nil_iff.mpr fun a ha => (hall a ha).empty.2.2
    rw [hsent, hqueued, hout, List.append_nil]
    rfl

theorem Logs.record {c : Client} {a : Action} (h : Silent a) : Logs [] c (c.record a) :=
  .of_silent (Adds.record rfl h) rfl

theorem handleRequestBodyDone_logs (c : Client) : Logs [] c (handleRequestBodyDone c).2 := by
  have hdone : Adds Silent c (c.record (.bodyDone c.getRequest.method c.getRequest.uri
      c.getRequest.headers c.bodyStream)) := Adds.record rfl trivial
  unfold handleRequestBodyDone
  dsimp only
  split
  · exact .of_silent hdone rfl
  · split
    · have hdelete : ∀ d : Client, Adds Silent d (handleDeleteMethod d) :=
        fun d => Adds.record rfl trivial
      exact .of_silent ((hdone.trans (hdelete _)).trans (Adds.of_eq rfl)) rfl
    · exact .of_silent hdone rfl

/-- The code of a complete request is that of a final answer. -/
theorem handleRequestBodyDone_code {c : Client} (hupload : UploadStatus c.getRequest)
    (hstatus : c.getRequest.resHints.status ≠ RES_CONTINUE) :
    0 < (handleRequestBodyDone c).1 ∧ (handleRequestBodyDone c).1 ≠ RES_CONTINUE := by
  unfold handleRequestBodyDone
  dsimp only
  split
  · rename_i hput
    dsimp only
    split
    · exact ⟨hupload hput, hstatus⟩
    · decide
  · split
    · exact ⟨(by decide : (0 : ℤ) < 204), (by decide : (204 : ℤ) ≠ 100)⟩
    · exact ⟨(by decide : (0 : ℤ) < 200), (by decide : (200 : ℤ) ≠ 100)⟩

theorem releases_silent {v : View} {a : Action} (h : Releases v a) : Silent a := by
  rcases h with ⟨path, rfl⟩ | ⟨name, -, rfl⟩
  · trivial
  · trivial

theorem deleteCGIProcess_logs (c : Client) : Logs [] c c.deleteCGIProcess := by
  refine .of_silent ((deleteCGIProcess_adds c).mono fun a => releases_silent) ?_
  unfold Client.deleteCGIProcess
  split
  · rfl
  · rfl

theorem clear_outBuffers (c : Client) : c.clear.outBuffers = c.outBuffers ∧
    c.clear.buffer = c.buffer := by
  have hstream : c.deleteBodyStream.outBuffers = c.outBuffers ∧
      c.deleteBodyStream.buffer = c.buffer := by
    unfold Client.deleteBodyStream
    split
    · exact ⟨rfl, rfl⟩
    · dsimp only
      split
      · exact ⟨rfl, rfl⟩
      · exact ⟨rfl, rfl⟩
  have hprocess : c.deleteBodyStream.deleteCGIProcess.outBuffers =
        c.deleteBodyStream.outBuffers ∧
      c.deleteBodyStream.deleteCGIProcess.buffer = c.deleteBodyStream.buffer := by
    unfold Client.deleteCGIProcess
    split
    · exact ⟨rfl, rfl⟩
    · exact ⟨rfl, rfl⟩
  exact ⟨hprocess.1.trans hstream.1, hprocess.2.trans hstream.2⟩

theorem clear_logs (c : Client) : Logs [] c c.clear :=
  .of_silent ((clear_adds c).mono fun _ => releases_silent) (clear_outBuffers c).1

theorem terminate_logs (c : Client) : Logs [] c c.terminate := by
  have hcleared : Logs [] c { c.clear with alive := false } :=
    (clear_logs c).silent (.of_eq rfl rfl)
  exact hcleared.silent (.record trivial)

/-- The checks up to those of the host write to the host, the request and the body status. -/
structure CheckedOnly (c d : Client) : Prop where
  checking : Checking c d
  rest : d = { c with host := d.host, request := d.request, bodyStatus := d.bodyStatus }

theorem CheckedOnly.trans {c d e : Client} (h : CheckedOnly c d) (h' : CheckedOnly d e) :
    CheckedOnly c e where
  checking := h.checking.trans h'.checking
  rest := by
    rw [h'.rest, h.rest]

theorem onRequest_only {check : Request → Checked (ℤ × Request)} {c : Client}
    (h : Ends (onRequest check c) fun out => Checking c out.2 ∧ Verdict out.1) :
    Ends (onRequest check c) fun out => CheckedOnly c out.2 := by
  intro out hout
  refine ⟨(h out hout).1, ?_⟩
  unfold onRequest at hout
  obtain ⟨⟨res, r⟩, -, hr⟩ := bind_eq_ok_iff.mp hout
  cases hr
  rfl

theorem assignHost_only (c : Client) : CheckedOnly c (assignHost c).2 := by
  refine ⟨(assignHost_checking c).1, ?_⟩
  unfold assignHost
  dsimp only
  split
  · rfl
  · unfold Client.setHost
    split
    · rfl
    · rfl

theorem checkNewBody_only (c : Client) : CheckedOnly c (checkNewBody c).2 := by
  refine ⟨(checkNewBody_checking c).1, ?_⟩
  unfold checkNewBody
  split
  · unfold checkBodyLength
    dsimp only
    split
    · rfl
    · unfold announceBody
      dsimp only
      split
      · rfl
      · rfl
  · rfl

theorem andThen_only {c : Client} {first : Checked (ℤ × Client)}
    {next : Client → Checked (ℤ × Client)} (hfirst : Ends first fun out => CheckedOnly c out.2)
    (hnext : ∀ d, Ends (next d) fun out => CheckedOnly d out.2) :
    Ends (andThen first next) fun out => CheckedOnly c out.2 := by
  refine Ends.andThen (I := CheckedOnly c) (hfirst.mono fun out h => ⟨fun _ => h, fun _ => h⟩) ?_
  intro d hd
  exact (hnext d).mono fun out hout => hd.trans hout

theorem throughHost_only (env : Env) (c : Client) :
    Ends (throughHost env c) fun out => CheckedOnly c out.2 := by
  refine andThen_only (ends_ok.mpr (assignHost_only c)) fun c => ?_
  refine andThen_only (onRequest_only (onRequest_checking c (parseURI_same _))) fun c => ?_
  refine andThen_only (onRequest_only
    (onRequest_checking c (ends_ok.mpr (checkForbiddenHeaders_same _)))) fun c => ?_
  refine andThen_only (ends_ok.mpr (checkNewBody_only c)) fun c => ?_
  exact onRequest_only (checkRequest_checking c _ _)

/-- The last check of a host writes its code into the hints. -/
theorem throughHost_status (env : Env) {c d : Client} (h : throughHost env c = .ok (0, d)) :
    d.getRequest.resHints.status = 0 := by
  have hexists : ∀ fs (r s : Request), Host.checkRessourceExistence fs r = (0, s) →
      s.resHints.status = 0 := by
    intro fs r s hs
    unfold Host.checkRessourceExistence at hs
    split at hs
    · obtain ⟨hcode, hnoted⟩ := Prod.mk.inj hs
      rw [← hnoted]
      exact hcode
    · split at hs
      · obtain ⟨hcode, hnoted⟩ := Prod.mk.inj hs
        rw [← hnoted]
        exact hcode
      · obtain ⟨hcode, hnoted⟩ := Prod.mk.inj hs
        rw [← hnoted]
        exact hcode
  unfold throughHost Host.checkRequest at h
  simp only [andThen_ok_iff, ne_eq, not_true_eq_false, and_false, false_or, onRequest_ok_iff,
    Except.ok.injEq] at h
  obtain ⟨c₁, -, c₂, -, c₃, -, c₄, -, r, ⟨r₁, -, r₂, -, r₃, -, r₄, -, r₅, -, hr⟩, rfl⟩ := h
  exact hexists _ _ _ hr

/-- The statuses that are settled for the answer to an upload are not that of the answer 100. -/
theorem defineBodyParsing_status (env : Env) {c : Client}
    (h : c.getRequest.resHints.status ≠ RES_CONTINUE) :
    (defineBodyParsing env c).getRequest.resHints.status ≠ RES_CONTINUE := by
  have hfile : ∀ d : Client, d.getRequest.resHints.status ≠ RES_CONTINUE →
      ∀ path opens, (d.setBodyFile path opens).getRequest.resHints.status ≠ RES_CONTINUE := by
    intro d hd path opens
    unfold Client.setBodyFile
    dsimp only
    split
    · exact hd
    · exact hd
  have htype : ∀ d : Client, d.getRequest.resHints.status ≠ RES_CONTINUE →
      (keepContentType d).getRequest.resHints.status ≠ RES_CONTINUE := by
    intro d hd
    unfold keepContentType
    dsimp only
    split
    · exact hd
    · exact hd
  unfold defineBodyParsing
  dsimp only
  split
  · exact htype _ (hfile c h _ _)
  · split
    · split
      · rw [uploadTo_status]
        decide
      · split
        · exact (by decide : RES_FORBIDDEN ≠ RES_CONTINUE)
        · rw [uploadTo_status]
          decide
      · exact (by decide : RES_FORBIDDEN ≠ RES_CONTINUE)
    · exact htype _ (hfile c h _ _)

/-- What a client keeps while a request that waits for no answer 100 is checked. -/
structure Unheard (c d : Client) : Prop where
  logs : Logs [] c d
  buffer : d.buffer = c.buffer

theorem acceptHeaders_unheard (env : Env) {res : ℤ} (hres : res ≠ RES_CONTINUE) (c : Client) :
    Unheard c (acceptHeaders env res c).2 := by
  have hopens : Adds Silent c (if c.getRequest.resHints.cgiRedir = .none then
        defineBodyParsing env c else c) ∧
      (if c.getRequest.resHints.cgiRedir = .none then defineBodyParsing env c else c).outBuffers =
        c.outBuffers ∧
      (if c.getRequest.resHints.cgiRedir = .none then defineBodyParsing env c else c).buffer =
        c.buffer := by
    split
    · obtain ⟨-, -, ⟨opens, htrace, hall⟩, -, -, hbuffer, hout⟩ :=
        (defineBodyParsing_defined env c).1
      refine ⟨⟨opens, htrace, ?_⟩, hout, hbuffer⟩
      intro a ha
      obtain ⟨path, rfl⟩ := hall a ha
      trivial
    · exact ⟨Adds.of_eq rfl, rfl, rfl⟩
  unfold acceptHeaders
  dsimp only
  rw [if_neg hres]
  obtain ⟨hadds, hout, hbuffer⟩ := hopens
  exact ⟨.of_silent (hadds.trans (Adds.of_eq rfl)) hout, hbuffer⟩

theorem finishHeaders_unheard (env : Env) {c : Client} (h : (view c).expect ≠ CONTINUE) :
    Unheard c (finishHeaders env c).2 := by
  have hget : ¬ c.getRequest.getHeader (ascii "expect") = ascii "100-continue" := h
  unfold finishHeaders checkContinue
  dsimp only
  rw [if_neg hget]
  split
  · dsimp only
    rw [if_pos (by decide)]
    exact ⟨.of_eq rfl rfl, rfl⟩
  · dsimp only
    rw [if_neg (fun hrefused => hrefused.1 rfl)]
    exact acceptHeaders_unheard env (by decide) c

theorem acceptHeaders_status (env : Env) {c : Client} (res : ℤ)
    (h : c.getRequest.resHints.status ≠ RES_CONTINUE) :
    (acceptHeaders env res c).2.getRequest.resHints.status ≠ RES_CONTINUE := by
  have hdefined : (if c.getRequest.resHints.cgiRedir = .none then defineBodyParsing env c
      else c).getRequest.resHints.status ≠ RES_CONTINUE := by
    split
    · exact defineBodyParsing_status env h
    · exact h
  unfold acceptHeaders
  dsimp only
  split
  · exact hdefined
  · exact hdefined

/-- An accepted request has a status that is not that of the answer 100. -/
theorem handleRequestHeaders_status (env : Env) {c d : Client}
    (h : handleRequestHeaders env c = .ok (0, d)) :
    d.getRequest.resHints.status ≠ RES_CONTINUE := by
  rw [handleRequestHeaders_eq] at h
  simp only [andThen_ok_iff, ne_eq, not_true_eq_false, and_false, false_or, Except.ok.injEq] at h
  obtain ⟨e, hthrough, hfinish⟩ := h
  have hstatus : e.getRequest.resHints.status ≠ RES_CONTINUE := by
    rw [throughHost_status env hthrough]
    decide
  have haccept := finishHeaders_accepted env (congrArg Prod.fst hfinish)
  rw [hfinish] at haccept
  have hd := congrArg Prod.snd haccept
  dsimp only at hd
  rw [hd]
  exact acceptHeaders_status env _ hstatus

theorem handleRequestHeaders_unheard (env : Env) {c : Client} (h : (view c).expect ≠ CONTINUE) :
    Ends (handleRequestHeaders env c) fun out => Unheard c out.2 := by
  rw [handleRequestHeaders_eq]
  have honly : ∀ d, CheckedOnly c d → Unheard c d ∧ (view d).expect ≠ CONTINUE := by
    intro d hd
    obtain ⟨body, type, path, hview⟩ := hd.checking.settled
    refine ⟨⟨.of_eq hd.checking.trace_eq ?_, ?_⟩, ?_⟩
    · rw [hd.rest]
    · rw [hd.rest]
    · rw [hview]
      exact h
  refine Ends.andThen (I := CheckedOnly c) ?_ ?_
  · intro out hout
    have hd := throughHost_only env c out hout
    exact ⟨fun _ => hd, fun _ => (honly out.2 hd).1⟩
  · intro d hd
    obtain ⟨hunheard, hexpect⟩ := honly d hd
    have hfinish := finishHeaders_unheard env hexpect
    exact ends_ok.mpr ⟨hunheard.logs.silent hfinish.logs, hfinish.buffer.trans hunheard.buffer⟩

theorem tryResponse_logs {env : Env} {c d : Client} {status : ℤ} {made : Bool}
    (h : tryResponse env c status = (made, d)) :
    Logs (if made then [statusOf c status] else []) c d := by
  obtain ⟨r, hints, -, -, -, -, hcases⟩ := tryResponse_eq env c status
  rcases hcases with ⟨-, response, buffers, connection, origin, hstatus, hout⟩ | ⟨-, hout⟩
  · rw [h] at hout
    obtain ⟨rfl, rfl⟩ := Prod.mk.inj hout
    refine ⟨[.responded response.getStatus connection buffers origin], rfl, ?_, ?_⟩
    · show [response.getStatus] = [statusOf c status]
      rw [hstatus]
    · show c.outBuffers ++ buffers = c.outBuffers ++ (buffers ++ [])
      rw [List.append_nil]
  · rw [h] at hout
    obtain ⟨rfl, rfl⟩ := Prod.mk.inj hout
    exact .of_eq rfl rfl

/-- Where no response is owed, one is made. -/
theorem generateResponse_logs (env : Env) {c : Client} (status : ℤ) (hnone : c.response = none) :
    ∃ final d, generateResponse env c status = (0, d) ∧ Responds c final d ∧
      (final = statusOf c status ∨ final = RES_INTERNAL_ERROR) ∧ Logs [final] c d := by
  rcases generateResponse_cases env c status with ⟨hsome, -⟩ | ⟨-, final, d, hout, hresponds, hmade⟩
  · rw [hnone] at hsome
    cases hsome
  · have hfinal : final = statusOf c status ∨ final = RES_INTERNAL_ERROR :=
      hmade.imp (fun h => h.2) fun h => h.1
    have hsame : ∀ {b e : Client} {final' : ℤ}, Responds b final' e →
        generateResponse env c status = (0, e) → e = d ∧ final' = final := by
      intro b e final' hresponds' hout'
      rw [hout] at hout'
      obtain ⟨-, rfl⟩ := Prod.mk.inj hout'
      obtain ⟨path, connection, hview, -⟩ := hresponds.settled
      obtain ⟨path', connection', hview', -⟩ := hresponds'.settled
      rw [hview] at hview'
      exact ⟨rfl, (Option.some.inj (congrArg View.response hview')).symm⟩
    refine ⟨final, d, hout, hresponds, hfinal, ?_⟩
    rcases generateResponse_tries env status hnone with ⟨e, hfirst, hout'⟩ |
      ⟨e, e', hfirst, hsecond, hout'⟩
    · obtain ⟨rfl, hstatus⟩ := hsame (tryResponse_responds env hfirst).1 hout'
      have hlogs := tryResponse_logs hfirst
      rwa [if_pos rfl, hstatus] at hlogs
    · obtain ⟨rfl, hstatus⟩ := hsame (tryResponse_responds env hsecond).1 hout'
      have hfailed : Logs [] c e.clearResponse :=
        (tryResponse_logs hfirst).silent (.of_eq rfl rfl)
      have hlogs := hfailed.trans (tryResponse_logs hsecond)
      rwa [if_pos rfl, hstatus] at hlogs

theorem generateCGIProcess_logs (env : Env) (c : Client) :
    Logs [] c (generateCGIProcess env c).2 := by
  unfold generateCGIProcess execCGI
  dsimp only
  by_cases hpid : env.pid > 0
  · rw [if_pos hpid]
    have hspawned : Adds Silent c (c.record (.spawned (generateName none env.outputTime))) :=
      Adds.record rfl trivial
    exact .of_silent (hspawned.trans (Adds.of_eq rfl)) rfl
  · rw [if_neg hpid]
    dsimp only
    rw [if_pos (by decide)]
    exact (Logs.of_eq rfl rfl).silent (deleteCGIProcess_logs _)

/-- A write that takes the whole buffer. -/
theorem writeBuffer_logs {written : Bytes → ℤ} (hwhole : ∀ bytes, written bytes = bytes.length)
    (c : Client) : ∃ d, writeBuffer written c = some d ∧ Logs [] c d ∧ d.buffer = c.buffer ∧
      view d = view c := by
  unfold writeBuffer
  split
  · exact ⟨c, rfl, .of_eq rfl rfl, rfl, rfl⟩
  · rename_i front rest hqueue
    have hfits : ¬ written front < 0 := by
      rw [hwhole]
      omega
    rw [if_neg hfits]
    refine ⟨_, rfl, ⟨[.sent (front.take (written front).toNat)], rfl, rfl, ?_⟩, rfl, rfl⟩
    rw [hwhole, Int.toNat_natCast, List.take_length, hqueue]
    show front :: rest = front :: rest ++ []
    rw [List.append_nil]

theorem handleClientOut_logs {written : Bytes → ℤ} (hwhole : ∀ bytes, written bytes = bytes.length)
    (c : Client) : Logs [] c (handleClientOut written c).2 ∧
      (handleClientOut written c).2.buffer = c.buffer := by
  obtain ⟨d, hd, hlogs, hbuffer, -⟩ := writeBuffer_logs hwhole c
  have hafter : Logs [] d (afterWrite d).2 ∧ (afterWrite d).2.buffer = d.buffer := by
    unfold afterWrite
    split
    · exact ⟨.of_eq rfl rfl, rfl⟩
    · split
      · exact ⟨.of_eq rfl rfl, rfl⟩
      · split
        · exact ⟨.of_eq rfl rfl, rfl⟩
        · exact ⟨.of_eq rfl rfl, rfl⟩
  unfold handleClientOut
  rw [hd]
  exact ⟨hlogs.silent hafter.1, hafter.2.trans hbuffer⟩

/-- The answer 100 is written further, or all of it is out. -/
theorem handleClientOut_continuing {written : Bytes → ℤ}
    (hwhole : ∀ bytes, written bytes = bytes.length) {c : Client}
    (hresponse : (view c).response = some RES_CONTINUE) (hexpect : (view c).expect = CONTINUE) :
    (handleClientOut written c).1 = .pending ∨ (handleClientOut written c).1 = .continue := by
  obtain ⟨d, hd, -, -, hview⟩ := writeBuffer_logs hwhole c
  rw [← hview] at hresponse hexpect
  have hget : d.getRequest.getHeader (ascii "expect") = ascii "100-continue" := hexpect
  have hstatus : d.response.map Response.getStatus = some RES_CONTINUE := hresponse
  unfold handleClientOut afterWrite
  rw [hd]
  dsimp only
  rw [if_pos (⟨hget, hstatus⟩ : _ ∧ _)]
  split
  · exact Or.inl rfl
  · exact Or.inr rfl

/-- What the headers of a process decide on for its document. -/
theorem parseCgiHeaders_status (fs : FileSystem) (r : Request) :
    Ends (r.parseCgiHeaders fs) fun out => out.1 = .doc ∨ out.1 = .clientRedirect →
      out.2.resHints.status ≠ RES_CONTINUE := by
  unfold Request.parseCgiHeaders
  dsimp only
  refine Ends.bind_any ?_
  intro out
  obtain ⟨res, p⟩ := out
  dsimp only
  split
  · refine ends_pure.mpr ?_
    intro h
    rcases h with h | h
    · cases h
    · cases h
  · refine ends_pure.mpr ?_
    unfold Request.inspectHeaders
    dsimp only
    split
    · intro h
      rcases h with h | h
      · cases h
      · cases h
    · split
      · intro _
        unfold Request.retrieveType
        split
        · exact (by decide : (302 : ℤ) ≠ 100)
        · exact (by decide : (302 : ℤ) ≠ 100)
      · split
        · intro h
          rcases h with h | h
          · cases h
          · cases h
        · split
          · exact fun _ => (by decide : (500 : ℤ) ≠ 100)
          · intro _
            unfold Request.retrieveType
            split
            · exact (by decide : (200 : ℤ) ≠ 100)
            · exact (by decide : (200 : ℤ) ≠ 100)

end Webserveau.AnswerLogs
