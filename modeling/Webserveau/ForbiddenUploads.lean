import Webserveau.BodyEvents

/-!
The answer to an upload whose target cannot be written.
The body comes in with any segmentation, the answer 100 being written in between when the
client waits for it. The final answer is 403 exactly when a body of a size above 0 is left
to be read once the answer 100 is made, and the page of the status can be served.
-/
namespace Webserveau.ForbiddenUploads

open ByteStrings OrderedMaps Formats Requests Clients EventLoop Checks Segmentation HeadSafety
  ParserFrames Transitions Intake Replies BodySegmentation Acceptance BodyIntake ContentLength
  LoopSteps LoopInvariants ChunkedSizes UploadChecks BodyShapes RefusedUploads
  BodyEvents

/-- Where an upload to a host is stored. -/
def uploadPath (r : Request) : Bytes :=
  r.resHints.locationRules.elim [] Host.uploadRoot ++ r.resHints.parsedUri.path

/-- Something is there that is no regular file, or a file that must not be written. -/
def Forbidden (fs : FileSystem) (path : Bytes) : Prop :=
  ∃ kind size, fs.stat path = some (kind, size) ∧ (kind = .regular → fs.writable path = false)

/-- A client whose head is complete; its host accepts the request as an upload to a target
that cannot be written, and `d` is the client then. -/
structure ForbiddenUpload (env : Env) (r : Request) (c d : Client) : Prop where
  request : c.request = some r
  stream : c.bodyStream = none
  process : c.cgiProcess = none
  response : c.response = none
  mode : c.mode = .read
  alive : c.alive = true
  accepted : throughHost env { c with bodyStatus := .none } = .ok (0, d)
  type : d.getRequest.type = .static
  method : d.getRequest.method = some .POST ∨ d.getRequest.method = some .PUT
  forbidden : Forbidden env.upload (uploadPath d.getRequest)

/-- What follows once a head is complete. -/
def takeUp (env : Env) (c : Client) : Checked Client := do
  let out ← andThen (checkHeaders env c) startBody
  return (respondTo env out).2

/-- No response but the answer 100 is owed. -/
def Unanswered (c : Client) : Prop :=
  (view c).response = none ∨ (view c).response = some RES_CONTINUE

/-- The run of an exchange up to its answer, with the bytes that each event has brought and
the environment of the last one. -/
inductive Fed (shape : Shape) (env : Env) (c : Client) : List Bytes → Env → Client → Prop
  | taken {x : Client} : takeUp env c = .ok x → Fed shape env c [c.buffer] env x
  | step {reads : List Bytes} {e : Env} {x y : Client} {event : Event} :
      Fed shape env c reads e x → ¬ shape.Begins reads.flatten → Unanswered x → Calm event →
      step x event = .ok y → Fed shape env c (reads ++ [arrived x event]) (envOf event) y

theorem defineBodyParsing_forbidden {env : Env} {d : Client} (htype : d.getRequest.type = .static)
    (hmethod : d.getRequest.method = some .POST ∨ d.getRequest.method = some .PUT)
    (h : Forbidden env.upload (uploadPath d.getRequest)) :
    defineBodyParsing env d = d.setRequest (d.getRequest.setHintStatus RES_FORBIDDEN) := by
  obtain ⟨kind, size, hstat, hwritable⟩ := h
  have hnot : ¬ d.getRequest.type = .cgi := by
    rw [htype]
    exact ReqType.noConfusion
  unfold uploadPath at hstat hwritable
  unfold defineBodyParsing
  dsimp only
  rw [if_neg hnot, if_pos ⟨htype, hmethod⟩, hstat]
  cases kind with
  | regular =>
    dsimp only
    rw [if_pos (hwritable rfl)]
  | directory => rfl
  | other => rfl

/-- The client in front of the body, before the answer 100 is made. -/
def noted (d : Client) : Client :=
  { d.setRequest (d.getRequest.setHintStatus RES_FORBIDDEN) with headerStatus := .done }

/-- The end of the checks of such an upload, by what the client expects. -/
inductive Finished (d : Client) : ℤ × Client → Prop
  | plain : (view d).expect = [] → Finished d (0, noted d)
  | continuing : (view d).expect = CONTINUE → d.bodyStatus ≠ .none →
      Finished d (0, generateContinueResponse (noted d))
  | refused {res : ℤ} {r : Request} : (view d).expect ≠ [] →
      ((view d).expect = CONTINUE → d.bodyStatus = .none) →
      res = RES_BAD_REQUEST ∨ res = RES_EXPECTATION_FAILED → r.type = d.getRequest.type →
      Finished d (res, d.setRequest r)

theorem finishHeaders_forbidden {env : Env} {d : Client} (htype : d.getRequest.type = .static)
    (hmethod : d.getRequest.method = some .POST ∨ d.getRequest.method = some .PUT)
    (hredir : d.getRequest.resHints.cgiRedir = .none)
    (h : Forbidden env.upload (uploadPath d.getRequest)) :
    Finished d (finishHeaders env d) := by
  have hdefine := defineBodyParsing_forbidden htype hmethod h
  unfold finishHeaders checkContinue
  dsimp only
  by_cases hcontinue : (view d).expect = CONTINUE
  · have hget : d.getRequest.getHeader (ascii "expect") = ascii "100-continue" := hcontinue
    rw [if_pos hget]
    by_cases hbody : d.bodyStatus = .none
    · rw [if_pos hbody]
      refine .refused ?_ (fun _ => hbody) (Or.inl rfl) rfl
      rw [hcontinue]
      decide
    · rw [if_neg hbody]
      dsimp only
      rw [if_neg (fun h => h.2 rfl)]
      unfold acceptHeaders
      dsimp only
      rw [if_pos hredir, hdefine, if_pos rfl]
      exact .continuing hcontinue hbody
  · have hget : ¬ d.getRequest.getHeader (ascii "expect") = ascii "100-continue" := hcontinue
    rw [if_neg hget]
    by_cases hempty : (view d).expect = []
    · have hnone : ¬ d.getRequest.getHeader (ascii "expect") ≠ [] := not_not_intro hempty
      rw [if_neg hnone]
      dsimp only
      rw [if_neg (fun h => h.1 rfl)]
      unfold acceptHeaders
      dsimp only
      rw [if_pos hredir, hdefine, if_neg (by decide)]
      exact .plain hempty
    · have hsome : d.getRequest.getHeader (ascii "expect") ≠ [] := hempty
      rw [if_pos hsome]
      exact .refused hempty (fun h => absurd h hcontinue) (Or.inr rfl) rfl

section Runs

variable (limit : ℤ) (shape : Shape) (q : Request) (c d : Client)

/-- The client does not wait for the answer 100, or part of the body is still to be read
when that answer is made. -/
def Continued : Prop :=
  (view d).expect = [] ∨
    (view d).expect = CONTINUE ∧ shape.codeAfter limit c.buffer.length = 0

/-- Where the reads first end with an answer of the parser. -/
def stopsAt (reads : List Bytes) : Option ℕ :=
  (ends 0 reads).find? fun n => shape.codeAfter limit n ≠ 0

/-- The stages of the exchange. -/
inductive Stage : List Bytes → Env → Client → Prop
  | waiting {reads : List Bytes} {e : Env} {x : Client} : Continued limit shape c d →
      Reading x → Proceeds x → x.buffer = [] → Stands q reads.flatten x →
      errorPages x = errorPages d → Adds NoFile c x → shape ≠ .empty →
      (∀ n ∈ ends 0 reads, shape.codeAfter limit n = 0) →
      shape.codeAfter limit reads.flatten.length = 0 → Stage reads e x
  | answered {reads : List Bytes} {e : Env} {x : Client} {n : ℕ} {final : ℤ} :
      Continued limit shape c d → stopsAt limit shape reads = some n → x.alive = true →
      (view x).response = some final → final ≠ RES_CONTINUE →
      (final = RES_FORBIDDEN ↔ (shape.codeAfter limit n = -1 ∧ 0 < shape.sizeAfter n) ∧
        PageServed e.served d) →
      (final = RES_FORBIDDEN → Closing x) → Adds NoFile c x → Stage reads e x
  | refused {reads : List Bytes} {e : Env} {x : Client} {final : ℤ} :
      ¬ Continued limit shape c d → x.alive = true → (view x).response = some final →
      final ≠ RES_CONTINUE → final ≠ RES_FORBIDDEN → Stage reads e x
  | lost {reads : List Bytes} {e : Env} {x : Client} : ¬ Continued limit shape c d →
      x.alive = true → Unanswered x → shape.Begins reads.flatten ∨
        Reading x ∧ Proceeds x ∧ x.getRequest.final_status = .error → Stage reads e x

end Runs

theorem reading_between {c d : Client} (h : Reading c) (hbetween : Between c d) : Reading d := by
  obtain ⟨headers, hrequest⟩ := hbetween.request
  refine ⟨hbetween.header.trans h.header, hbetween.body.trans h.body,
    hbetween.stream.trans h.stream, hbetween.process.trans h.process,
    hbetween.alive.trans h.alive, ?_⟩
  rw [hrequest]
  exact h.type

theorem reading_alike {c d : Client} (h : Reading c) (halike : Alike c d)
    (hbody : d.bodyStatus = .ongoing) : Reading d :=
  ⟨halike.header.trans h.header, hbody, halike.stream, halike.process.trans h.process,
    halike.alive.trans h.alive, halike.type.trans h.type⟩

theorem proceeds_alike {c d : Client} (h : Proceeds c) (halike : Alike c d)
    (hexpect : (view d).expect = (view c).expect) : Proceeds d := by
  cases h with
  | reading hmode hresponse =>
    exact .reading (halike.mode.trans hmode) (halike.response.trans hresponse)
  | continuing hmode hresponse hcontinue =>
    refine .continuing (halike.mode.trans hmode) ?_ (hexpect.trans hcontinue)
    show d.response.map Response.getStatus = _
    rw [halike.response]
    exact hresponse

theorem proceeds_unanswered {c : Client} (h : Proceeds c) : Unanswered c := by
  cases h with
  | reading _ hresponse =>
    refine Or.inl ?_
    show c.response.map Response.getStatus = none
    rw [hresponse]
    rfl
  | continuing _ hresponse => exact Or.inr hresponse

theorem ends_snoc (reads : List Bytes) (bytes : Bytes) :
    ends 0 (reads ++ [bytes]) = ends 0 reads ++ [(reads ++ [bytes]).flatten.length] := by
  rw [ends_append]
  simp [ends]

theorem stopsAt_snoc {limit : ℤ} {shape : Shape} {reads : List Bytes} {bytes : Bytes}
    (hzeros : ∀ n ∈ ends 0 reads, shape.codeAfter limit n = 0)
    (hlast : shape.codeAfter limit (reads ++ [bytes]).flatten.length ≠ 0) :
    stopsAt limit shape (reads ++ [bytes]) = some (reads ++ [bytes]).flatten.length := by
  unfold stopsAt
  rw [ends_snoc, List.find?_append]
  have hnone : (ends 0 reads).find? (fun n => shape.codeAfter limit n ≠ 0) = none := by
    rw [List.find?_eq_none]
    intro n hn
    simp [hzeros n hn]
  rw [hnone, Option.none_or]
  simp only [List.find?_cons, hlast, ne_eq, not_false_eq_true, decide_true]

/-- An answer that is made once the body has ended. -/
theorem answered_of_ends {limit : ℤ} {shape : Shape} {env : Env} {y : Client} {n : ℕ}
    (hheader : y.headerStatus = .done) (hprocess : y.cgiProcess = none) (halive : y.alive = true)
    (htype : y.getRequest.type = .static) (hnone : y.response = none)
    (hcode : shape.codeAfter limit n ≠ 0)
    (hdone : shape.codeAfter limit n = -1 → y.bodyStatus ≠ .ongoing) :
    ∃ final z, respondTo env (verdict shape limit n, y) = (0, z) ∧ z.alive = true ∧
      (view z).response = some final ∧ final ≠ RES_CONTINUE ∧
      (final = RES_FORBIDDEN ↔ (shape.codeAfter limit n = -1 ∧ 0 < shape.sizeAfter n) ∧
        PageServed env.served y) ∧
      (final = RES_FORBIDDEN → Closing z) ∧ Adds NoFile y z := by
  have hrange := verdict_range shape limit hcode
  obtain ⟨final, z, hanswer, ⟨⟨path, connection, hview, hclose⟩, hadds, hkept⟩, hfinal, hiff⟩ :=
    respondTo_answers env (by omega : 0 < verdict shape limit n) htype hnone
  rw [verdict_forbidden_iff] at hiff
  refine ⟨final, z, hanswer, hkept.trans halive, ?_, ?_, hiff, ?_, noFile_of_quiet hadds⟩
  · rw [hview]
  · rcases hfinal with hfinal | hfinal
    · intro hcontinue
      have hhundred : final = 100 := hcontinue
      omega
    · rw [hfinal]
      decide
  · intro hforbidden
    have hbody : (view y).body ≠ .ongoing := hdone (hiff.mp hforbidden).1.1
    have hcgi : (view y).cgi = none := by
      show y.cgiProcess.map CGIProcess.output = none
      rw [hprocess]
      rfl
    rw [hforbidden] at hview
    refine ⟨?_, ?_, ?_, ?_, ?_, ?_⟩
    · rw [hview]
    · rw [hview]
      exact hheader
    · rw [hview]
      exact hbody
    · rw [hview]
      exact hcgi
    · rw [hview]
    · rw [hview]
      exact hclose (by rw [hforbidden]; decide)

/-- A body that is left in the error status takes in bytes without an answer. -/
theorem takeIn_stuck {c : Client} (h : Reading c) (herror : c.getRequest.final_status = .error)
    (bytes : Bytes) :
    takeIn c bytes = .ok (0, taken c (c.getRequest, none) (c.buffer ++ bytes) .ongoing) := by
  rw [takeIn_eq h (parseInput_stuck herror none (c.buffer ++ bytes))]
  rw [if_neg (Int.lt_irrefl 0)]
  unfold finishBody
  rw [if_neg (fun hclosed => hclosed.2 rfl)]

section Steps

variable {limit : ℤ} {shape : Shape} {q : Request} {c d : Client} {sent : Bytes}

/-- One more event of the exchange. -/
theorem Stage.step (hq : Before limit shape q)
    (hmethod : q.method = some .POST ∨ q.method = some .PUT) (htype : q.type = .static)
    (hstatus : q.resHints.status = RES_FORBIDDEN) (hsent : shape.Begins sent)
    {reads : List Bytes} {e : Env} {x y : Client} {event : Event}
    (h : Stage limit shape q c d reads e x) (hopen : ¬ shape.Begins reads.flatten)
    (hunanswered : Unanswered x) (hcalm : Calm event) (hstep : EventLoop.step x event = .ok y)
    (hreads : (reads ++ [arrived x event]).flatten <+: sent) :
    Stage limit shape q c d (reads ++ [arrived x event]) (envOf event) y := by
  have hflat : (reads ++ [arrived x event]).flatten = reads.flatten ++ arrived x event := by
    rw [List.flatten_append, List.flatten_cons, List.flatten_nil, List.append_nil]
  cases h with
  | waiting hcontinued hreading hproceeds hbuffer hstands hpages hadds hshape hzeros hlast =>
    rcases step_calm hreading hproceeds hcalm hstep with ⟨hnil, hbetween, hproceeds'⟩ |
      ⟨-, hmode, hresponse, out, hout, hy⟩
    · rw [hnil] at hflat ⊢
      rw [List.append_nil] at hflat
      obtain ⟨headers, hrequest⟩ := hbetween.request
      refine .waiting hcontinued (reading_between hreading hbetween) hproceeds'
        (hbetween.buffer.trans hbuffer) ?_ (hbetween.pages.trans hpages)
        (hadds.trans hbetween.adds) hshape ?_ ?_
      · rw [hflat]
        exact hstands.of_headers (hq.receiving hshape) headers hrequest
      · intro n hn
        rw [ends_snoc, List.mem_append, List.mem_singleton] at hn
        rcases hn with hn | hn
        · exact hzeros n hn
        · rw [hn, hflat]
          exact hlast
      · rw [hflat]
        exact hlast
    · have htotal : reads.flatten ++ (x.buffer ++ arrived x event) =
          (reads ++ [arrived x event]).flatten := by
        rw [hbuffer, List.nil_append, hflat]
      obtain ⟨out', hout', houtcome⟩ := takeIn_outcome hq hshape hmethod htype hstatus hreading
        hstands hsent (by rw [htotal]; exact hreads)
      rw [hout', Except.ok.injEq] at hout
      subst hout
      rw [htotal] at houtcome
      cases houtcome with
      | waits hzero halike hbody hbuffer' hexpect hstands' hadds' =>
        rw [respondTo_zero] at hy
        have hy' := hy (Int.le_refl 0)
        subst hy'
        refine .waiting hcontinued (reading_alike hreading halike hbody)
          (proceeds_alike hproceeds halike hexpect) hbuffer' hstands' (halike.pages.trans hpages)
          (hadds.trans hadds') hshape ?_ hzero
        intro n hn
        rw [ends_snoc, List.mem_append, List.mem_singleton] at hn
        rcases hn with hn | hn
        · exact hzeros n hn
        · rw [hn]
          exact hzero
      | @ends z hcode halike hdone _ hadds' =>
        obtain ⟨final, w, hanswer, halive, hfinal, hcontinue, hiff, hclosing, hquiet⟩ :=
          @answered_of_ends _ _ (envOf event) _ _ (halike.header.trans hreading.header)
            (halike.process.trans hreading.process) (halike.alive.trans hreading.alive)
            (halike.type.trans hreading.type) (halike.response.trans hresponse) hcode
            (fun hend => by rw [hdone hend]; exact BodyStatus.noConfusion)
        rw [hanswer] at hy
        have hy' := hy (Int.le_refl 0)
        subst hy'
        have hserved : PageServed (envOf event).served z ↔ PageServed (envOf event).served d := by
          unfold PageServed forbiddenPage
          rw [halike.pages, hpages]
        rw [hserved] at hiff
        exact .answered hcontinued (stopsAt_snoc hzeros hcode) halive hfinal hcontinue hiff
          hclosing ((hadds.trans hadds').trans hquiet)
  | answered _ _ _ hfinal hcontinue =>
    rcases hunanswered with hnone | hsome
    · rw [hfinal] at hnone
      cases hnone
    · rw [hfinal, Option.some.injEq] at hsome
      exact absurd hsome hcontinue
  | refused _ _ hfinal hcontinue =>
    rcases hunanswered with hnone | hsome
    · rw [hfinal] at hnone
      cases hnone
    · rw [hfinal, Option.some.injEq] at hsome
      exact absurd hsome hcontinue
  | lost hlost halive _ hcases =>
    obtain ⟨hreading, hproceeds, herror⟩ := hcases.resolve_left hopen
    have hstuck : ∀ w : Client, Reading w → Proceeds w → w.getRequest.final_status = .error →
        Stage limit shape q c d (reads ++ [arrived x event]) (envOf event) w :=
      fun w hreading hproceeds herror => .lost hlost hreading.alive
        (proceeds_unanswered hproceeds) (Or.inr ⟨hreading, hproceeds, herror⟩)
    rcases step_calm hreading hproceeds hcalm hstep with ⟨-, hbetween, hproceeds'⟩ |
      ⟨-, hmode, hresponse, out, hout, hy⟩
    · obtain ⟨headers, hrequest⟩ := hbetween.request
      refine hstuck y (reading_between hreading hbetween) hproceeds' ?_
      rw [hrequest]
      exact herror
    · rw [takeIn_stuck hreading herror, Except.ok.injEq] at hout
      subst hout
      rw [respondTo_zero] at hy
      have hy' := hy (Int.le_refl 0)
      subst hy'
      exact hstuck _ ⟨hreading.header, rfl, rfl, hreading.process, hreading.alive, hreading.type⟩
        (.reading hmode hresponse) herror

/-- The body that came with the head, when one is announced. -/
theorem startBody_stage {env : Env} (hq : Before limit shape q) (hshape : shape ≠ .empty)
    (hmethod : q.method = some .POST ∨ q.method = some .PUT) (htype : q.type = .static)
    (hstatus : q.resHints.status = RES_FORBIDDEN) (hsent : shape.Begins sent)
    (hbuffer : c.buffer <+: sent) {s x : Client} (hreading : Reading s) (hproceeds : Proceeds s)
    (hrequest : s.getRequest = q) (hsame : s.buffer = c.buffer)
    (hpages : errorPages s = errorPages d) (hadds : Adds NoFile c s)
    (hexpect : (view s).expect = (view d).expect)
    (hplain : s.response = none → (view d).expect = [])
    (hx : (startBody s >>= fun out => .ok (respondTo env out).2) = .ok x) :
    Stage limit shape q c d [c.buffer] env x := by
  have hstands : Stands q [] s := by
    refine ⟨q.headers, ?_⟩
    rw [hrequest]
    exact standsFor_nil (hq.receiving hshape)
  have htotal : [] ++ (s.buffer ++ []) = c.buffer := by
    rw [List.nil_append, List.append_nil, hsame]
  have hflat : [c.buffer].flatten = c.buffer := by simp
  obtain ⟨out, hout, houtcome⟩ := takeIn_outcome hq hshape hmethod htype hstatus hreading hstands
    hsent (by rw [htotal]; exact hbuffer)
  rw [startBody_takeIn hreading, hout] at hx
  rw [htotal] at houtcome
  cases houtcome with
  | waits hzero halike hbody hempty hexpect' hstands' hadds' =>
    change Except.ok (respondTo env (0, _)).2 = _ at hx
    rw [respondTo_zero, Except.ok.injEq] at hx
    subst hx
    have hcontinued : Continued limit shape c d := by
      cases hproceeds with
      | reading _ hnone => exact Or.inl (hplain hnone)
      | continuing _ _ hcontinue => exact Or.inr ⟨hexpect.symm.trans hcontinue, hzero⟩
    refine .waiting hcontinued (reading_alike hreading halike hbody)
      (proceeds_alike hproceeds halike hexpect') hempty ?_ (halike.pages.trans hpages)
      (hadds.trans hadds') hshape ?_ ?_
    · rw [hflat]
      exact hstands'
    · intro n hn
      have hn' : n = c.buffer.length := by simpa [ends] using hn
      rw [hn']
      exact hzero
    · rw [hflat]
      exact hzero
  | @ends y hcode halike hdone herror hadds' =>
    change Except.ok (respondTo env (verdict shape limit c.buffer.length, y)).2 = _ at hx
    rw [Except.ok.injEq] at hx
    cases hproceeds with
    | reading hmode hnone =>
      obtain ⟨final, w, hanswer, halive, hfinal, hcontinue, hiff, hclosing, hquiet⟩ :=
        @answered_of_ends _ _ env _ _ (halike.header.trans hreading.header)
          (halike.process.trans hreading.process) (halike.alive.trans hreading.alive)
          (halike.type.trans hreading.type) (halike.response.trans hnone) hcode
          (fun hend => by rw [hdone hend]; exact BodyStatus.noConfusion)
      rw [hanswer] at hx
      subst hx
      have hserved : PageServed env.served y ↔ PageServed env.served d := by
        unfold PageServed forbiddenPage
        rw [halike.pages, hpages]
      rw [hserved] at hiff
      have hstop := @stopsAt_snoc limit shape [] c.buffer
        (by simp [ends]) (by rw [List.nil_append, hflat]; exact hcode)
      rw [List.nil_append, hflat] at hstop
      exact .answered (Or.inl (hplain hnone)) hstop halive hfinal hcontinue hiff hclosing
        ((hadds.trans hadds').trans hquiet)
    | continuing hmode hresponse hcontinue =>
      have hresponse' : (view y).response = some RES_CONTINUE := by
        show y.response.map Response.getStatus = _
        rw [halike.response]
        exact hresponse
      have howed : respondTo env (verdict shape limit c.buffer.length, y) = (0, y) := by
        have hrange := verdict_range shape limit hcode
        unfold respondTo handleClientResponse
        rw [if_pos (by dsimp only; omega), if_pos (Or.inl (by
          rw [halike.type, hreading.type]
          exact ReqType.noConfusion))]
        refine RefusedRequests.generateResponse_owed env _ ?_
        rw [hresponse']
        exact Option.some_ne_none _
      rw [howed] at hx
      subst hx
      have hlost : ¬ Continued limit shape c d := by
        intro hcontinued
        rcases hcontinued with hempty | ⟨-, hzero⟩
        · rw [hexpect, hempty] at hcontinue
          revert hcontinue
          decide
        · exact hcode hzero
      refine .lost hlost (halike.alive.trans hreading.alive) (Or.inr hresponse') ?_
      by_cases hend : shape.codeAfter limit c.buffer.length = -1
      · rw [hflat]
        exact Or.inl ((codeAfter_eq_iff limit hbuffer hsent).mp hend)
      · obtain ⟨hbody, hfinal, hexpect'⟩ := herror hend
        exact Or.inr ⟨reading_alike hreading halike hbody,
          proceeds_alike (.continuing hmode hresponse hcontinue) halike hexpect', hfinal⟩

theorem codeAfter_empty (limit : ℤ) (n : ℕ) : Shape.codeAfter limit .empty n ≠ 0 := by
  show (-1 : ℤ) ≠ 0
  decide

/-- The exchange once the head is taken up. -/
theorem takeUp_stage {env : Env} {r : Request} (h : ForbiddenUpload env r c d)
    (hpassed : Passed { c with bodyStatus := .none } d)
    (hbefore : Before limit shape d.getRequest) (hbody : d.bodyStatus = shape.bodyStatus)
    (hsent : shape.Begins sent) (hbuffer : c.buffer <+: sent) {x : Client}
    (hx : takeUp env c = .ok x) :
    Stage limit shape (d.getRequest.setHintStatus RES_FORBIDDEN) c d [c.buffer] env x := by
  have hd : d.response = none ∧ d.mode = .read ∧ d.alive = true ∧ d.cgiProcess = none ∧
      d.bodyStream = none ∧ d.buffer = c.buffer ∧ d.trace = c.trace := by
    rw [hpassed.rest]
    exact ⟨h.response, h.mode, h.alive, h.process, h.stream, rfl, rfl⟩
  obtain ⟨hresponse, hmode, halive, hprocess, hstream, hbuffer', htrace⟩ := hd
  have hq : Before limit shape (d.getRequest.setHintStatus RES_FORBIDDEN) :=
    hbefore.of_hints d.getRequest.headers { d.getRequest.resHints with status := RES_FORBIDDEN }
  have hfinished := finishHeaders_forbidden h.type h.method hpassed.redir h.forbidden
  unfold takeUp at hx
  rw [checkHeaders_eq env h.accepted] at hx
  have hchecked : ∀ s : Client, s.trace = d.trace → Adds NoFile c (s.record (.checked 0)) :=
    fun s hs => Adds.record (hs.trans htrace) (by intro path h; cases h)
  generalize finishHeaders env d = out at hfinished hx
  cases hfinished with
  | plain hexpect =>
    change (startBody ((noted d).record (.checked 0)) >>= fun out =>
      .ok (respondTo env out).2) = .ok x at hx
    by_cases hshape : shape = .empty
    · subst hshape
      have hsize : ((noted d).record (.checked 0)).getRequest.getBodySize = -1 := by
        cases hq with
        | empty hplain hlength =>
          show (if d.getRequest.chunked = true then d.getRequest.chunked_body_size
            else d.getRequest.content_length) = -1
          rw [if_neg (by rw [show d.getRequest.chunked = false from hplain]; exact
            Bool.noConfusion)]
          exact hlength
      have hend : handleRequestBodyDone ((noted d).record (.checked 0)) =
          (verdict .empty limit c.buffer.length, ((noted d).record (.checked 0)).record
            (.bodyDone d.getRequest.method d.getRequest.uri d.getRequest.headers none)) := by
        unfold handleRequestBodyDone
        dsimp only
        rw [if_pos ⟨by exact h.type, by exact h.method⟩, hsize, if_neg (by decide)]
        show (RES_NO_CONTENT, ((noted d).record (.checked 0)).record
          (.bodyDone d.getRequest.method d.getRequest.uri d.getRequest.headers d.bodyStream)) = _
        rw [hstream]
        rfl
      rw [startBody_none (by exact hbody), hend] at hx
      change Except.ok _ = _ at hx
      rw [Except.ok.injEq] at hx
      obtain ⟨final, w, hanswer, halive', hfinal, hcontinue, hiff, hclosing, hquiet⟩ :=
        @answered_of_ends limit .empty env (((noted d).record (.checked 0)).record
            (.bodyDone d.getRequest.method d.getRequest.uri d.getRequest.headers none))
          c.buffer.length
          rfl hprocess halive h.type hresponse (codeAfter_empty limit _) (fun _ => by
            rw [show (((noted d).record (.checked 0)).record _).bodyStatus = d.bodyStatus from rfl,
              hbody]
            exact BodyStatus.noConfusion)
      rw [hanswer] at hx
      subst hx
      have hstop := @stopsAt_snoc limit .empty [] c.buffer
        (by simp [ends]) (codeAfter_empty limit _)
      rw [List.nil_append] at hstop
      have hdone : Adds NoFile c (((noted d).record (.checked 0)).record
          (.bodyDone d.getRequest.method d.getRequest.uri d.getRequest.headers none)) :=
        (hchecked (noted d) rfl).trans (Adds.record rfl (by intro path h; cases h))
      exact .answered (Or.inl hexpect) hstop halive' hfinal hcontinue hiff hclosing
        (hdone.trans hquiet)
    · have hongoing : d.bodyStatus = .ongoing := by
        rw [hbody]
        cases shape with
        | empty => exact absurd rfl hshape
        | measured length => rfl
        | chunked body => rfl
      refine startBody_stage (s := (noted d).record (.checked 0)) hq hshape h.method h.type rfl
        hsent hbuffer ⟨rfl, hongoing, hstream, hprocess, halive, h.type⟩
        (.reading hmode hresponse) rfl hbuffer' rfl (hchecked _ rfl) rfl (fun _ => hexpect) hx
  | continuing hexpect hannounced =>
    change (startBody ((generateContinueResponse (noted d)).record (.checked 0)) >>= fun out =>
      .ok (respondTo env out).2) = .ok x at hx
    have hshape : shape ≠ .empty := by
      intro hempty
      rw [hempty] at hbody
      exact hannounced hbody
    have hongoing : d.bodyStatus = .ongoing := by
      rw [hbody]
      cases shape with
      | empty => exact absurd rfl hshape
      | measured length => rfl
      | chunked body => rfl
    refine startBody_stage (s := (generateContinueResponse (noted d)).record (.checked 0)) hq
      hshape h.method h.type rfl hsent hbuffer
      ⟨rfl, hongoing, hstream, hprocess, halive, h.type⟩ (.continuing rfl rfl hexpect) rfl
      hbuffer' rfl ?_ rfl ?_ hx
    · have hcontinue : Adds NoFile c (generateContinueResponse (noted d)) :=
        Adds.record htrace (by intro path h; cases h)
      exact hcontinue.trans (Adds.record rfl (by intro path h; cases h))
    · intro hnone
      cases hnone
  | @refused res r' hsome hnone hres htype =>
    obtain ⟨hpos, hother, hinterim⟩ : 0 < res ∧ res ≠ RES_FORBIDDEN ∧ res ≠ RES_CONTINUE := by
      rcases hres with hres | hres
      · rw [hres]
        decide
      · rw [hres]
        decide
    have hne : res ≠ 0 := by omega
    simp only [andThen, bind, Except.bind, pure, Except.pure, ne_eq, hne, not_false_eq_true,
      if_true, Except.ok.injEq] at hx
    obtain ⟨final, w, hanswer, ⟨⟨path, connection, hview, -⟩, -, halive'⟩, hfinal, hiff⟩ :=
      respondTo_answers env (c := (d.setRequest r').record (.checked res)) hpos
        (htype.trans h.type) hresponse
    rw [hanswer] at hx
    subst hx
    refine Stage.refused ?_ (halive'.trans halive) (show (view w).response = some final from ?_)
      ?_ ?_
    · intro hcontinued
      rcases hcontinued with hempty | ⟨hcontinue, hzero⟩
      · exact hsome hempty
      · rw [hnone hcontinue] at hbody
        cases shape with
        | empty => exact absurd hzero (codeAfter_empty limit _)
        | measured length => cases hbody
        | chunked body => cases hbody
    · rw [hview]
    · rcases hfinal with hfinal | hfinal
      · rw [hfinal]
        exact hinterim
      · rw [hfinal]
        decide
    · exact fun hforbidden => hother (hiff.mp hforbidden).1

theorem fed_head {env : Env} {reads : List Bytes} {e : Env} {x : Client}
    (h : Fed shape env c reads e x) : reads.head? = some c.buffer := by
  induction h with
  | taken => rfl
  | step _ _ _ _ _ ih =>
    rw [List.head?_append, ih]
    rfl

/-- Every state of the exchange is in one of its stages. -/
theorem fed_stage {env : Env} {r : Request} (h : ForbiddenUpload env r c d)
    (hpassed : Passed { c with bodyStatus := .none } d)
    (hbefore : Before limit shape d.getRequest) (hbody : d.bodyStatus = shape.bodyStatus)
    (hsent : shape.Begins sent) {reads : List Bytes} {e : Env} {x : Client}
    (hfed : Fed shape env c reads e x) (hreads : reads.flatten <+: sent) :
    Stage limit shape (d.getRequest.setHintStatus RES_FORBIDDEN) c d reads e x := by
  induction hfed with
  | taken hx =>
    refine takeUp_stage h hpassed hbefore hbody hsent ?_ hx
    simpa using hreads
  | @step reads e x y event _ hopen hunanswered hcalm hstep ih =>
    have hfront : reads.flatten <+: sent := by
      refine List.IsPrefix.trans ?_ hreads
      rw [List.flatten_append]
      exact List.prefix_append _ _
    have hq : Before limit shape (d.getRequest.setHintStatus RES_FORBIDDEN) :=
      hbefore.of_hints d.getRequest.headers { d.getRequest.resHints with status := RES_FORBIDDEN }
    exact (ih hfront).step hq h.method h.type rfl hsent hopen hunanswered hcalm hstep hreads

end Steps

/-- The final answer is 403: the client expects nothing, or the answer 100 with part of the
body still to be read when it is made; the body ends before it is refused, with a size above
0; and the page of the status can be served. -/
structure Refusable (r : Request) (host : Host) (shape : Shape) (served : FileSystem)
    (reads : List Bytes) : Prop where
  expects : r.getHeader (ascii "expect") = [] ∨
    r.getHeader (ascii "expect") = ascii "100-continue" ∧
      ∃ first, reads.head? = some first ∧ shape.codeAfter host.getMaxSize first.length = 0
  sized : ∃ n, stopsAt host.getMaxSize shape reads = some n ∧
    shape.codeAfter host.getMaxSize n = -1 ∧ 0 < shape.sizeAfter n
  page : (served.stat (host.dir_errors ++ IntToString RES_FORBIDDEN ++ ascii ".html")).isSome ∧
    (served.content (host.dir_errors ++ IntToString RES_FORBIDDEN ++ ascii ".html")).isSome

/-- The exchange of an upload to a target that cannot be written ends with the answer 403,
and without a file that is created or truncated, exactly under the condition above. -/
theorem refused_iff {input rest : Bytes} {r : Request}
    (hparse : Request.parseHeaders {} input = .ok (-1, r, rest)) {env : Env} {c d : Client}
    (h : ForbiddenUpload env r c d) {shape : Shape} (hshape : shape.Announced r) {sent : Bytes}
    (hsent : shape.Begins sent) {reads : List Bytes} {e : Env} {x : Client}
    (hfed : Fed shape env c reads e x) (hreads : reads.flatten <+: sent)
    (hend : shape.Begins reads.flatten ∨ ¬ Unanswered x) :
    Refused c x ↔ Refusable r (hostOf c) shape e.served reads := by
  have hget : c.getRequest = r := by
    rw [Client.getRequest, h.request]
    rfl
  have hpassed := throughHost_passed env (by
    show c.getRequest.resHints.cgiRedir = .none
    rw [hget]
    exact (headRead_of_parse hparse).cgiRedir) h.accepted
  obtain ⟨hbefore, hbody⟩ := before_of_passed hparse (by exact hget) rfl hpassed h.type hshape
  rw [hostOf_bodyStatus c .none] at hbefore
  have hstage := fed_stage h hpassed hbefore hbody hsent hfed hreads
  have hexpect : (view d).expect = r.getHeader (ascii "expect") := by
    have hheaders := hpassed.resolved.headers_eq
    show d.getRequest.getHeader (ascii "expect") = _
    rw [Request.getHeader, hheaders]
    show c.getRequest.getHeader (ascii "expect") = _
    rw [hget]
  have hcontinued : Continued (hostOf c).getMaxSize shape c d ↔
      r.getHeader (ascii "expect") = [] ∨ r.getHeader (ascii "expect") = ascii "100-continue" ∧
        ∃ first, reads.head? = some first ∧
          shape.codeAfter (hostOf c).getMaxSize first.length = 0 := by
    unfold Continued
    rw [hexpect, fed_head hfed]
    simp only [Option.some.injEq, exists_eq_left']
  have hpages : forbiddenPage d =
      (hostOf c).dir_errors ++ IntToString RES_FORBIDDEN ++ ascii ".html" := by
    unfold forbiddenPage errorPages
    rw [hpassed.host, hostOf_bodyStatus c .none]
    rfl
  have hrefusable : Refusable r (hostOf c) shape e.served reads ↔
      Continued (hostOf c).getMaxSize shape c d ∧
        (∃ n, stopsAt (hostOf c).getMaxSize shape reads = some n ∧
          shape.codeAfter (hostOf c).getMaxSize n = -1 ∧ 0 < shape.sizeAfter n) ∧
        PageServed e.served d := by
    unfold PageServed
    rw [hcontinued, hpages]
    exact ⟨fun h => ⟨h.expects, h.sized, h.page⟩, fun h => ⟨h.1, h.2.1, h.2.2⟩⟩
  rw [hrefusable]
  cases hstage with
  | waiting _ _ hproceeds _ _ _ _ _ _ hzero =>
    rcases hend with hend | hend
    · rw [(codeAfter_eq_iff _ hreads hsent).mpr hend] at hzero
      cases hzero
    · exact absurd (proceeds_unanswered hproceeds) hend
  | @answered n final hcont hstop halive hfinal _ hiff hclosing hadds =>
    constructor
    · intro hrefused
      have hforbidden := hrefused.response halive
      rw [hfinal, Option.some.injEq] at hforbidden
      obtain ⟨hcode, hserved⟩ := hiff.mp hforbidden
      exact ⟨hcont, ⟨n, hstop, hcode⟩, hserved⟩
    · intro hrefusable
      obtain ⟨_, ⟨m, hm, hcode⟩, hserved⟩ := hrefusable
      rw [hstop, Option.some.injEq] at hm
      subst hm
      exact refused_of_closing hadds (hclosing (hiff.mpr ⟨hcode, hserved⟩))
  | @refused final hcont halive hfinal _ hother =>
    constructor
    · intro hrefused
      have hforbidden := hrefused.response halive
      rw [hfinal, Option.some.injEq] at hforbidden
      exact absurd hforbidden hother
    · exact fun hrefusable => absurd hrefusable.1 hcont
  | lost hcont halive hunanswered _ =>
    constructor
    · intro hrefused
      have hforbidden := hrefused.response halive
      rcases hunanswered with hnone | hsome
      · rw [hnone] at hforbidden
        cases hforbidden
      · rw [hsome] at hforbidden
        cases hforbidden
    · exact fun hrefusable => absurd hrefusable.1 hcont

/-- Every target is a directory. -/
def directoryEnv : Env :=
  { Uploads.uploadEnv with
    upload := { plainFiles [] with stat := fun _ => some (.directory, 0) } }

/-- What the two following theorems look at in a run on a head with some bytes behind it. -/
def refuses (p : Request → Bytes → Client → Bool) (out : ℤ × Request × Bytes) : Bool :=
  out.1 = -1 ∧ (throughHost directoryEnv { ready out.2.1 with
    buffer := out.2.2, bodyStatus := .none }).toOption.any fun passed =>
      passed.1 = 0 ∧ passed.2.getRequest.type = .static ∧
      passed.2.getRequest.method = some .PUT ∧
      (takeUp directoryEnv { ready out.2.1 with buffer := out.2.2 }).toOption.any fun x =>
        p out.2.1 out.2.2 x

theorem refuses_sound {p : Request → Bytes → Client → Bool} {input : Bytes}
    (h : (Request.parseHeaders {} input).toOption.any (refuses p) = true) :
    ∃ r rest d x, Request.parseHeaders {} input = .ok (-1, r, rest) ∧
      ForbiddenUpload directoryEnv r { ready r with buffer := rest } d ∧
      takeUp directoryEnv { ready r with buffer := rest } = .ok x ∧ p r rest x = true := by
  obtain ⟨⟨res, r, rest⟩, hparse, hout⟩ := exists_of_any h
  obtain ⟨hres, haccept⟩ := of_decide_eq_true hout
  obtain ⟨⟨code, d⟩, hpassed, hd⟩ := exists_of_any haccept
  obtain ⟨hcode, htype, hmethod, htake⟩ := of_decide_eq_true hd
  obtain ⟨x, hx, hp⟩ := exists_of_any htake
  dsimp only at hres hcode
  subst hres hcode
  refine ⟨r, rest, d, x, hparse, ⟨rfl, rfl, rfl, rfl, rfl, rfl, hpassed, htype, Or.inr hmethod,
    ⟨.directory, 0, rfl, ?_⟩⟩, hx, hp⟩
  intro h
  cases h

theorem forbidden_upload_refused :
    ∃ r rest x, Request.parseHeaders {} (Uploads.uploadHead ++ ascii "hello") =
      .ok (-1, r, rest) ∧ takeUp directoryEnv { ready r with buffer := rest } = .ok x ∧
      Refused { ready r with buffer := rest } x := by
  have hrun : (Request.parseHeaders {} (Uploads.uploadHead ++ ascii "hello")).toOption.any
      (refuses fun r rest _ => rest = ascii "hello" ∧ r.getHeader (ascii "expect") = [] ∧
        bodyLength r = 5 ∧ isChunked r = false) = true := by
    decide +kernel
  obtain ⟨r, rest, d, x, hparse, hforbidden, hx, hp⟩ := refuses_sound hrun
  obtain ⟨hrest, hexpect, hlength, hplain⟩ := of_decide_eq_true hp
  subst hrest
  have hfed : Fed (.measured 5) directoryEnv { ready r with buffer := ascii "hello" }
      [ascii "hello"] directoryEnv x := .taken hx
  have hwhole : (Shape.measured 5).Begins (ascii "hello") := by
    show 5 ≤ (ascii "hello").length
    decide
  have hannounced : (Shape.measured 5).Announced r := ⟨hlength, by decide, hplain⟩
  refine ⟨r, _, x, hparse, hx, ?_⟩
  refine (refused_iff hparse hforbidden hannounced hwhole hfed (by decide) (Or.inl hwhole)).mpr ?_
  exact ⟨Or.inl hexpect, ⟨5, rfl, rfl, by decide⟩, rfl, rfl⟩

/-- Without a body the answer is 204. -/
theorem not_all_refused :
    ¬ ∀ (input rest : Bytes) (r : Request) (env e : Env) (c d x : Client) (shape : Shape)
      (sent : Bytes) (reads : List Bytes), Request.parseHeaders {} input = .ok (-1, r, rest) →
      ForbiddenUpload env r c d → shape.Announced r → shape.Begins sent →
      Fed shape env c reads e x → reads.flatten <+: sent → shape.Begins reads.flatten →
        Refused c x := by
  intro h
  have hrun : (Request.parseHeaders {} (ascii "PUT /f HTTP/1.1" ++ CRLF ++ ascii "Host: a" ++
      CRLF ++ CRLF)).toOption.any (refuses fun r rest x => rest = [] ∧ bodyLength r = -1 ∧
        isChunked r = false ∧ x.alive = true ∧
        (view x).response = some RES_NO_CONTENT) = true := by
    decide +kernel
  obtain ⟨r, rest, d, x, hparse, hforbidden, hx, hp⟩ := refuses_sound hrun
  obtain ⟨hrest, hlength, hplain, halive, hresponse⟩ := of_decide_eq_true hp
  subst hrest
  have hrefused := h _ _ r directoryEnv directoryEnv { ready r with buffer := [] } d x .empty []
    [[]] hparse hforbidden ⟨by rw [hlength]; decide, hplain⟩ trivial (.taken hx) (by decide) trivial
  rw [hrefused.response halive] at hresponse
  cases hresponse

end Webserveau.ForbiddenUploads
