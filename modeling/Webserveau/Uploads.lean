import Webserveau.UploadStarts

/-!
What is left of a target when its upload is released.
The target is truncated when the head is accepted and receives the body piece by piece.
Clearing or terminating the client closes the stream and removes the file when the status
noted for the request is 300 or more; otherwise the file stays as it is. The target is
restored by neither, so it is only spared under the condition found here.
-/
namespace Webserveau.Uploads

open ByteStrings OrderedMaps Formats Requests Clients EventLoop Checks HeadSafety ParserFrames
  Transitions Replies BodySegmentation Acceptance BodyIntake ContentLength LoopSteps
  ChunkedMessages ChunkedIntake UploadIntake UploadStarts

/-- The response of a request, or a failure to make it, never asks for the file to be
removed. -/
theorem tryResponse_sameUpload (env : Env) (c : Client) (status : ℤ) :
    SameUpload c (tryResponse env c status).2 := by
  have hrequest : ∀ r, r = (if status ≠ 0 then c.getRequest.setHintStatus status
      else c.getRequest) → ∃ headers hints, ({ r with resHints := (genResponse env.served env.date
        (fillResponse (errorPages c) r)).2 } : Request) =
        { c.getRequest with headers := headers, resHints := hints } ∧
      (c.getRequest.resHints.unlink = false → hints.unlink = false) := by
    intro r hr
    refine ⟨c.getRequest.headers, (genResponse env.served env.date
      (fillResponse (errorPages c) r)).2, ?_, ?_⟩
    · rw [hr]
      split
      · rfl
      · rfl
    · intro hunlink
      obtain ⟨hfilled, hfills, hresponse⟩ := fillResponse_fills (errorPages c) r
      obtain ⟨headers, index, hsame⟩ :=
        (genResponse_same env.served env.date (fillResponse (errorPages c) r)).1.fields
      rw [hsame, hresponse]
      rcases hfills.unlink with hkept | hcleared
      · refine hkept.trans ?_
        rw [hr]
        split
        · exact hunlink
        · exact hunlink
      · exact hcleared
  have hkept := hrequest _ rfl
  unfold tryResponse
  dsimp only
  split
  · exact ⟨rfl, rfl, rfl, rfl, rfl, rfl, fun _ => rfl, hkept⟩
  · exact ⟨rfl, rfl, rfl, rfl, rfl, rfl, fun _ => rfl, hkept⟩

/-- Only the response and the output side differ. -/
theorem SameUpload.of_replies {c d : Client} (response : Option Response) (mode : Mode)
    (outBuffers : List Bytes) (trace : List Action)
    (h : d = { c with
      response := response
      mode := mode
      outBuffers := outBuffers
      trace := trace }) : SameUpload c d := by
  subst h
  exact ⟨rfl, rfl, rfl, rfl, rfl, rfl, fun h => h, c.getRequest.headers, c.getRequest.resHints,
    rfl, fun h => h⟩

theorem generateResponse_sameUpload (env : Env) (c : Client) (status : ℤ) :
    SameUpload c (generateResponse env c status).2 := by
  have hclear : ∀ d : Client, SameUpload d d.clearResponse :=
    fun d => SameUpload.of_replies none d.mode d.outBuffers d.trace rfl
  have hfirst := tryResponse_sameUpload env c status
  unfold generateResponse
  split
  · exact SameUpload.refl c
  · dsimp only
    split
    · exact hfirst
    · split
      · exact hfirst.trans (hclear _)
      · have hsecond := (hfirst.trans (hclear _)).trans
          (tryResponse_sameUpload env _ RES_INTERNAL_ERROR)
        split
        · exact hsecond
        · exact hsecond.trans (hclear _)

theorem handleRequestBodyDone_sameUpload (c : Client) :
    SameUpload c (handleRequestBodyDone c).2 := by
  unfold handleRequestBodyDone
  dsimp only
  split
  · exact SameUpload.of_replies _ _ _ _ rfl
  · split
    · exact ⟨rfl, rfl, rfl, rfl, rfl, rfl, fun _ => rfl, c.getRequest.headers,
        { c.getRequest.resHints with path := [] }, rfl, fun h => h⟩
    · exact SameUpload.of_replies _ _ _ _ rfl

/-- A request for a file is answered without a process. -/
theorem respondTo_sameUpload (env : Env) {out : ℤ × Client}
    (htype : out.2.getRequest.type = .static) : SameUpload out.2 (respondTo env out).2 := by
  unfold respondTo
  split
  · unfold handleClientResponse
    rw [if_pos (Or.inl (by rw [htype]; decide))]
    exact generateResponse_sameUpload env out.2 out.1
  · exact SameUpload.refl out.2

theorem finishBody_storing {r : Request} {target seen : Bytes} {opened : Bool} {c : Client}
    (res : ℤ) (h : Storing r target opened seen c) :
    Storing r target opened seen (finishBody res c).2 := by
  unfold finishBody
  split
  · exact h.same (handleRequestBodyDone_sameUpload c)
  · exact h

/-- The client before its body is parsed with the bytes at hand. -/
theorem parseRequest_storing {r : Request} {target seen seen' bytes : Bytes} {opened : Bool}
    {c : Client} {stream : BodyStream} (hheader : c.headerStatus = .done)
    (hbody : c.bodyStatus = .ongoing) (htype : c.getRequest.type = .static)
    (hunlink : c.getRequest.resHints.unlink = false) (hfile : c.bodyFileName = target)
    (hprocess : c.cgiProcess = none) (hstream : c.bodyStream = some stream)
    (hopened : stream.opened = opened)
    (hopen : BodyOpen r seen c.getRequest stream.written ∧ seen' = seen ++ (c.buffer ++ bytes) ∨
      c.getRequest.final_status = .error) :
    Ends (c.parseRequest bytes) fun out => Answer out.1 ∧
      Storing r target opened seen' out.2 := by
  have hongoing : ¬ c.headerStatus = .ongoing := by
    rw [hheader]
    decide
  unfold Client.parseRequest
  rw [if_neg hongoing, if_pos ⟨hheader, hbody⟩]
  refine Ends.bind (P := fun out => Request.parseInput (c.getRequest, c.bodyStream)
    (c.buffer ++ bytes) = .ok out) (fun _ h => h) ?_
  intro out hparse
  obtain ⟨htype', status, verbose, hhints⟩ := (parseInput_call _ _ _ hparse).2
  have hanswer := (parseInput_call _ _ _ hparse).1
  obtain ⟨res, ⟨q, stream'⟩, rest⟩ := out
  dsimp only at htype' hhints hanswer
  have hunlink' : q.resHints.unlink = false := by
    rw [hhints]
    exact hunlink
  refine ends_pure.mpr ⟨hanswer, rfl, hheader, htype'.trans htype, hunlink', hfile, hprocess, ?_⟩
  rcases hopen with ⟨hopen, hseen⟩ | herror
  · rw [hstream] at hparse
    obtain ⟨-, ⟨stream'', hsome, hopened', hwaits, hdone⟩, hfails⟩ :=
      parseInput_parses hopen _ _ hparse
    dsimp only at hsome hwaits hdone hfails
    rw [← hseen] at hwaits hdone
    refine ⟨stream'', hsome, hopened'.trans hopened, ?_⟩
    rcases hanswer with hzero | hend | hfail
    · obtain ⟨hrest, hopen'⟩ := hwaits hzero
      refine .filling ?_ hrest hopen'
      show (if res < 0 then BodyStatus.done else .ongoing) = .ongoing
      rw [if_neg (by omega)]
    · refine .complete ?_ (hdone hend)
      show (if res < 0 then BodyStatus.done else .ongoing) ≠ .ongoing
      rw [if_pos (by omega)]
      decide
    · refine .failed ?_ (hfails (by omega))
      show (if res < 0 then BodyStatus.done else .ongoing) = .ongoing
      rw [if_neg (by omega)]
  · rw [parseInput_stuck herror, Except.ok.injEq, Prod.mk.injEq, Prod.mk.injEq,
      Prod.mk.injEq] at hparse
    obtain ⟨rfl, ⟨rfl, rfl⟩, rfl⟩ := hparse
    exact ⟨stream, hstream, hopened, .failed rfl herror⟩

theorem afterWrite_sameUpload (c : Client) : SameUpload c (afterWrite c).2 := by
  unfold afterWrite
  split
  · exact SameUpload.refl c
  · split
    · exact ⟨rfl, rfl, rfl, rfl, rfl, rfl, fun _ => rfl, _, c.getRequest.resHints, rfl, fun h => h⟩
    · split
      · exact SameUpload.refl c
      · exact SameUpload.refl c

theorem handleClientOut_sameUpload (written : Bytes → ℤ) (c : Client) :
    SameUpload c (handleClientOut written c).2 := by
  unfold handleClientOut writeBuffer
  split
  · exact SameUpload.refl c
  · rename_i d hwrite
    refine SameUpload.trans ?_ (afterWrite_sameUpload d)
    split at hwrite
    · cases hwrite
      exact SameUpload.refl c
    · split at hwrite
      · cases hwrite
      · cases hwrite
        exact SameUpload.of_replies _ _ _ _ rfl

/-- The output side of an event, up to where the request is released. -/
def serveOut (written : Bytes → ℤ) (c : Client) : Client :=
  if c.response = none then c
  else match handleClientOut written c with
    | (.continue, d) => d.clearResponse.setMode .read
    | (_, d) => d

/-- What an event does to a client that holds a request, up to where it is released. -/
def serve (c : Client) : Event → Checked Client
  | .epoll event =>
    if event.hup ∨ c.mode = .error then .ok c
    else if event.epollin ∧ (c.mode = .read ∨ c.bodyStatus ≠ .ongoing) then readOn c event
    else if event.epollout ∧ c.mode = .write then .ok (serveOut event.written c)
    else .ok c
  | .timeOut expired env => .ok (checkTO expired env c)

/-- The bytes an event brings. -/
def arrived (c : Client) : Event → Bytes
  | .epoll event =>
    if ¬ (event.hup ∨ c.mode = .error) ∧
        event.epollin ∧ (c.mode = .read ∨ c.bodyStatus ≠ .ongoing) then event.incoming.getD []
    else []
  | .timeOut _ _ => []

/-- The states of a client from the acceptance of a request on, with the bytes that have
come behind its head. Every release of the request starts from one of these. -/
inductive Held (start : Client) : Bytes → Client → Prop
  | begun {env : Env} {d : Client} : goOn env start = .ok d → Held start start.buffer d
  | served {seen : Bytes} {d e : Client} {event : Event} : Held start seen d →
      serve d event = .ok e → Held start (seen ++ arrived d event) e

/-- After an event the request is still held, or it is released. -/
inductive Follows (d e : Client) : Prop
  | held : e = d → Follows d e
  | ended : e = d.terminate → Follows d e
  | next {env : Env} {out : ℤ × Client} : keepAlive env d = .ok out →
      e = out.2 ∨ e = out.2.terminate → Follows d e

/-- The client is closed after a failure. -/
theorem close_cases {x : Checked (ℤ × Client)} {e : Client}
    (h : (x >>= fun out => if out.1 < 0 then pure out.2.terminate else pure out.2) = .ok e) :
    ∃ out, x = .ok out ∧ (0 ≤ out.1 ∧ e = out.2 ∨ out.1 < 0 ∧ e = out.2.terminate) := by
  obtain ⟨out, hout, hrest⟩ := bind_eq_ok_iff.mp h
  refine ⟨out, hout, ?_⟩
  split at hrest
  · rename_i hneg
    cases hrest
    exact Or.inr ⟨hneg, rfl⟩
  · rename_i hpos
    cases hrest
    exact Or.inl ⟨by omega, rfl⟩

theorem handleWritable_follows {c : Client} {event : EpollEvent} {out : ℤ × Client}
    (hprocess : c.cgiProcess = none) (h : handleWritable event c = .ok out) :
    out.2 = serveOut event.written c ∧ out.1 = 0 ∨ out.2 = (serveOut event.written c).terminate ∧
        out.1 = 0 ∨ keepAlive event.next (serveOut event.written c) = .ok out := by
  unfold handleWritable handleCGIProcess at h
  rw [hprocess] at h
  change handleResponseOut event c = .ok out at h
  unfold handleResponseOut at h
  unfold serveOut
  split at h
  · rename_i hnone
    rw [if_pos hnone]
    cases h
    exact Or.inl ⟨rfl, rfl⟩
  · rename_i hsome
    rw [if_neg hsome]
    split at h
    · rename_i d hout
      rw [hout]
      cases h
      exact Or.inl ⟨rfl, rfl⟩
    · rename_i d hout
      rw [hout]
      exact Or.inr (Or.inr h)
    · rename_i d hout
      rw [hout]
      cases h
      exact Or.inl ⟨rfl, rfl⟩
    · rename_i d hout
      rw [hout]
      cases h
      exact Or.inr (Or.inl ⟨rfl, rfl⟩)

/-- A step is what is done to the request while it is held, and its release. -/
theorem step_follows {c e : Client} {event : Event} (halive : c.alive = true)
    (hprocess : c.cgiProcess = none) (h : step c event = .ok e) :
    ∃ d, serve c event = .ok d ∧ Follows d e := by
  unfold step at h
  rw [if_neg (by rw [halive]; decide)] at h
  cases event with
  | timeOut expired env =>
    dsimp only at h
    rw [Except.ok.injEq] at h
    exact ⟨_, rfl, .held h.symm⟩
  | epoll event =>
    obtain ⟨out, hout, hend⟩ := close_cases (show (handleClientEvent event c >>= _) = _ from h)
    have hclosed : out.1 = 0 → e = out.2 := by
      intro hzero
      rcases hend with ⟨-, hend⟩ | ⟨hneg, -⟩
      · exact hend
      · omega
    have hfollows : Follows out.2 e := by
      rcases hend with ⟨-, hend⟩ | ⟨-, hend⟩
      · exact .held hend
      · exact .ended hend
    unfold handleClientEvent at hout
    unfold serve
    dsimp only
    split at hout
    · rename_i hup
      rw [if_pos hup]
      cases hout
      exact ⟨c, rfl, .ended (hclosed rfl)⟩
    · rename_i hup
      rw [if_neg hup]
      split at hout
      · rename_i hin
        rw [if_pos hin]
        refine ⟨out.2, ?_, hfollows⟩
        unfold readOn
        rw [hout]
        rfl
      · rename_i hin
        rw [if_neg hin]
        split at hout
        · rename_i hwritable
          rw [if_pos hwritable]
          refine ⟨_, rfl, ?_⟩
          rcases handleWritable_follows hprocess hout with ⟨hserved, hzero⟩ |
            ⟨hserved, hzero⟩ | hnext
          · rw [hserved] at hclosed
            exact .held (hclosed hzero)
          · rw [hserved] at hclosed
            exact .ended (hclosed hzero)
          · refine .next hnext ?_
            rcases hend with ⟨-, hend⟩ | ⟨-, hend⟩
            · exact Or.inl hend
            · exact Or.inr hend
        · rename_i hidle
          rw [if_neg hidle]
          cases hout
          exact ⟨c, rfl, hfollows⟩

theorem serveOut_sameUpload (written : Bytes → ℤ) (c : Client) :
    SameUpload c (serveOut written c) := by
  have hout := handleClientOut_sameUpload written c
  unfold serveOut
  split
  · exact SameUpload.refl c
  · split
    · rename_i d hcontinue
      rw [hcontinue] at hout
      exact hout.trans (SameUpload.of_replies none .read d.outBuffers d.trace rfl)
    · rename_i d hother
      rw [hother] at hout
      exact hout

/-- The client when the time for its request has run out. -/
theorem checkTO_storing {r : Request} {target seen : Bytes} {opened : Bool} {c : Client}
    (expired : Bool) (env : Env) (h : Storing r target opened seen c) :
    Storing r target opened seen (checkTO expired env c) := by
  unfold checkTO
  split
  · split
    · rename_i hnone
      have hsome := h.request
      rw [hnone] at hsome
      cases hsome
    · rename_i request hrequest
      have hget : c.getRequest = request := by
        rw [Client.getRequest, hrequest]
        rfl
      have htype := h.type
      have hunlink := h.unlink
      rw [hget] at htype hunlink
      obtain ⟨stream, hstream, hopened, hphase⟩ := h.stream
      refine Storing.same ?_ (generateResponse_sameUpload env _ RES_TIMEOUT)
      refine ⟨rfl, h.header, htype, hunlink, h.file, h.process, stream, hstream, hopened, ?_⟩
      cases hphase with
      | filling hbody _ _ => exact .failed hbody rfl
      | failed hbody _ => exact .failed hbody rfl
      | complete hbody hcomplete => exact .complete hbody hcomplete
  · exact h

/-- What is read while the request is held. -/
theorem readOn_storing {r : Request} {target seen : Bytes} {opened : Bool} {c : Client}
    (event : EpollEvent) (h : Storing r target opened seen c) :
    Ends (readOn c event) (Storing r target opened (seen ++ event.incoming.getD [])) := by
  have hnothing : event.incoming.getD [] = [] → handleClientIn event c = .ok (-1, c) →
      Ends (readOn c event) (Storing r target opened (seen ++ event.incoming.getD [])) := by
    intro hnil hclosed
    unfold readOn handleReadable
    rw [hclosed, hnil, List.append_nil]
    exact ends_pure.mpr h
  cases hincoming : event.incoming with
  | none =>
    rw [hincoming] at hnothing
    refine hnothing rfl ?_
    unfold handleClientIn
    rw [hincoming]
  | some bytes =>
    by_cases hbytes : bytes = []
    · rw [hincoming] at hnothing
      refine hnothing hbytes ?_
      unfold handleClientIn
      rw [hincoming]
      exact if_pos hbytes
    · rw [handleReadable_reading event c hincoming hbytes]
      show Ends _ (Storing r target opened (seen ++ bytes))
      obtain ⟨stream, hstream, hopened, hphase⟩ := h.stream
      have hparsed : c.bodyStatus = .ongoing →
          (BodyOpen r seen c.getRequest stream.written ∧ seen ++ bytes = seen ++ (c.buffer ++ bytes) ∨
            c.getRequest.final_status = .error) →
          Ends (receive event.env c bytes >>= fun out => .ok (respondTo event.env out).2)
            (Storing r target opened (seen ++ bytes)) := by
        intro hbody hopen
        unfold receive
        refine Ends.bind (P := fun out => Storing r target opened (seen ++ bytes) out.2) ?_ ?_
        · refine Ends.bind (parseRequest_storing h.header hbody h.type h.unlink h.file h.process
            hstream hopened hopen) ?_
          intro out hout
          obtain ⟨res, d⟩ := out
          obtain ⟨-, hd⟩ := hout
          dsimp only at hd ⊢
          split
          · exact ends_pure.mpr hd
          · have hdone : ¬ d.headerStatus = .ready := by
              rw [hd.header]
              decide
            rw [if_neg hdone]
            exact ends_pure.mpr (finishBody_storing res hd)
        · intro out hout
          exact ends_ok.mpr (hout.same (respondTo_sameUpload event.env hout.type))
      cases hphase with
      | filling hbody hbuffer hopen =>
        refine hparsed hbody (Or.inl ⟨hopen, ?_⟩)
        rw [hbuffer, List.nil_append]
      | failed hbody herror => exact hparsed hbody (Or.inr herror)
      | complete hbody hcomplete =>
        have hidle : Idle c := by
          constructor
          · rw [h.header]
            decide
          · intro hbusy
            exact hbody hbusy.2
        rw [receive_idle event.env hidle]
        refine ends_ok.mpr ?_
        rw [respondTo_zero]
        exact ⟨rfl, h.header, h.type, h.unlink, h.file, h.process, stream, hstream, hopened,
          .complete hbody (hcomplete.append bytes)⟩

theorem serve_storing {r : Request} {target seen : Bytes} {opened : Bool} {c : Client}
    (event : Event) (h : Storing r target opened seen c) :
    Ends (serve c event) (Storing r target opened (seen ++ arrived c event)) := by
  have hkept : Storing r target opened (seen ++ []) c := by
    rw [List.append_nil]
    exact h
  cases event with
  | timeOut expired env =>
    show Ends (.ok (checkTO expired env c)) (Storing r target opened (seen ++ []))
    rw [List.append_nil]
    exact ends_ok.mpr (checkTO_storing expired env h)
  | epoll event =>
    unfold serve arrived
    dsimp only
    by_cases hup : event.hup ∨ c.mode = .error
    · rw [if_pos hup, if_neg (fun hopen => hopen.1 hup)]
      exact ends_ok.mpr hkept
    · rw [if_neg hup]
      by_cases hin : event.epollin ∧ (c.mode = .read ∨ c.bodyStatus ≠ .ongoing)
      · rw [if_pos hin, if_pos ⟨hup, hin⟩]
        exact readOn_storing event h
      · have hnothing : ¬ (¬ (event.hup ∨ c.mode = .error) ∧
            event.epollin ∧ (c.mode = .read ∨ c.bodyStatus ≠ .ongoing)) := fun hopen => hin hopen.2
        rw [if_neg hin, if_neg hnothing]
        split
        · exact ends_ok.mpr (hkept.same (serveOut_sameUpload event.written c))
        · exact ends_ok.mpr hkept

/-- What stood behind the head when it was accepted is taken in at once. -/
theorem goOn_storing {r : Request} {start : Client} {stream : BodyStream} (env : Env)
    (h : Begun r start stream) (htype : start.getRequest.type = .static)
    (hstream : start.bodyStream = some stream) :
    Ends (goOn env start) (Storing r start.bodyFileName stream.opened start.buffer) := by
  unfold goOn startBody
  refine Ends.bind (P := fun out => Storing r start.bodyFileName stream.opened start.buffer out.2)
    ?_ fun out hout => ends_ok.mpr (hout.same (respondTo_sameUpload env hout.type))
  rcases h.body with ⟨hbody, hopen⟩ | ⟨hbody, hempty⟩
  · have hdue : start.bodyStatus ≠ .none := by
      rw [hbody]
      decide
    have hfirst : BodyOpen r [] start.getRequest stream.written ∧
        start.buffer = [] ++ (start.buffer ++ []) ∨ start.getRequest.final_status = .error := by
      rcases hopen with hopen | herror
      · refine Or.inl ⟨?_, ?_⟩
        · rw [h.written]
          exact hopen
        · rw [List.nil_append, List.append_nil]
      · exact Or.inr herror
    unfold parseRest
    rw [if_pos hdue]
    exact Ends.bind (parseRequest_storing h.header hbody htype h.unlink rfl h.process hstream rfl
      hfirst) fun out hout => ends_pure.mpr (finishBody_storing _ hout.2)
  · unfold parseRest
    rw [if_neg (not_not_intro hbody)]
    refine ends_pure.mpr (finishBody_storing 0 ?_)
    refine ⟨h.request, h.header, htype, h.unlink, rfl, h.process, stream, hstream, rfl, ?_⟩
    refine .complete ?_ ?_
    · rw [hbody]
      decide
    · rw [h.written]
      exact hempty.append start.buffer

/-- Every state in which an upload is held. -/
theorem held_storing {r : Request} {start d : Client} {stream : BodyStream} {seen : Bytes}
    (h : Begun r start stream) (htype : start.getRequest.type = .static)
    (hstream : start.bodyStream = some stream) (hheld : Held start seen d) :
    Storing r start.bodyFileName stream.opened seen d := by
  induction hheld with
  | begun hgo => exact goOn_storing _ h htype hstream _ hgo
  | served _ hserve ih => exact serve_storing _ ih _ hserve

/-- The file at a path is removed. -/
def removesFile (target : Bytes) : Action → Bool
  | .removed path => path = target
  | _ => false

/-- The content of the target of an upload once the client `d` has become `after`, where
`prior` is its content before the request. -/
def contentAfter (target : Bytes) (prior : Option Bytes) (d after : Client) : Option Bytes :=
  if (after.trace.drop d.trace.length).any (removesFile target) then none
  else d.bodyStream.elim prior fun stream => if stream.opened then some stream.written else prior

/-- The status of the response to a request, or the one noted for it as long as it has
got none but the answer 100. -/
def finalStatus (d : Client) : ℤ :=
  match d.response with
  | some response =>
    if response.getStatus = RES_CONTINUE then d.getRequest.resHints.status else response.getStatus
  | none => d.getRequest.resHints.status

/-- The release of an upload leaves its target as it was or with the complete body, and as
it was when the upload was refused or its body never completed. -/
def Atomic (r : Request) (seen target : Bytes) (prior : Option Bytes) (d : Client) : Prop :=
  ∀ after, after = d.clear ∨ after = d.terminate →
    (contentAfter target prior d after = prior ∨
      ∃ body, IsBody r seen body ∧ contentAfter target prior d after = some body) ∧
    (300 ≤ finalStatus d ∨ d.bodyStatus = .ongoing → contentAfter target prior d after = prior)

/-- When it is released, the status noted for the upload is 300 or more and there was no
target before it, or the status is smaller and the body is complete and not refused, or
the target could not be opened, or held just what has been written to it. -/
def Spared (prior : Option Bytes) (d : Client) : Prop :=
  (300 ≤ d.getRequest.resHints.status → prior = none) ∧
    (d.getRequest.resHints.status < 300 →
      d.bodyStatus ≠ .ongoing ∧ finalStatus d < 300 ∨
        ∀ stream, d.bodyStream = some stream → stream.opened = true → prior = some stream.written)

/-- Both releases remove the target when the noted status is 300 or more. -/
theorem contentAfter_release {r : Request} {target seen : Bytes} {opened : Bool} {d after : Client}
    {stream : BodyStream} (h : Storing r target opened seen d) (hstream : d.bodyStream = some stream)
    (prior : Option Bytes) (hafter : after = d.clear ∨ after = d.terminate) :
    contentAfter target prior d after = if 300 ≤ d.getRequest.resHints.status then none
      else if stream.opened then some stream.written else prior := by
  have hany : d.request.any (fun r => r.resHints.unlink || 300 ≤ r.resHints.status) =
      decide (300 ≤ d.getRequest.resHints.status) := by
    obtain ⟨request, hrequest⟩ := Option.isSome_iff_exists.mp h.request
    have hunlink := h.unlink
    rw [Client.getRequest, hrequest] at hunlink ⊢
    change request.resHints.unlink = false at hunlink
    show (request.resHints.unlink || decide (300 ≤ request.resHints.status)) = _
    rw [hunlink, Bool.false_or]
    rfl
  have hclear : d.clear.trace = d.deleteBodyStream.trace := by
    have hprocess : d.deleteBodyStream.cgiProcess = none := by
      unfold Client.deleteBodyStream
      rw [hstream]
      dsimp only
      split
      · exact h.process
      · exact h.process
    show d.deleteBodyStream.deleteCGIProcess.trace = _
    unfold Client.deleteCGIProcess
    rw [hprocess]
  have hreleased : ∃ actions, d.clear.trace = d.trace ++ actions ∧
      actions.any (removesFile target) = decide (300 ≤ d.getRequest.resHints.status) := by
    rw [hclear]
    unfold Client.deleteBodyStream
    rw [hstream]
    dsimp only
    rw [hany]
    split
    · rename_i hrefused
      refine ⟨[.removed d.bodyFileName], rfl, ?_⟩
      rw [hrefused, h.file]
      simp [removesFile]
    · rename_i haccepted
      refine ⟨[], (List.append_nil _).symm, ?_⟩
      rw [Bool.not_eq_true] at haccepted
      rw [haccepted]
      rfl
  obtain ⟨actions, htrace, hremoves⟩ := hreleased
  have hadded : (after.trace.drop d.trace.length).any (removesFile target) =
      decide (300 ≤ d.getRequest.resHints.status) := by
    rcases hafter with rfl | rfl
    · rw [htrace, List.drop_left, hremoves]
    · show ((d.clear.trace ++ [Action.terminated]).drop d.trace.length).any (removesFile target) = _
      rw [htrace, List.append_assoc, List.drop_left, List.any_append, hremoves]
      exact Bool.or_false _
  unfold contentAfter
  rw [hadded, hstream]
  simp only [decide_eq_true_eq, Option.elim_some]

/-- A client that takes an upload releases its target untouched or complete exactly when
the status noted is that of a refusal and the target is new, or the body is complete and
accepted, or nothing of the target was changed. -/
theorem upload_atomic_iff {input rest : Bytes} {r : Request}
    (hparse : Request.parseHeaders {} input = .ok (-1, r, rest)) (env : Env) {c start : Client}
    (hrequest : c.request = some r) (hnone : c.bodyStream = none) (hprocess : c.cgiProcess = none)
    (haccept : checkHeaders env c = .ok (0, start)) (htype : start.getRequest.type = .static)
    {stream : BodyStream} (hstream : start.bodyStream = some stream) (prior : Option Bytes)
    {seen : Bytes} {d : Client} (hheld : Held start seen d) :
    (Atomic r seen start.bodyFileName prior d ↔ Spared prior d) ∧
      ∀ event e, d.alive = true → step d event = .ok e →
        ∃ d', Held start (seen ++ arrived d event) d' ∧ Follows d' e := by
  have hbegun := checkHeaders_begun hparse env hrequest hnone hprocess haccept hstream htype
  have hstoring := held_storing hbegun htype hstream hheld
  refine ⟨?_, ?_⟩
  · obtain ⟨stream', hstream', -, hphase⟩ := hstoring.stream
    have hcontent := fun after =>
      @contentAfter_release _ _ _ _ _ after _ hstoring hstream' prior
    have hcomplete : d.bodyStatus ≠ .ongoing → IsBody r seen stream'.written := by
      intro hdone
      cases hphase with
      | filling hbody _ _ => exact absurd hbody hdone
      | failed hbody _ => exact absurd hbody hdone
      | complete _ hbody => exact hbody
    constructor
    · intro hatomic
      obtain ⟨hwhole, hkept⟩ := hatomic d.clear (Or.inl rfl)
      rw [hcontent _ (Or.inl rfl)] at hwhole hkept
      refine ⟨?_, ?_⟩
      · intro hrefused
        rw [if_pos hrefused] at hwhole
        rcases hwhole with hprior | ⟨body, -, hbody⟩
        · exact hprior.symm
        · cases hbody
      · intro hnoted
        rw [if_neg (by omega)] at hkept
        by_cases hdone : d.bodyStatus ≠ .ongoing ∧ finalStatus d < 300
        · exact Or.inl hdone
        · refine Or.inr ?_
          intro s hs hopened
          rw [hstream', Option.some.injEq] at hs
          subst hs
          rw [if_pos hopened] at hkept
          refine (hkept ?_).symm
          by_cases hongoing : d.bodyStatus = .ongoing
          · exact Or.inr hongoing
          · refine Or.inl ?_
            by_contra hless
            exact hdone ⟨hongoing, by omega⟩
    · intro ⟨habsent, hnoted⟩ after hafter
      rw [hcontent _ hafter]
      by_cases hrefused : 300 ≤ d.getRequest.resHints.status
      · rw [if_pos hrefused, habsent hrefused]
        exact ⟨Or.inl rfl, fun _ => rfl⟩
      · rw [if_neg hrefused]
        cases hopened : stream'.opened
        · exact ⟨Or.inl rfl, fun _ => rfl⟩
        · rw [if_pos rfl]
          rcases hnoted (by omega) with ⟨hdone, hsmall⟩ | hsame
          · refine ⟨Or.inr ⟨_, hcomplete hdone, rfl⟩, ?_⟩
            intro hnot
            rcases hnot with hlarge | hongoing
            · omega
            · exact absurd hongoing hdone
          · rw [hsame stream' hstream' hopened]
            exact ⟨Or.inl rfl, fun _ => rfl⟩
  · intro event e halive hstep
    obtain ⟨d', hserve, hfollows⟩ := step_follows halive hstoring.process hstep
    exact ⟨d', .served hheld hserve, hfollows⟩

/-- Every directory is there, and so is every file. -/
def uploadEnv : Env :=
  { plainEnv with
    resource := { plainFiles [] with
      stat := fun path => some (if path.getLast? = some 47 then .directory else .regular, 0) } }

/-- The head of an upload of five bytes. -/
def uploadHead : Bytes :=
  ascii "PUT /f HTTP/1.1" ++ CRLF ++ ascii "Host: a" ++ CRLF ++ ascii "Content-Length: 5" ++
    CRLF ++ CRLF

/-- What the two following theorems look at in a run on a head with some bytes behind it. -/
def uploads (p : Request → Client → Client → Bool) (out : ℤ × Request × Bytes) : Bool :=
  out.1 = -1 ∧ (checkHeaders uploadEnv { ready out.2.1 with buffer := out.2.2 }).toOption.any
    fun checked => checked.1 = 0 ∧ checked.2.getRequest.type = .static ∧
      checked.2.bodyStream.isSome ∧
      (goOn uploadEnv checked.2).toOption.any fun d => p out.2.1 checked.2 d

theorem uploads_sound {p : Request → Client → Client → Bool} {input : Bytes}
    (h : (Request.parseHeaders {} input).toOption.any (uploads p) = true) :
    ∃ r rest start stream d, Request.parseHeaders {} input = .ok (-1, r, rest) ∧
      checkHeaders uploadEnv { ready r with buffer := rest } = .ok (0, start) ∧
      start.getRequest.type = .static ∧ start.bodyStream = some stream ∧
      goOn uploadEnv start = .ok d ∧ p r start d = true := by
  obtain ⟨⟨res, r, rest⟩, hparse, hout⟩ := exists_of_any h
  obtain ⟨hres, haccept⟩ := of_decide_eq_true hout
  obtain ⟨⟨code, start⟩, hcheck, hstart⟩ := exists_of_any haccept
  obtain ⟨hcode, htype, hstream, hgo⟩ := of_decide_eq_true hstart
  obtain ⟨d, hd, hp⟩ := exists_of_any hgo
  obtain ⟨stream, hsome⟩ := Option.isSome_iff_exists.mp hstream
  dsimp only at hres hcode
  subst hres hcode
  exact ⟨r, rest, start, stream, d, hparse, hcheck, htype, hsome, hd, hp⟩

theorem whole_upload_atomic :
    ∃ r rest start d, Request.parseHeaders {} (uploadHead ++ ascii "hello") = .ok (-1, r, rest) ∧
      checkHeaders uploadEnv { ready r with buffer := rest } = .ok (0, start) ∧
      Held start start.buffer d ∧ Atomic r start.buffer start.bodyFileName (some [1]) d := by
  have hrun : (Request.parseHeaders {} (uploadHead ++ ascii "hello")).toOption.any
      (uploads fun _ _ d => d.getRequest.resHints.status < 300 ∧ d.bodyStatus ≠ .ongoing ∧
        finalStatus d < 300) = true := by decide +kernel
  obtain ⟨r, rest, start, stream, d, hparse, haccept, htype, hstream, hgo, hd⟩ :=
    uploads_sound hrun
  obtain ⟨hnoted, hdone, hfinal⟩ := of_decide_eq_true hd
  refine ⟨r, rest, start, d, hparse, haccept, .begun hgo, ?_⟩
  refine (upload_atomic_iff hparse uploadEnv rfl rfl rfl haccept htype hstream (some [1])
    (.begun hgo)).1.mpr ⟨?_, fun _ => Or.inl ⟨hdone, hfinal⟩⟩
  intro hrefused
  omega

/-- The connection is closed behind the head of an upload to a file: the file is empty. -/
theorem not_all_uploads_atomic :
    ¬ ∀ (input rest : Bytes) (r : Request) (env : Env) (c start d : Client) (stream : BodyStream)
      (prior : Option Bytes) (seen : Bytes), Request.parseHeaders {} input = .ok (-1, r, rest) →
      c.request = some r → c.bodyStream = none → c.cgiProcess = none →
      checkHeaders env c = .ok (0, start) → start.getRequest.type = .static →
      start.bodyStream = some stream → Held start seen d →
        Atomic r seen start.bodyFileName prior d := by
  intro h
  have hrun : (Request.parseHeaders {} uploadHead).toOption.any (uploads fun _ start d =>
      d.bodyStatus = .ongoing ∧
        contentAfter start.bodyFileName (some [1]) d d.clear ≠ some [1]) = true := by
    decide +kernel
  obtain ⟨r, rest, start, stream, d, hparse, haccept, htype, hstream, hgo, hd⟩ :=
    uploads_sound hrun
  obtain ⟨hongoing, hchanged⟩ := of_decide_eq_true hd
  have hatomic := h _ _ r uploadEnv { ready r with buffer := rest } start d stream (some [1]) _
    hparse rfl rfl rfl haccept htype hstream (.begun hgo)
  exact hchanged ((hatomic d.clear (Or.inl rfl)).2 (Or.inr hongoing))

end Webserveau.Uploads
