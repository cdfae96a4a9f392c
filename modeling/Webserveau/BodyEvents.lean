import Webserveau.RefusedRequests
import Webserveau.RefusedUploads

/-!
Events in the course of a body, and after the answer 403.
A calm event brings bytes of the body or has the answer 100 written a bit further. Once the
response 403 is owed with the body behind it, no event changes it or has a file opened.
-/
namespace Webserveau.BodyEvents

open ByteStrings OrderedMaps Formats Requests Clients EventLoop Checks HeadSafety ParserFrames
  Transitions Intake Replies BodySegmentation BodyIntake ContentLength LoopSteps LoopInvariants
  RefusedUploads

/-- An event that takes nothing from the exchange: the connection is not hung up or closed,
nothing fails to be read or written, and the time has not run out. -/
def Calm : Event → Prop
  | .epoll event => event.hup = false ∧ event.incoming.getD [] ≠ [] ∧
    ∀ bytes, 0 ≤ event.written bytes
  | .timeOut expired _ => expired = false

/-- The bytes that an event brings to a client. -/
def arrived (c : Client) (event : Event) : Bytes :=
  if c.alive then Uploads.arrived c event else []

/-- The answers to the calls made while an event is handled. -/
def envOf : Event → Env
  | .epoll event => event.env
  | .timeOut _ env => env

/-- A body is read in mode `read` without a response, or the answer 100 is being written. -/
inductive Proceeds (c : Client) : Prop
  | reading : c.mode = .read → c.response = none → Proceeds c
  | continuing : c.mode = .write → (view c).response = some RES_CONTINUE →
      (view c).expect = CONTINUE → Proceeds c

/-- Between two reads only the headers and the output side change. -/
structure Between (c d : Client) : Prop where
  header : d.headerStatus = c.headerStatus
  body : d.bodyStatus = c.bodyStatus
  buffer : d.buffer = c.buffer
  stream : d.bodyStream = c.bodyStream
  process : d.cgiProcess = c.cgiProcess
  alive : d.alive = c.alive
  pages : errorPages d = errorPages c
  request : ∃ headers, d.getRequest = { c.getRequest with headers := headers }
  adds : Adds NoFile c d

theorem Between.refl (c : Client) : Between c c :=
  ⟨rfl, rfl, rfl, rfl, rfl, rfl, rfl, ⟨c.getRequest.headers, rfl⟩, Adds.of_eq rfl⟩

/-- The answer 100 is written until its last buffer is out, and reading goes on then. -/
theorem handleResponseOut_between (event : EpollEvent) {c : Client}
    (hwritten : ∀ bytes, 0 ≤ event.written bytes)
    (hresponse : (view c).response = some RES_CONTINUE) (hmode : c.mode = .write)
    (hexpect : (view c).expect = CONTINUE) :
    ∃ d, handleResponseOut event c = .ok (0, d) ∧ Between c d ∧ Proceeds d := by
  have hsome : ¬ c.response = none := by
    intro hnone
    have hview : (view c).response = none := by
      show c.response.map Response.getStatus = none
      rw [hnone]
      rfl
    rw [hview] at hresponse
    cases hresponse
  have hwrite : ∃ d, writeBuffer event.written c = some d ∧ Between c d ∧ d.mode = .write ∧
      view d = view c := by
    unfold writeBuffer
    split
    · exact ⟨c, rfl, Between.refl c, hmode, rfl⟩
    · rename_i front rest hbuffers
      rw [if_neg (by have := hwritten front; omega)]
      refine ⟨_, rfl, ⟨rfl, rfl, rfl, rfl, rfl, rfl, rfl, ⟨c.getRequest.headers, rfl⟩, ?_⟩, hmode,
        rfl⟩
      exact Adds.record rfl (by intro path h; cases h)
  obtain ⟨d, hd, hbetween, hmode', hview⟩ := hwrite
  unfold handleResponseOut handleClientOut
  rw [if_neg hsome, hd]
  dsimp only
  unfold afterWrite
  have hget : d.getRequest.getHeader (ascii "expect") = ascii "100-continue" := by
    have hsame : (view d).expect = CONTINUE := by rw [hview, hexpect]
    exact hsame
  have hstatus : d.response.map Response.getStatus = some RES_CONTINUE := by
    have hsame : (view d).response = some RES_CONTINUE := by rw [hview, hresponse]
    exact hsame
  split
  · rename_i situation e hpending
    split at hpending
    · cases hpending
      refine ⟨d, rfl, hbetween, .continuing hmode' ?_ ?_⟩
      · rw [hview, hresponse]
      · rw [hview, hexpect]
    · rw [if_pos ⟨hget, hstatus⟩] at hpending
      cases hpending
  · rename_i e hkeep
    split at hkeep
    · cases hkeep
    · rw [if_pos ⟨hget, hstatus⟩] at hkeep
      cases hkeep
  · rename_i e hcontinue
    split at hcontinue
    · cases hcontinue
    · rw [if_pos ⟨hget, hstatus⟩] at hcontinue
      cases hcontinue
      obtain ⟨headers, hrequest⟩ := hbetween.request
      refine ⟨_, rfl, ⟨hbetween.header, hbetween.body, hbetween.buffer, hbetween.stream,
        hbetween.process, hbetween.alive, hbetween.pages, ?_, ?_⟩, .reading rfl rfl⟩
      · refine ⟨headers.erase (ascii "expect"), ?_⟩
        show d.getRequest.removeHeader (ascii "expect") = _
        rw [hrequest]
        rfl
      · exact hbetween.adds.trans (Adds.of_eq rfl)
  · rename_i e hclose
    split at hclose
    · cases hclose
    · rw [if_pos ⟨hget, hstatus⟩] at hclose
      cases hclose

/-- A calm event in the course of a body changes nothing that matters, or brings bytes. -/
theorem step_calm {c : Client} (h : Reading c) (hproceeds : Proceeds c) {event : Event}
    (hcalm : Calm event) {e : Client} (hstep : step c event = .ok e) :
    arrived c event = [] ∧ Between c e ∧ Proceeds e ∨
      arrived c event ≠ [] ∧ c.mode = .read ∧ c.response = none ∧
        ∃ out, takeIn c (arrived c event) = .ok out ∧
          (0 ≤ (respondTo (envOf event) out).1 → e = (respondTo (envOf event) out).2) := by
  have harrived : arrived c event = Uploads.arrived c event := if_pos h.alive
  have hopen : ¬ c.bodyStatus ≠ .ongoing := not_not_intro h.body
  have hmode : c.mode ≠ .error := by
    cases hproceeds with
    | reading hmode =>
      rw [hmode]
      exact Mode.noConfusion
    | continuing hmode =>
      rw [hmode]
      exact Mode.noConfusion
  rw [harrived]
  unfold step at hstep
  rw [if_neg (by rw [h.alive]; exact Bool.noConfusion)] at hstep
  cases event with
  | timeOut expired env =>
    have hexpired : expired = false := hcalm
    have hsame : checkTO expired env c = c := by
      unfold checkTO
      rw [if_neg (by rw [hexpired]; exact fun hdue => Bool.noConfusion hdue.2)]
    dsimp only at hstep
    rw [hsame] at hstep
    cases hstep
    exact Or.inl ⟨rfl, Between.refl c, hproceeds⟩
  | epoll event =>
    obtain ⟨hup, hincoming, hwritten⟩ := hcalm
    have hgone : ¬ (event.hup = true ∨ c.mode = .error) := by
      rw [hup]
      intro hgone
      rcases hgone with hgone | hgone
      · cases hgone
      · exact hmode hgone
    dsimp only at hstep
    unfold handleEpoll handleClientEvent at hstep
    unfold Uploads.arrived
    dsimp only
    rw [if_neg hgone] at hstep
    by_cases hin : event.epollin ∧ (c.mode = .read ∨ c.bodyStatus ≠ .ongoing)
    · rw [if_pos ⟨hgone, hin⟩]
      rw [if_pos hin] at hstep
      have hread : c.mode = .read := hin.2.resolve_right hopen
      refine Or.inr ⟨hincoming, hread, ?_, ?_⟩
      · cases hproceeds with
        | reading _ hresponse => exact hresponse
        | continuing hwrite =>
          rw [hwrite] at hread
          cases hread
      · cases hbytes : event.incoming with
        | none => exact absurd (by rw [hbytes]; rfl) hincoming
        | some bytes =>
          have hne : bytes ≠ [] := by
            rw [hbytes] at hincoming
            exact hincoming
          unfold handleReadable handleClientIn at hstep
          rw [hbytes] at hstep
          dsimp only at hstep
          rw [if_neg hne, receive_takeIn event.env h bytes] at hstep
          show ∃ out, takeIn c bytes = .ok out ∧
            (0 ≤ (respondTo event.env out).1 → e = (respondTo event.env out).2)
          cases hout : takeIn c bytes with
          | error err =>
            rw [hout] at hstep
            cases hstep
          | ok out =>
            rw [hout] at hstep
            refine ⟨out, rfl, ?_⟩
            intro hpos
            simp only [bind, Except.bind, pure, Except.pure] at hstep
            rw [if_neg (by omega)] at hstep
            exact (Except.ok.inj hstep).symm
    · rw [if_neg (fun hread => hin hread.2)]
      rw [if_neg hin] at hstep
      refine Or.inl ⟨rfl, ?_⟩
      by_cases hout : event.epollout ∧ c.mode = .write
      · rw [if_pos hout] at hstep
        cases hproceeds with
        | reading hread =>
          rw [hread] at hout
          cases hout.2
        | continuing hwrite hresponse hexpect =>
          obtain ⟨d, hd, hbetween⟩ :=
            handleResponseOut_between event hwritten hresponse hwrite hexpect
          unfold handleWritable handleCGIProcess at hstep
          rw [h.process] at hstep
          simp only [bind, Except.bind, pure, Except.pure, ne_eq, not_true_eq_false, if_false,
            hd, Int.lt_irrefl] at hstep
          cases hstep
          exact hbetween
      · rw [if_neg hout] at hstep
        cases hstep
        exact ⟨Between.refl c, hproceeds⟩

/-- A client that owes the response 403 and gets no other request. -/
structure Closing (c : Client) : Prop where
  response : (view c).response = some RES_FORBIDDEN
  header : (view c).header = .done
  body : (view c).body ≠ .ongoing
  cgi : (view c).cgi = none
  mode : (view c).mode = .write
  connection : (view c).connection = ascii "close"

theorem noFile_of_quiet {c d : Client} (h : Adds Quiet c d) : Adds NoFile c d := by
  refine h.mono ?_
  intro a ha path hopened
  subst hopened
  exact ha.1 trivial

theorem terminate_noFile (c : Client) : Adds NoFile c c.terminate := by
  refine (terminate_adds c).mono ?_
  intro a ha path hopened
  subst hopened
  rcases ha with ha | ha
  · rcases ha with ⟨_, ha⟩ | ⟨_, -, ha⟩
    · cases ha
    · cases ha
  · cases ha

/-- Whatever happens to it, such a client owes the response until it is closed. -/
theorem step_closing {c e : Client} (h : c.alive = true → Closing c) {event : Event}
    (hstep : step c event = .ok e) :
    (e.alive = true → Closing e) ∧ Adds NoFile c e := by
  have hsame : ∀ d : Client, view d = view c → d.trace = c.trace → d.alive = c.alive →
      (d.alive = true → Closing d) ∧ Adds NoFile c d := by
    intro d hview htrace halive
    refine ⟨?_, Adds.of_eq htrace⟩
    intro hd
    rw [halive] at hd
    obtain ⟨hresponse, hheader, hbody, hcgi, hmode, hconnection⟩ := h hd
    rw [← hview] at hresponse hheader hbody hcgi hmode hconnection
    exact ⟨hresponse, hheader, hbody, hcgi, hmode, hconnection⟩
  have hclosed : ∀ d : Client, Adds NoFile c d →
      (d.terminate.alive = true → Closing d.terminate) ∧ Adds NoFile c d.terminate := by
    intro d hadds
    refine ⟨?_, hadds.trans (terminate_noFile d)⟩
    intro halive
    cases halive
  unfold step at hstep
  split at hstep
  · cases hstep
    exact hsame c rfl rfl rfl
  · rename_i halive
    have hc := h (by simpa using halive)
    cases event with
    | timeOut expired env =>
      have hkept : checkTO expired env c = c := by
        unfold checkTO
        rw [if_neg]
        intro hdue
        have hwrite : c.mode = .write := hc.mode
        rw [hwrite] at hdue
        cases hdue.1
      dsimp only at hstep
      rw [hkept] at hstep
      cases hstep
      exact hsame c rfl rfl rfl
    | epoll event =>
      have hidle : Idle c := by
        constructor
        · intro hongoing
          have hheader : c.headerStatus = .done := hc.header
          rw [hheader] at hongoing
          cases hongoing
        · exact fun hbusy => hc.body hbusy.2
      dsimp only at hstep
      unfold handleEpoll handleClientEvent at hstep
      split at hstep
      · cases hstep
        exact hclosed c (Adds.of_eq rfl)
      · split at hstep
        · unfold handleReadable at hstep
          cases hread : handleClientIn event c with
          | error err =>
            rw [hread] at hstep
            cases hstep
          | ok out =>
            rw [hread] at hstep
            rcases handleClientIn_received event c out hread with rfl | ⟨hreceived, hquiet⟩
            · cases hstep
              exact hclosed c (Adds.of_eq rfl)
            · obtain ⟨hzero, hview, htrace⟩ := hquiet hidle
              obtain ⟨res, d⟩ := out
              dsimp only at hzero hview htrace
              subst hzero
              simp only [bind, Except.bind, pure, Except.pure, respondTo_zero,
                Int.lt_irrefl, if_false] at hstep
              cases hstep
              exact hsame _ hview htrace hreceived.alive_eq
        · split at hstep
          · have hprocess : c.cgiProcess = none := by
              have hcgi : c.cgiProcess.map CGIProcess.output = none := hc.cgi
              simpa using hcgi
            have hsome : ¬ c.response = none := by
              intro hnone
              have hresponse : c.response.map Response.getStatus = some RES_FORBIDDEN :=
                hc.response
              rw [hnone] at hresponse
              cases hresponse
            obtain ⟨hwritten, hadds, hkept⟩ := handleClientOut_written event.written c
            unfold handleWritable handleCGIProcess at hstep
            rw [hprocess] at hstep
            simp only [bind, Except.bind, pure, Except.pure, ne_eq, not_true_eq_false,
              if_false] at hstep
            unfold handleResponseOut at hstep
            rw [if_neg hsome] at hstep
            cases hout : handleClientOut event.written c with
            | mk situation d =>
              rw [hout] at hwritten hadds hkept hstep
              dsimp only at hwritten hadds hkept hstep
              cases hwritten with
              | pending hview =>
                cases hstep
                refine ⟨?_, noFile_of_quiet hadds⟩
                intro _
                obtain ⟨hresponse, hheader, hbody, hcgi, hmode, hconnection⟩ := hc
                rw [← hview] at hresponse hheader hbody hcgi hmode hconnection
                exact ⟨hresponse, hheader, hbody, hcgi, hmode, hconnection⟩
              | close =>
                cases hstep
                exact hclosed _ (noFile_of_quiet hadds)
              | keepAlive _ hkeep => exact absurd hc.connection hkeep
              | proceed _ hresponse =>
                rw [hc.response] at hresponse
                cases hresponse
          · cases hstep
            exact hsame c rfl rfl rfl

/-- From here on the response of the client is 403, until it is closed, and no file has been
created or truncated since `c`. -/
def Refused (c d : Client) : Prop :=
  ∀ events e, Reaches step (fun _ _ => True) d events e →
    Adds NoFile c e ∧ (e.alive = true → (view e).response = some RES_FORBIDDEN)

theorem refused_of_closing {c d : Client} (hadds : Adds NoFile c d) (h : Closing d) :
    Refused c d := by
  intro events e hreaches
  have hinv := Reaches.invariant
    (I := fun e => Adds NoFile c e ∧ (e.alive = true → Closing e)) ⟨hadds, fun _ => h⟩ ?_ hreaches
  · exact ⟨hinv.1, fun halive => (hinv.2 halive).response⟩
  · intro s event hs _ t hstep
    obtain ⟨hclosing, hmore⟩ := step_closing hs.2 hstep
    exact ⟨hs.1.trans hmore, hclosing⟩

theorem Refused.response {c d : Client} (h : Refused c d) (halive : d.alive = true) :
    (view d).response = some RES_FORBIDDEN := (h [] d .nil).2 halive

end Webserveau.BodyEvents
