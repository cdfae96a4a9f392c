import Webserveau.LoopSteps

/-!
Requests that were answered with an error.
An owed error response closes the connection once it is written. Until then bytes are
still read, and they are ignored as long as the head of the refused request is complete;
a head that was cut short by its own error goes on being parsed, and may be executed.
-/
namespace Webserveau.RefusedRequests

open ByteStrings OrderedMaps Formats Requests Clients EventLoop Checks Transitions Intake
  Replies LoopInvariants LoopSteps

/-- An error response is owed. -/
def ErrorPending (v : View) : Prop := ∃ status, v.response = some status ∧ 400 ≤ status

/-- No process under an error response belongs to a request that waits for the answer 100. -/
def Unexpected (v : View) : Prop := ErrorPending v → v.cgi ≠ none → v.expect ≠ CONTINUE

/-- No bytes are read for an incomplete head while an error response is owed. -/
def Calm (c : Client) : Event → Prop
  | .epoll event => Readable c event → ErrorPending (view c) → c.headerStatus = .ongoing →
    event.incoming.getD [] = []
  | .timeOut _ _ => True

/-- A process that was running ends with a redirection that the server follows itself. -/
def Redirects (c : Client) (event : EpollEvent) : Prop :=
  EndsWell c event ∧
    ∃ r, c.getRequest.parseCgiHeaders event.output = .ok (.localRedirect, r)

/-- Nothing is executed in a step, but the redirection of a process that was running. -/
def Harmless (c : Client) : Event → Action → Prop
  | .epoll event, a =>
    Executes a → ¬ Readable c event ∧ Redirects c event ∧ ∃ name, a = .spawned name
  | .timeOut _ _, a => ¬ Executes a

theorem unexpected_of_no_process {v : View} (h : v.cgi = none) : Unexpected v := by
  intro _ hne
  exact absurd h hne

theorem unexpected_of_no_error {v : View} (h : ¬ ErrorPending v) : Unexpected v := by
  intro hpending
  exact absurd hpending h

theorem ErrorPending.owed {v : View} (h : ErrorPending v) : v.response ≠ none := by
  obtain ⟨status, hstatus, -⟩ := h
  rw [hstatus]
  exact Option.some_ne_none _

theorem ErrorPending.close {v : View} (hsound : Sound v) (h : ErrorPending v) :
    v.connection = ascii "close" := by
  obtain ⟨status, hstatus, herror⟩ := h
  exact hsound.closing status hstatus herror

theorem generateResponse_owed (env : Env) {c : Client} (status : ℤ)
    (h : (view c).response ≠ none) : generateResponse env c status = (0, c) := by
  have hsome : c.response.isSome = true := by
    cases hresponse : c.response with
    | none =>
      refine absurd ?_ h
      show c.response.map Response.getStatus = none
      rw [hresponse]
      rfl
    | some response => rfl
  rw [generateResponse, if_pos hsome]

theorem releases_idle {v : View} {a : Action} (h : Releases v a) : ¬ Executes a := by
  rcases h with ⟨path, rfl⟩ | ⟨name, -, rfl⟩
  · exact fun h => h
  · exact fun h => h

/-- A part of a step that leaves the owed response, and executes nothing on its own. -/
structure Kept (redirects : Prop) (c c' : Client) : Prop where
  response_eq : (view c').response = (view c).response
  unexpected : (view c').cgi ≠ none → (view c').expect ≠ CONTINUE
  adds : Adds (fun a => Executes a → redirects ∧ ∃ name, a = .spawned name) c c'
  alive_eq : c'.alive = c.alive

theorem deleteCGIProcess_kept (redirects : Prop) (c : Client) :
    Kept redirects c c.deleteCGIProcess where
  response_eq := by rw [deleteCGIProcess_view]
  unexpected := by
    intro hne
    rw [deleteCGIProcess_view] at hne
    exact absurd rfl hne
  adds := (deleteCGIProcess_adds c).mono fun _ ha h => absurd h (releases_idle ha)
  alive_eq := deleteCGIProcess_alive c

theorem Kept.of_view {redirects : Prop} {c d c' : Client} (hview : view d = view c)
    (htrace : d.trace = c.trace) (halive : d.alive = c.alive) (h : Kept redirects d c') :
    Kept redirects c c' where
  response_eq := by rw [h.response_eq, hview]
  unexpected := h.unexpected
  adds := (Adds.of_eq htrace).trans h.adds
  alive_eq := h.alive_eq.trans halive

/-- A redirected request is checked again under the owed response. -/
theorem followRedirect_kept (env : Env) {c : Client} (howed : (view c).response ≠ none)
    (hexpect : (view c).expect ≠ CONTINUE) (hredir : c.getRequest.resHints.cgiRedir ≠ .none) :
    Ends (followRedirect env c) fun out => Kept True c out.2 := by
  have hview := deleteCGIProcess_view c
  have hkept := deleteCGIProcess_kept True c
  have haccepts : ∀ d, Accepted c.deleteCGIProcess 0 d →
      Kept True c d ∧ (view d).cgi = none ∧ (view d).expect = (view c).expect := by
    intro d haccepted
    obtain ⟨body, type, path, hviewd⟩ := haccepted.settled
    have hexpect' : (view c.deleteCGIProcess).expect ≠ CONTINUE := by
      rw [hview]
      exact hexpect
    rw [if_neg hexpect', hview] at hviewd
    have hcgi : (view d).cgi = none := by rw [hviewd]
    refine ⟨⟨by rw [hviewd], fun hne => absurd hcgi hne, ?_,
      haccepted.alive_eq.trans hkept.alive_eq⟩, hcgi, by rw [hviewd]⟩
    refine hkept.adds.trans (haccepted.adds.mono ?_)
    intro a ha hexecutes
    exact absurd (ha.2 hexecutes) (deleteCGIProcess_redir hredir)
  refine followRedirect_ends env ?_ ?_ ?_ ?_
  · intro res d hrefused
    obtain ⟨body, type, path, expect, hviewd⟩ := hrefused.settled
    rw [hview] at hviewd
    have hcgi : (view d).cgi = none := by rw [hviewd]
    rw [generateResponse_owed env res (by rw [hviewd]; exact howed)]
    exact ⟨by rw [hviewd], fun hne => absurd hcgi hne,
      hkept.adds.trans (Adds.of_eq hrefused.trace_eq),
      hrefused.alive_eq.trans hkept.alive_eq⟩
  · intro d haccepted
    obtain ⟨hkeptd, -, -⟩ := haccepts d haccepted
    rw [generateResponse_owed env 0 (by rw [hkeptd.response_eq]; exact howed)]
    exact hkeptd
  · intro d e haccepted _ hstarted
    obtain ⟨hkeptd, -, hexpectd⟩ := haccepts d haccepted
    cases hstarted with
    | started name hviewe htrace halive =>
      refine ⟨by rw [hviewe, ← hkeptd.response_eq], ?_, hkeptd.adds.trans ⟨_, htrace, ?_⟩,
        halive.trans hkeptd.alive_eq⟩
      · intro _
        rw [hviewe]
        show (view d).expect ≠ CONTINUE
        rwa [hexpectd]
      · intro a ha _
        exact ⟨trivial, name, List.mem_singleton.mp ha⟩
  · intro d e haccepted _ hstarted
    obtain ⟨hkeptd, -, -⟩ := haccepts d haccepted
    cases hstarted with
    | failed name hviewe htrace halive =>
      have hcgi : (view e).cgi = none := by rw [hviewe]
      have hsame : (view e).response = (view d).response := by rw [hviewe]
      have howede : (view e).response ≠ none := by
        rw [hsame, hkeptd.response_eq]
        exact howed
      rw [generateResponse_owed env _ howede]
      refine ⟨hsame.trans hkeptd.response_eq, fun hne => absurd hcgi hne,
        hkeptd.adds.trans ⟨_, htrace, ?_⟩, halive.trans hkeptd.alive_eq⟩
      intro a ha hexecutes
      rw [List.mem_singleton.mp ha] at hexecutes
      exact hexecutes.elim

theorem Kept.weaken {redirects redirects' : Prop} {c c' : Client} (h : Kept redirects c c')
    (himp : redirects → redirects') : Kept redirects' c c' where
  response_eq := h.response_eq
  unexpected := h.unexpected
  adds := by
    refine h.adds.mono ?_
    intro a ha hexecutes
    obtain ⟨hredirects, hspawned⟩ := ha hexecutes
    exact ⟨himp hredirects, hspawned⟩
  alive_eq := h.alive_eq

/-- A process that ends under an owed response is removed, whatever it says. -/
theorem finishCGI_kept (event : EpollEvent) {c : Client} (howed : (view c).response ≠ none)
    (hexpect : (view c).expect ≠ CONTINUE) :
    Ends (finishCGI event c) fun out =>
      Kept (∃ r, c.getRequest.parseCgiHeaders event.output = .ok (.localRedirect, r)) c out.2 := by
  unfold finishCGI
  refine Ends.bind (P := fun out : CgiRes × Request =>
    c.getRequest.parseCgiHeaders event.output = .ok out) (fun _ h => h) ?_
  intro out hparse
  obtain ⟨verdict, r⟩ := out
  have hview := withVerdict_view verdict (parseCgiHeaders_keeps _ _ _ hparse)
  have howed' : (view (withVerdict c verdict r)).response ≠ none := by
    rw [hview]
    exact howed
  have hdeleted := Kept.of_view hview rfl rfl (deleteCGIProcess_kept
    (∃ r, c.getRequest.parseCgiHeaders event.output = .ok (.localRedirect, r))
    (withVerdict c verdict r))
  have howed'' : (view (withVerdict c verdict r).deleteCGIProcess).response ≠ none := by
    rw [hdeleted.response_eq]
    exact howed
  cases verdict with
  | error =>
    dsimp only [cgiUnavailable]
    rw [generateResponse_owed _ _ howed'']
    exact ends_pure.mpr hdeleted
  | none => exact ends_pure.mpr hdeleted
  | doc =>
    dsimp only [serveDocument]
    rw [generateResponse_owed _ _ howed']
    exact ends_pure.mpr hdeleted
  | clientRedirect =>
    dsimp only [serveDocument]
    rw [generateResponse_owed _ _ howed']
    exact ends_pure.mpr hdeleted
  | localRedirect =>
    refine (followRedirect_kept event.env howed' ?_ ?_).mono ?_
    · rw [hview]
      exact hexpect
    · intro h
      cases h
    · intro out hkept
      exact (Kept.of_view hview rfl rfl hkept).weaken fun _ => ⟨r, hparse⟩

theorem handleCGIProcess_kept (event : EpollEvent) {c : Client}
    (howed : (view c).response ≠ none)
    (hunexpected : (view c).cgi ≠ none → (view c).expect ≠ CONTINUE) :
    Ends (handleCGIProcess event c) fun out => Kept (Redirects c event) c out.2 := by
  refine handleCGIProcess_ends event ?_ ?_ ?_
  · intro d hd
    refine Kept.of_view hd.view_eq hd.trace_eq hd.alive_eq ⟨rfl, ?_, Adds.of_eq rfl, rfl⟩
    rwa [hd.view_eq]
  · intro d hd _
    have hdeleted := Kept.of_view hd.view_eq hd.trace_eq hd.alive_eq
      (deleteCGIProcess_kept (Redirects c event) d)
    unfold cgiUnavailable
    rw [generateResponse_owed]
    · exact hdeleted
    · rw [hdeleted.response_eq]
      exact howed
  · intro d hd hcgi hends
    refine (finishCGI_kept event (by rwa [hd.view_eq]) ?_).mono ?_
    · rw [hd.view_eq]
      exact hunexpected hcgi
    · intro out hkept
      refine (Kept.of_view hd.view_eq hd.trace_eq hd.alive_eq hkept).weaken ?_
      rw [hd.request_eq]
      exact fun hparse => ⟨hends, hparse⟩

theorem terminate_unexpected (c : Client) : Unexpected (view c.terminate) := by
  refine unexpected_of_no_process ?_
  show (view c.clear).cgi = none
  rw [clear_view]
  rfl

theorem generateResponse_unexpected (env : Env) {c : Client} (status : ℤ)
    (hsound : Sound (view c)) (hcgi : (view c).cgi = none) :
    Unexpected (view (generateResponse env c status).2) := by
  refine unexpected_of_no_process ?_
  rw [(generateResponse_answered env status hsound).2.cgi_eq]
  exact hcgi

/-- A process that is started while no error is owed, or the report that it was not. -/
theorem startProcess_unexpected (env : Env) {c d : Client} {res : ℤ} (hsound : Sound (view c))
    (hclear : ¬ ErrorPending (view c)) (h : Started c res d) :
    (res = 0 → Unexpected (view d)) ∧
      (res ≠ 0 → Unexpected (view (generateResponse env d RES_INTERNAL_ERROR).2)) := by
  cases h with
  | started name hview htrace halive =>
    constructor
    · intro _
      refine unexpected_of_no_error ?_
      rw [hview]
      exact hclear
    · intro hne
      exact absurd rfl hne
  | failed name hview htrace halive =>
    constructor
    · intro hzero
      cases hzero
    · intro _
      refine generateResponse_unexpected env _ ?_ (by rw [hview])
      rw [hview]
      exact ⟨hsound.replying, fun h => absurd rfl h, fun _ h => absurd rfl h, hsound.closing⟩

theorem respondTo_unexpected (env : Env) {c : Client} {res : ℤ} (hsound : Sound (view c))
    (hclear : ¬ ErrorPending (view c)) (hcgi : (view c).cgi = none) :
    Unexpected (view (respondTo env (res, c)).2) := by
  unfold respondTo handleClientResponse
  dsimp only
  split
  · split
    · exact generateResponse_unexpected env res hsound hcgi
    · have hstarted := generateCGIProcess_started env c
      cases hout : generateCGIProcess env c with
      | mk res' d =>
        rw [hout] at hstarted
        obtain ⟨hgood, hbad⟩ := startProcess_unexpected env hsound hclear hstarted
        dsimp only
        split
        · rename_i hne
          exact hbad hne
        · rename_i hzero
          exact hgood (not_not.mp hzero)
  · exact unexpected_of_no_process hcgi

/-- Reading adds no error to the responses that are owed. -/
theorem received_clear {c d : Client} {res : ℤ} (h : Received c res d)
    (hclear : ¬ ErrorPending (view c)) : ¬ ErrorPending (view d) := by
  intro ⟨status, hstatus, herror⟩
  rcases h.reply with ⟨-, hsame⟩ | ⟨-, hcontinue⟩
  · rw [hsame] at hstatus
    exact hclear ⟨status, hstatus, herror⟩
  · rw [hcontinue, Option.some.injEq] at hstatus
    omega

theorem taken_unexpected (env : Env) {c d : Client} {res : ℤ} (hsound : Sound (view c))
    (hclear : ¬ ErrorPending (view c)) (h : Received c res d)
    (hidle : Idle c → res = 0 ∧ view d = view c ∧ d.trace = c.trace) :
    Unexpected (view (respondTo env (res, d)).2) := by
  by_cases hcgi : (view c).cgi = none
  · have hmoves : Moves True True c d := Moves.received hsound h hidle
    exact respondTo_unexpected env hmoves.sound (received_clear h hclear)
      (h.cgi_eq.trans hcgi)
  · obtain ⟨hzero, hview, -⟩ := hidle (hsound.idle hcgi)
    subst hzero
    show Unexpected (view d)
    rw [hview]
    exact unexpected_of_no_error hclear

theorem handleReadable_unexpected (event : EpollEvent) {c : Client} (hsound : Sound (view c))
    (hclear : ¬ ErrorPending (view c)) :
    Ends (handleReadable event c) fun out => Unexpected (view out.2) := by
  unfold handleReadable
  refine Ends.bind (handleClientIn_received event c) ?_
  intro out hout
  refine ends_pure.mpr ?_
  rcases hout with rfl | ⟨hreceived, hidle⟩
  · exact unexpected_of_no_error hclear
  · exact taken_unexpected event.env hsound hclear hreceived hidle

theorem keepAlive_unexpected (env : Env) (c : Client) :
    Ends (keepAlive env c) fun out => Unexpected (view out.2) := by
  have hview : view (c.clear.setMode .read) = fresh .read := by
    show ({ view c.clear with mode := .read } : View) = _
    rw [clear_view]
    rfl
  have hclear : ¬ ErrorPending (view (c.clear.setMode .read)) := by
    rw [hview]
    intro hpending
    exact hpending.owed rfl
  unfold keepAlive
  refine Ends.bind (receive_received env _ []) ?_
  intro out hout
  refine ends_pure.mpr (taken_unexpected env ?_ hclear hout.1 hout.2)
  rw [hview]
  exact fresh_sound .read

theorem handleResponseOut_unexpected (event : EpollEvent) {c : Client}
    (h : Unexpected (view c)) :
    Ends (handleResponseOut event c) fun out => Unexpected (view out.2) := by
  unfold handleResponseOut
  split
  · exact ends_ok.mpr h
  · obtain ⟨hwritten, -, -⟩ := handleClientOut_written event.written c
    split
    · rename_i d hout
      rw [hout] at hwritten
      cases hwritten with
      | pending hview _ =>
        refine ends_ok.mpr ?_
        rw [hview]
        exact h
    · rename_i d hout
      exact keepAlive_unexpected event.next d
    · rename_i d hout
      refine ends_ok.mpr (unexpected_of_no_error ?_)
      intro hpending
      exact hpending.owed rfl
    · exact ends_ok.mpr (terminate_unexpected _)

theorem accepted_clear {c d : Client} (hclear : ¬ ErrorPending (view c)) (h : Accepted c 0 d) :
    ¬ ErrorPending (view d) := by
  obtain ⟨body, type, path, hview⟩ := h.settled
  intro ⟨status, hstatus, herror⟩
  rw [hview] at hstatus
  split at hstatus
  · have hcontinue : 100 = status := Option.some.inj hstatus
    omega
  · exact hclear ⟨status, hstatus, herror⟩

theorem followRedirect_unexpected (env : Env) {c : Client} (hsound : Sound (view c))
    (hclear : ¬ ErrorPending (view c)) :
    Ends (followRedirect env c) fun out => Unexpected (view out.2) := by
  have hview := deleteCGIProcess_view c
  have hsound' := deleteCGIProcess_sound hsound
  have hcgi : (view c.deleteCGIProcess).cgi = none := by rw [hview]
  have hclear' : ¬ ErrorPending (view c.deleteCGIProcess) := by
    rw [hview]
    exact hclear
  refine followRedirect_ends env ?_ ?_ ?_ ?_
  · intro res d hrefused
    obtain ⟨hsoundd, hcgid⟩ := refused_sound hsound' hcgi hrefused
    exact generateResponse_unexpected env res hsoundd hcgid
  · intro d haccepted
    obtain ⟨hsoundd, hcgid, -⟩ := accepted_sound hsound' hcgi haccepted
    exact generateResponse_unexpected env 0 hsoundd hcgid
  · intro d e haccepted _ hstarted
    obtain ⟨hsoundd, -, -⟩ := accepted_sound hsound' hcgi haccepted
    exact (startProcess_unexpected env hsoundd (accepted_clear hclear' haccepted) hstarted).1 rfl
  · intro d e haccepted _ hstarted
    obtain ⟨hsoundd, -, -⟩ := accepted_sound hsound' hcgi haccepted
    exact (startProcess_unexpected env hsoundd (accepted_clear hclear' haccepted) hstarted).2
      (by decide)

theorem deleteCGIProcess_unexpected (c : Client) : Unexpected (view c.deleteCGIProcess) := by
  refine unexpected_of_no_process ?_
  rw [deleteCGIProcess_view]

theorem cgiUnavailable_unexpected (env : Env) {c : Client} (hsound : Sound (view c)) :
    Unexpected (view (cgiUnavailable env c).2) := by
  refine generateResponse_unexpected env _ (deleteCGIProcess_sound hsound) ?_
  rw [deleteCGIProcess_view]

theorem handleCGIProcess_unexpected (event : EpollEvent) {c : Client} (hsound : Sound (view c))
    (hclear : ¬ ErrorPending (view c)) :
    Ends (handleCGIProcess event c) fun out => Unexpected (view out.2) := by
  refine handleCGIProcess_ends event ?_ ?_ ?_
  · intro d hd
    rw [hd.view_eq]
    exact unexpected_of_no_error hclear
  · intro d hd _
    refine cgiUnavailable_unexpected event.env ?_
    rwa [hd.view_eq]
  · intro d hd _ _
    unfold finishCGI
    refine Ends.bind (P := fun out : CgiRes × Request =>
      d.getRequest.parseCgiHeaders event.output = .ok out) (fun _ h => h) ?_
    intro out hparse
    obtain ⟨verdict, r⟩ := out
    have hview : view (withVerdict d verdict r) = view c :=
      (withVerdict_view verdict (parseCgiHeaders_keeps _ _ _ hparse)).trans hd.view_eq
    cases verdict with
    | error =>
      refine ends_pure.mpr (cgiUnavailable_unexpected event.env ?_)
      rwa [hview]
    | none => exact ends_pure.mpr (deleteCGIProcess_unexpected _)
    | doc => exact ends_pure.mpr (deleteCGIProcess_unexpected _)
    | clientRedirect => exact ends_pure.mpr (deleteCGIProcess_unexpected _)
    | localRedirect =>
      exact followRedirect_unexpected event.env (by rwa [hview]) (by rwa [hview])

theorem handleWritable_unexpected (event : EpollEvent) {c : Client} (hsound : Sound (view c))
    (hclear : ¬ ErrorPending (view c)) :
    Ends (handleWritable event c) fun out => Unexpected (view out.2) := by
  unfold handleWritable
  refine Ends.bind (handleCGIProcess_unexpected event hsound hclear) ?_
  intro out hout
  dsimp only
  split
  · exact ends_pure.mpr hout
  · exact handleResponseOut_unexpected event hout

theorem handleEpoll_unexpected (event : EpollEvent) {c : Client} (hsound : Sound (view c))
    (hclear : ¬ ErrorPending (view c)) :
    Ends (handleEpoll event c) fun c' => Unexpected (view c') := by
  unfold handleEpoll
  refine Ends.bind (P := fun out : ℤ × Client => Unexpected (view out.2)) ?_ ?_
  · unfold handleClientEvent
    split
    · exact ends_ok.mpr (terminate_unexpected c)
    · split
      · exact handleReadable_unexpected event hsound hclear
      · split
        · exact handleWritable_unexpected event hsound hclear
        · exact ends_ok.mpr (unexpected_of_no_error hclear)
  · intro out hout
    dsimp only
    split
    · exact ends_pure.mpr (terminate_unexpected _)
    · exact ends_pure.mpr hout

/-- The time runs out under a process only after the answer 100 has been written. -/
theorem checkTO_unexpected (expired : Bool) (env : Env) {c : Client} (hsound : Sound (view c))
    (h : Unexpected (view c)) : Unexpected (view (checkTO expired env c)) := by
  unfold checkTO
  split
  · rename_i hexpired
    split
    · exact terminate_unexpected c
    · rename_i request hrequest
      dsimp only
      have hget : c.getRequest = request := by
        rw [Client.getRequest, hrequest]
        rfl
      have hview : view ((c.setMode .write).setRequest
          ((request.setStatus .complete).fillError 408 []).2) = { view c with mode := .write } := by
        rw [view_setRequest]
        · rfl
        · show SameView c.getRequest _
          rw [hget]
          exact ⟨rfl, rfl, rfl, rfl, rfl⟩
      rcases generateResponse_cases env ((c.setMode .write).setRequest
          ((request.setStatus .complete).fillError 408 []).2) RES_TIMEOUT with ⟨-, hout⟩ |
        ⟨-, final, c', hout, hresponds, -⟩
      · rw [hout, hview]
        intro _ hne
        exact hsound.reading hexpired.1 hne
      · obtain ⟨path, connection, hviewc, -⟩ := hresponds.settled
        rw [hout, hviewc, hview]
        intro _ hne
        exact hsound.reading hexpired.1 hne
  · exact h

/-- What a step makes of a client that owes an error response. -/
structure Closing (c : Client) (event : Event) (c' : Client) : Prop where
  pending : c'.alive = true → ErrorPending (view c')
  unexpected : Unexpected (view c')
  adds : Adds (Harmless c event) c c'

theorem harmless_of_idle {c : Client} {a : Action} (event : Event) (h : ¬ Executes a) :
    Harmless c event a := by
  cases event with
  | epoll event => exact fun hexecutes => absurd hexecutes h
  | timeOut expired env => exact h

theorem Closing.terminate {c d : Client} {event : Event} (h : Adds (Harmless c event) c d) :
    Closing c event d.terminate where
  pending := by
    intro halive
    cases halive
  unexpected := terminate_unexpected d
  adds := by
    refine h.trans ((terminate_adds d).mono ?_)
    intro a ha
    refine harmless_of_idle event ?_
    rcases ha with ha | rfl
    · exact releases_idle ha
    · exact fun h => h

theorem Closing.of_same {c d : Client} {event : Event} (hpending : ErrorPending (view d))
    (hunexpected : Unexpected (view d)) (hadds : Adds (Harmless c event) c d) :
    Closing c event d := ⟨fun _ => hpending, hunexpected, hadds⟩

/-- Bytes that are read for a complete head under an owed response wait in the buffer. -/
theorem handleReadable_closing (event : EpollEvent) {c : Client} (hpending : ErrorPending (view c))
    (hunexpected : Unexpected (view c)) (hquiet : ¬ Idle c → event.incoming.getD [] = []) :
    Ends (handleReadable event c) fun out => Closing c (.epoll event) out.2 := by
  have hread : Ends (handleClientIn event c) fun out => out = (-1, c) ∨
      out.1 = 0 ∧ view out.2 = view c ∧ out.2.trace = c.trace := by
    by_cases hidle : Idle c
    · refine (handleClientIn_received event c).mono ?_
      intro out hout
      rcases hout with hclosed | ⟨-, hkept⟩
      · exact Or.inl hclosed
      · exact Or.inr (hkept hidle)
    · have hempty := hquiet hidle
      unfold handleClientIn
      split
      · exact ends_ok.mpr (Or.inl rfl)
      · rename_i bytes hbytes
        rw [hbytes] at hempty
        have hnone : bytes = [] := hempty
        rw [if_pos hnone]
        exact ends_ok.mpr (Or.inl rfl)
  unfold handleReadable
  refine Ends.bind hread ?_
  intro out hout
  obtain ⟨res, d⟩ := out
  refine ends_pure.mpr ?_
  rcases hout with hclosed | ⟨hzero, hview, htrace⟩
  · obtain ⟨rfl, rfl⟩ := Prod.mk.inj hclosed
    exact Closing.of_same hpending hunexpected (Adds.of_eq rfl)
  · dsimp only at hzero hview htrace
    subst hzero
    show Closing c (.epoll event) d
    rw [← hview] at hpending hunexpected
    exact Closing.of_same hpending hunexpected (Adds.of_eq htrace)

/-- The owed response is written, and the connection closed after its last byte. -/
theorem handleResponseOut_closing (event : EpollEvent) {c d : Client} (hsound : Sound (view d))
    (hpending : ErrorPending (view d)) (hunexpected : Unexpected (view d))
    (hadds : Adds (Harmless c (.epoll event)) c d) :
    Ends (handleResponseOut event d) fun out => Closing c (.epoll event) out.2 := by
  unfold handleResponseOut
  split
  · exact ends_ok.mpr (Closing.of_same hpending hunexpected hadds)
  · obtain ⟨hwritten, hquiet, -⟩ := handleClientOut_written event.written d
    have hadds' : Adds (Harmless c (.epoll event)) c (handleClientOut event.written d).2 :=
      hadds.trans (hquiet.mono fun a ha => harmless_of_idle _ ha.1)
    split
    · rename_i e hout
      rw [hout] at hwritten hadds'
      cases hwritten with
      | pending hview _ =>
        dsimp only at hview
        rw [← hview] at hpending hunexpected
        exact ends_ok.mpr (Closing.of_same hpending hunexpected hadds')
    · rename_i e hout
      rw [hout] at hwritten
      cases hwritten with
      | keepAlive _ hclose => exact absurd (hpending.close hsound) hclose
    · rename_i e hout
      rw [hout] at hwritten
      cases hwritten with
      | proceed _ hresponse _ =>
        obtain ⟨status, hstatus, herror⟩ := hpending
        rw [hresponse, Option.some.injEq] at hstatus
        omega
    · rename_i e hout
      rw [hout] at hadds'
      exact ends_ok.mpr (Closing.terminate hadds')

theorem handleWritable_closing (event : EpollEvent) {c : Client} (hsound : Sound (view c))
    (hpending : ErrorPending (view c)) (hunexpected : Unexpected (view c))
    (hwrites : ¬ Readable c event) :
    Ends (handleWritable event c) fun out => Closing c (.epoll event) out.2 := by
  unfold handleWritable
  refine Ends.bind (P := fun out : ℤ × Client => Sound (view out.2) ∧
    Kept (Redirects c event) c out.2) ?_ ?_
  · intro out hout
    exact ⟨(handleCGIProcess_moves event hsound out hout).sound,
      handleCGIProcess_kept event hpending.owed (hunexpected hpending) out hout⟩
  · intro out hout
    obtain ⟨hsound', hkept⟩ := hout
    have hadds : Adds (Harmless c (.epoll event)) c out.2 := by
      refine hkept.adds.mono ?_
      intro a ha hexecutes
      exact ⟨hwrites, ha hexecutes⟩
    have hpending' : ErrorPending (view out.2) := by
      obtain ⟨status, hstatus, herror⟩ := hpending
      exact ⟨status, hkept.response_eq.trans hstatus, herror⟩
    have hunexpected' : Unexpected (view out.2) := fun _ => hkept.unexpected
    dsimp only
    split
    · exact ends_pure.mpr (Closing.of_same hpending' hunexpected' hadds)
    · exact handleResponseOut_closing event hsound' hpending' hunexpected' hadds

theorem handleClientEvent_closing (event : EpollEvent) {c : Client} (hsound : Sound (view c))
    (hpending : ErrorPending (view c)) (hunexpected : Unexpected (view c))
    (hcalm : Calm c (.epoll event)) :
    Ends (handleClientEvent event c) fun out => Closing c (.epoll event) out.2 := by
  have hmode : c.mode = .write := hsound.replying hpending.owed
  unfold handleClientEvent
  split
  · exact ends_ok.mpr (Closing.terminate (Adds.of_eq rfl))
  · rename_i hup
    split
    · rename_i hin
      refine handleReadable_closing event hpending hunexpected ?_
      intro hbusy
      refine hcalm ⟨hup, hin⟩ hpending ?_
      by_contra hheader
      refine hbusy ⟨hheader, ?_⟩
      intro hongoing
      rcases hin.2 with hread | hbody
      · rw [hmode] at hread
        cases hread
      · exact hbody hongoing.2
    · rename_i hin
      split
      · exact handleWritable_closing event hsound hpending hunexpected fun h => hin h.2
      · exact ends_ok.mpr (Closing.of_same hpending hunexpected (Adds.of_eq rfl))

theorem step_closing (event : Event) {c : Client} (hsound : Sound (view c))
    (hpending : ErrorPending (view c)) (hunexpected : Unexpected (view c))
    (hcalm : Calm c event) : Ends (step c event) (Closing c event) := by
  have hstays : Closing c event c := Closing.of_same hpending hunexpected (Adds.of_eq rfl)
  unfold step
  split
  · exact ends_ok.mpr hstays
  · cases event with
    | epoll event =>
      show Ends (handleEpoll event c) _
      unfold handleEpoll
      refine Ends.bind (handleClientEvent_closing event hsound hpending hunexpected hcalm) ?_
      intro out hout
      dsimp only
      split
      · exact ends_pure.mpr (Closing.terminate hout.adds)
      · exact ends_pure.mpr hout
    | timeOut expired env =>
      have hmode : c.mode = .write := hsound.replying hpending.owed
      have hwaits : checkTO expired env c = c := by
        unfold checkTO
        rw [hmode, if_neg (fun h => by cases h.1)]
      show Ends (.ok (checkTO expired env c)) _
      rw [hwaits]
      exact ends_ok.mpr hstays

theorem step_unexpected (event : Event) {c : Client} (hsound : Sound (view c))
    (hunexpected : Unexpected (view c)) (hcalm : Calm c event) :
    Ends (step c event) fun c' => Unexpected (view c') := by
  by_cases hpending : ErrorPending (view c)
  · exact (step_closing event hsound hpending hunexpected hcalm).mono fun c' h => h.unexpected
  · unfold step
    split
    · exact ends_ok.mpr hunexpected
    · cases event with
      | epoll event => exact handleEpoll_unexpected event hsound hpending
      | timeOut expired env => exact ends_ok.mpr (checkTO_unexpected expired env hsound hunexpected)

theorem reached_unexpected {server : ListenServer} {events : List Event} {c : Client}
    (h : Reaches step Calm (Client.newClient server) events c) :
    Sound (view c) ∧ Unexpected (view c) := by
  refine Reaches.invariant (I := fun c => Sound (view c) ∧ Unexpected (view c)) ?_ ?_ h
  · rw [newClient_view]
    exact ⟨fresh_sound .read, unexpected_of_no_process rfl⟩
  · intro c event hinv hcalm c' hstep
    obtain ⟨hsound, hunexpected⟩ := hinv
    exact ⟨(step_moves event hsound c' hstep).sound,
      step_unexpected event hsound hunexpected hcalm c' hstep⟩

/-- Once an error response is owed it stays owed until the connection is closed, and no
bytes that are received make the server execute anything. -/
theorem refused_request_inert {server : ListenServer} {events later : List Event}
    {c d : Client} (h : Reaches step Calm (Client.newClient server) events c)
    (hpending : ErrorPending (view c)) (hlater : Reaches step Calm c later d) :
    (d.alive = true → ErrorPending (view d)) ∧
      ∀ event e, Calm d event → step d event = .ok e →
        ∃ actions, e.trace = d.trace ++ actions ∧ ∀ a ∈ actions, Harmless d event a := by
  obtain ⟨hsound, hunexpected⟩ := reached_unexpected h
  obtain ⟨hsound', hunexpected', hpending'⟩ : Sound (view d) ∧ Unexpected (view d) ∧
      (d.alive = true → ErrorPending (view d)) := by
    refine Reaches.invariant (I := fun d => Sound (view d) ∧ Unexpected (view d) ∧
      (d.alive = true → ErrorPending (view d))) ⟨hsound, hunexpected, fun _ => hpending⟩ ?_ hlater
    intro d event hinv hcalm d' hstep
    obtain ⟨hsound, hunexpected, hpending⟩ := hinv
    have hmoves := step_moves event hsound d' hstep
    refine ⟨hmoves.sound, step_unexpected event hsound hunexpected hcalm d' hstep, ?_⟩
    intro halive
    exact (step_closing event hsound (hpending (hmoves.alive halive)) hunexpected hcalm d'
      hstep).pending halive
  refine ⟨hpending', ?_⟩
  intro event e hcalm hstep
  by_cases halive : d.alive = true
  · exact (step_closing event hsound' (hpending' halive) hunexpected' hcalm e hstep).adds
  · have hsame : step d event = .ok d := by
      unfold step
      rw [if_pos (by simpa using halive)]
    rw [hsame, Except.ok.injEq] at hstep
    subst hstep
    exact Adds.of_eq rfl

/-- A head without the field `Host`. -/
def hostlessHead : Bytes := ascii "GET / HTTP/1.1" ++ CRLF ++ CRLF

/-- A request for a removal, up to its first field, which is no field. -/
def brokenHead : Bytes := ascii "DELETE /f HTTP/1.1" ++ CRLF ++ ascii "bad" ++ CRLF

/-- The fields that were missing. -/
def lateFields : Bytes := ascii "Host: a" ++ CRLF ++ CRLF

theorem hostless_request_inert :
    ∃ c d, ErrorPending (view c) ∧
      Reaches step Calm (Client.newClient plainServer) [reading hostlessHead] c ∧
      Reaches step Calm c [reading (brokenHead ++ lateFields)] d ∧
      (d.alive = true → ErrorPending (view d)) ∧
        ∀ event e, Calm d event → step d event = .ok e →
          ∃ actions, e.trace = d.trace ++ actions ∧ ∀ a ∈ actions, Harmless d event a := by
  have hrun : (step (Client.newClient plainServer) (reading hostlessHead)).toOption.any
      (fun c => c.response.map Response.getStatus = some 400 ∧ c.headerStatus ≠ .ongoing ∧
        (step c (reading (brokenHead ++ lateFields))).toOption.any fun _ => true) = true := by
    decide +kernel
  obtain ⟨c, hc, hstate⟩ := exists_of_any hrun
  obtain ⟨hresponse, hheader, hnext⟩ := of_decide_eq_true hstate
  obtain ⟨d, hd, -⟩ := exists_of_any hnext
  have hstart : Calm (Client.newClient plainServer) (reading hostlessHead) := by
    intro _ hpending
    exact absurd rfl hpending.owed
  have hpending : ErrorPending (view c) := ⟨400, hresponse, by decide⟩
  have hreach : Reaches step Calm (Client.newClient plainServer) ([] ++ [reading hostlessHead]) c :=
    .snoc .nil hstart hc
  have hlater : Reaches step Calm c ([] ++ [reading (brokenHead ++ lateFields)]) d :=
    .snoc .nil (fun _ _ hongoing => absurd hongoing hheader) hd
  exact ⟨c, d, hpending, hreach, hlater, refused_request_inert hreach hpending hlater⟩

def isDeleted : Action → Bool
  | .deleted _ => true
  | _ => false

/-- A removal is refused in the middle of its head, and carried out with the rest of it. -/
theorem not_all_refused_requests_inert :
    ¬ ∀ (server : ListenServer) (events later : List Event) (c d : Client),
      Reaches step (fun _ _ => True) (Client.newClient server) events c →
        ErrorPending (view c) → Reaches step (fun _ _ => True) c later d →
          ∀ event e, step d event = .ok e →
            ∃ actions, e.trace = d.trace ++ actions ∧ ∀ a ∈ actions, Harmless d event a := by
  intro h
  have hrun : (step (Client.newClient plainServer) (reading brokenHead)).toOption.any
      (fun c => c.response.map Response.getStatus = some 400 ∧ c.trace.any isDeleted = false ∧
        (step c (reading lateFields)).toOption.any fun e => e.trace.any isDeleted) = true := by
    decide +kernel
  obtain ⟨c, hc, hstate⟩ := exists_of_any hrun
  obtain ⟨hresponse, hbefore, hnext⟩ := of_decide_eq_true hstate
  obtain ⟨e, he, hafter⟩ := exists_of_any hnext
  have hreach : Reaches step (fun _ _ => True) (Client.newClient plainServer)
      ([] ++ [reading brokenHead]) c := .snoc .nil trivial hc
  obtain ⟨actions, htrace, hall⟩ := h _ _ [] c c hreach ⟨400, hresponse, by decide⟩ .nil _ e he
  rw [htrace, List.any_append, hbefore, Bool.false_or, List.any_eq_true] at hafter
  obtain ⟨a, ha, hdeleted⟩ := hafter
  have hharmless := hall a ha
  cases a with
  | deleted path =>
    obtain ⟨-, -, name, hspawned⟩ := hharmless trivial
    cases hspawned
  | _ => cases hdeleted

end Webserveau.RefusedRequests
