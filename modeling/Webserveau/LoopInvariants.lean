import Webserveau.CgiOutputs
import Webserveau.Intake
import Webserveau.Replies

/-!
Invariants of the event loop.
Every reachable client is sound: an owed response puts it into write mode, a process only
runs for a request that has been read, and an error closes the connection. Whether a
writing client is served and whether the path of a running process is its output depend
on the steps of the run, so each step says when it keeps these two.
-/
namespace Webserveau.LoopInvariants

open ByteStrings OrderedMaps Formats Requests Clients EventLoop Checks HeadSafety ParserFrames
  Transitions Intake Replies CgiOutputs

structure Sound (v : View) : Prop where
  replying : v.response ≠ none → v.mode = .write
  processing : v.cgi ≠ none → v.header = .done ∧ v.body ≠ .ongoing ∧ v.type = .cgi
  reading : v.mode = .read → v.cgi ≠ none → v.expect ≠ CONTINUE
  closing : ∀ status, v.response = some status → 400 ≤ status → v.connection = ascii "close"

/-- A client that is written to has something to be written or to wait for. -/
def Served (v : View) : Prop := v.mode = .write → v.response ≠ none ∨ v.cgi ≠ none

/-- The path in the hints is the output file of the running process. -/
def Placed (v : View) : Prop := ∀ name, v.cgi = some name → v.path = name

theorem fresh_sound (mode : Mode) : Sound (fresh mode) where
  replying := fun h => absurd rfl h
  processing := fun h => absurd rfl h
  reading := fun _ h => absurd rfl h
  closing := by
    intro status h
    cases h

theorem placed_of_no_process {v : View} (h : v.cgi = none) : Placed v := by
  intro name hname
  rw [h] at hname
  cases hname

/-- A client with a process has nothing to read. -/
theorem Sound.idle {c : Client} (h : Sound (view c)) (hcgi : (view c).cgi ≠ none) : Idle c := by
  obtain ⟨hheader, hbody, -⟩ := h.processing hcgi
  constructor
  · intro hongoing
    have hongoing' : (view c).header = .ongoing := hongoing
    rw [hheader] at hongoing'
    cases hongoing'
  · intro hbusy
    exact hbody hbusy.2

/-- Letting go of a process whose path is its output removes no other file. -/
theorem Placed.releases {v : View} (h : Placed v) {a : Action} (ha : Releases v a) :
    ¬ Misplaced a := by
  rcases ha with ⟨path, rfl⟩ | ⟨name, hname, rfl⟩
  · exact fun h => h
  · intro hne
    exact hne (h name hname).symm

/-- What a part of a step does to the invariants: `answers` keeps clients served, `keeps`
keeps the output of a process in its place. -/
structure Moves (answers keeps : Prop) (c c' : Client) : Prop where
  sound : Sound (view c')
  alive : c'.alive = true → c.alive = true
  served : answers → c'.alive = true → Served (view c) → Served (view c')
  placed : keeps → Placed (view c) → Placed (view c') ∧ Adds (fun a => ¬ Misplaced a) c c'

theorem Moves.trans {answers keeps : Prop} {c d c' : Client} (h : Moves answers keeps c d)
    (h' : Moves answers keeps d c') : Moves answers keeps c c' where
  sound := h'.sound
  alive := fun halive => h.alive (h'.alive halive)
  served := fun hanswers halive hserved =>
    h'.served hanswers halive (h.served hanswers (h'.alive halive) hserved)
  placed := by
    intro hkeeps hplaced
    obtain ⟨hplaced', hadds⟩ := h.placed hkeeps hplaced
    obtain ⟨hplaced'', hadds'⟩ := h'.placed hkeeps hplaced'
    exact ⟨hplaced'', hadds.trans hadds'⟩

theorem Moves.weaken {answers keeps answers' keeps' : Prop} {c c' : Client}
    (h : Moves answers keeps c c') (hanswers : answers' → answers) (hkeeps : keeps' → keeps) :
    Moves answers' keeps' c c' where
  sound := h.sound
  alive := h.alive
  served := fun hanswer => h.served (hanswers hanswer)
  placed := fun hkeep => h.placed (hkeeps hkeep)

theorem Moves.of_view {answers keeps : Prop} {c c' : Client} (hsound : Sound (view c))
    (hview : view c' = view c) (hadds : Adds (fun a => ¬ Misplaced a) c c')
    (halive : c'.alive = c.alive) : Moves answers keeps c c' where
  sound := by rwa [hview]
  alive := by
    intro h
    rwa [← halive]
  served := by
    intro _ _ hserved
    rwa [hview]
  placed := by
    intro _ hplaced
    rw [hview]
    exact ⟨hplaced, hadds⟩

theorem Moves.received {answers keeps : Prop} {c c' : Client} {res : ℤ}
    (hsound : Sound (view c)) (h : Received c res c')
    (hidle : Idle c → res = 0 ∧ view c' = view c ∧ c'.trace = c.trace) :
    Moves answers keeps c c' := by
  by_cases hcgi : (view c).cgi = none
  · have hcgi' : (view c').cgi = none := h.cgi_eq.trans hcgi
    refine ⟨⟨?_, ?_, ?_, ?_⟩, ?_, ?_, ?_⟩
    · intro hresponse
      rcases h.reply with ⟨hmode, hsame⟩ | ⟨hmode, -⟩
      · rw [hmode]
        rw [hsame] at hresponse
        exact hsound.replying hresponse
      · exact hmode
    · intro hne
      exact absurd hcgi' hne
    · intro _ hne
      exact absurd hcgi' hne
    · intro status hresponse hstatus
      rcases h.reply with ⟨-, hsame⟩ | ⟨-, hcontinue⟩
      · rw [hsame] at hresponse
        rw [h.connection_eq]
        exact hsound.closing status hresponse hstatus
      · rw [hcontinue, Option.some.injEq] at hresponse
        omega
    · intro halive
      rwa [← h.alive_eq]
    · intro _ _ hserved hmode
      rcases h.reply with ⟨hsame, hresponse⟩ | ⟨-, hcontinue⟩
      · rw [hsame] at hmode
        rw [hresponse, h.cgi_eq]
        exact hserved hmode
      · left
        rw [hcontinue]
        exact Option.some_ne_none _
    · intro _ _
      exact ⟨placed_of_no_process hcgi', h.adds⟩
  · obtain ⟨-, hview, htrace⟩ := hidle (hsound.idle hcgi)
    exact Moves.of_view hsound hview (Adds.of_eq htrace) h.alive_eq

/-- A client that has been given its response. -/
structure Answered (c c' : Client) : Prop where
  sound : Sound (view c')
  served : Served (view c')
  cgi_eq : (view c').cgi = (view c).cgi
  adds : Adds Quiet c c'
  alive_eq : c'.alive = c.alive
  owed : (view c').response ≠ none

theorem responds_sound {c c' : Client} {status : ℤ} (hsound : Sound (view c))
    (h : Responds c status c') : Sound (view c') := by
  obtain ⟨⟨path, connection, hview, hclose⟩, -, -⟩ := h
  rw [hview]
  refine ⟨fun _ => rfl, hsound.processing, ?_, ?_⟩
  · intro hmode
    cases hmode
  · intro status' hstatus' hle
    have hsame : status = status' := Option.some.inj hstatus'
    subst hsame
    refine hclose ?_
    intro hok
    omega

theorem generateResponse_answered (env : Env) {c : Client} (status : ℤ)
    (hsound : Sound (view c)) :
    (generateResponse env c status).1 = 0 ∧ Answered c (generateResponse env c status).2 := by
  rcases generateResponse_cases env c status with ⟨hresponse, hout⟩ |
    ⟨-, final, c', hout, hresponds, -⟩
  · rw [hout]
    have howed : (view c).response ≠ none := by
      obtain ⟨response, hsome⟩ := Option.isSome_iff_exists.mp hresponse
      show c.response.map Response.getStatus ≠ none
      rw [hsome]
      exact Option.some_ne_none _
    exact ⟨rfl, hsound, fun _ => Or.inl howed, rfl, Adds.of_eq rfl, rfl, howed⟩
  · rw [hout]
    obtain ⟨path, connection, hview, -⟩ := hresponds.settled
    have howed : (view c').response ≠ none := by
      rw [hview]
      exact Option.some_ne_none _
    refine ⟨rfl, responds_sound hsound hresponds, fun _ => Or.inl howed, ?_, hresponds.adds,
      hresponds.alive_eq, howed⟩
    rw [hview]

theorem quiet_not_misplaced {c c' : Client} (h : Adds Quiet c c') :
    Adds (fun a => ¬ Misplaced a) c c' := h.mono fun _ ha => ha.2

/-- A client whose request has been handed over for its answer. -/
structure Dispatched (c c' : Client) : Prop where
  sound : Sound (view c')
  served : Served (view c')
  placed : Placed (view c')
  adds : Adds (fun a => ¬ Misplaced a) c c'
  alive_eq : c'.alive = c.alive

theorem Answered.dispatched {c c' : Client} (h : Answered c c') (hcgi : (view c).cgi = none) :
    Dispatched c c' where
  sound := h.sound
  served := h.served
  placed := placed_of_no_process (h.cgi_eq.trans hcgi)
  adds := quiet_not_misplaced h.adds
  alive_eq := h.alive_eq

/-- A process that has been started, or whose start failed and was undone. -/
inductive Started (c : Client) : ℤ → Client → Prop
  | started {c' : Client} (name : Bytes) :
      view c' = { view c with mode := .write, cgi := some name, path := name } →
      c'.trace = c.trace ++ [.spawned name] → c'.alive = c.alive → Started c 0 c'
  | failed {c' : Client} (name : Bytes) : view c' = { view c with cgi := none, path := name } →
      c'.trace = c.trace ++ [.destroyed name name] → c'.alive = c.alive →
      Started c RES_INTERNAL_ERROR c'

theorem generateCGIProcess_started (env : Env) (c : Client) :
    Started c (generateCGIProcess env c).1 (generateCGIProcess env c).2 := by
  unfold generateCGIProcess execCGI
  dsimp only
  by_cases hpid : env.pid > 0
  · rw [if_pos hpid]
    exact .started (generateName none env.outputTime) rfl rfl rfl
  · rw [if_neg hpid]
    exact .failed (generateName none env.outputTime) rfl rfl rfl

/-- The start of a process, or the report that it could not be started. -/
theorem startProcess_dispatched (env : Env) {c : Client} (hsound : Sound (view c))
    (hheader : (view c).header = .done) (hbody : (view c).body ≠ .ongoing)
    (htype : (view c).type = .cgi) {res : ℤ} {d : Client} (h : Started c res d) :
    (res = 0 → Dispatched c d) ∧
      (res ≠ 0 → Dispatched c (generateResponse env d RES_INTERNAL_ERROR).2) := by
  cases h with
  | started name hview htrace halive =>
    constructor
    · intro _
      refine ⟨?_, ?_, ?_, ⟨_, htrace, ?_⟩, halive⟩
      · rw [hview]
        refine ⟨fun _ => rfl, fun _ => ⟨hheader, hbody, htype⟩, ?_, hsound.closing⟩
        intro hmode
        cases hmode
      · intro _
        rw [hview]
        exact Or.inr (Option.some_ne_none _)
      · intro name' hname
        rw [hview] at hname ⊢
        exact Option.some.inj hname
      · intro a ha
        rw [List.mem_singleton.mp ha]
        exact fun h => h
    · intro hne
      exact absurd rfl hne
  | failed name hview htrace halive =>
    constructor
    · intro hzero
      cases hzero
    · intro _
      have hsound' : Sound (view d) := by
        rw [hview]
        exact ⟨hsound.replying, fun h => absurd rfl h, fun _ h => absurd rfl h, hsound.closing⟩
      have hanswered := (generateResponse_answered env RES_INTERNAL_ERROR hsound').2
      have hdispatched := hanswered.dispatched (by rw [hview])
      refine ⟨hdispatched.sound, hdispatched.served, hdispatched.placed, ?_,
        hdispatched.alive_eq.trans halive⟩
      refine Adds.trans ⟨_, htrace, ?_⟩ hdispatched.adds
      intro a ha
      rw [List.mem_singleton.mp ha]
      exact fun h => h rfl

theorem handleClientResponse_dispatched (env : Env) {c : Client} {response : ℤ}
    (hsound : Sound (view c)) (hcgi : (view c).cgi = none)
    (hready : response = RES_OK → (view c).type = .cgi →
      (view c).header = .done ∧ (view c).body ≠ .ongoing) :
    (handleClientResponse env c response).1 = 0 ∧
      Dispatched c (handleClientResponse env c response).2 := by
  unfold handleClientResponse
  split
  · obtain ⟨hzero, hanswered⟩ := generateResponse_answered env response hsound
    exact ⟨hzero, hanswered.dispatched hcgi⟩
  · rename_i hprocess
    obtain ⟨htype, hok⟩ := not_or.mp hprocess
    have htype' : (view c).type = .cgi := not_not.mp htype
    obtain ⟨hheader, hbody⟩ := hready (not_not.mp hok) htype'
    have hstarted := generateCGIProcess_started env c
    cases hout : generateCGIProcess env c with
    | mk res d =>
      rw [hout] at hstarted
      obtain ⟨hgood, hbad⟩ := startProcess_dispatched env hsound hheader hbody htype' hstarted
      dsimp only
      split
      · rename_i hne
        refine ⟨?_, hbad hne⟩
        cases hstarted with
        | started name hview htrace halive => exact absurd rfl hne
        | failed name hview htrace halive =>
          refine (generateResponse_answered env RES_INTERNAL_ERROR ?_).1
          rw [hview]
          exact ⟨hsound.replying, fun h => absurd rfl h, fun _ h => absurd rfl h, hsound.closing⟩
      · rename_i hzero
        exact ⟨rfl, hgood (not_not.mp hzero)⟩

theorem Moves.dispatched {answers keeps : Prop} {c d c' : Client} (h : Moves answers keeps c d)
    (h' : Dispatched d c') : Moves answers keeps c c' where
  sound := h'.sound
  alive := fun halive => h.alive (by rwa [← h'.alive_eq])
  served := fun _ _ _ => h'.served
  placed := by
    intro hkeeps hplaced
    exact ⟨h'.placed, (h.placed hkeeps hplaced).2.trans h'.adds⟩

/-- What is received is answered when it calls for an answer. -/
theorem respondTo_moves {answers keeps : Prop} (env : Env) {c d : Client} {res : ℤ}
    (hsound : Sound (view c)) (h : Received c res d)
    (hidle : Idle c → res = 0 ∧ view d = view c ∧ d.trace = c.trace) :
    Moves answers keeps c (respondTo env (res, d)).2 := by
  have hmoves : Moves answers keeps c d := Moves.received hsound h hidle
  unfold respondTo
  dsimp only
  split
  · rename_i hpos
    have hcgi : (view c).cgi = none := by
      by_contra hne
      have hzero := (hidle (hsound.idle hne)).1
      omega
    exact hmoves.dispatched
      (handleClientResponse_dispatched env hmoves.sound (h.cgi_eq.trans hcgi) h.ready).2
  · exact hmoves

/-- Reading takes bytes in, or reports that the connection is closed. -/
theorem handleClientIn_received (event : EpollEvent) (c : Client) :
    Ends (handleClientIn event c) fun out => out = (-1, c) ∨
      Received c out.1 out.2 ∧ (Idle c → out.1 = 0 ∧ view out.2 = view c ∧
        out.2.trace = c.trace) := by
  unfold handleClientIn
  split
  · exact ends_ok.mpr (Or.inl rfl)
  · split
    · exact ends_ok.mpr (Or.inl rfl)
    · exact (receive_received _ _ _).mono fun out hout => Or.inr hout

theorem handleReadable_moves (answers keeps : Prop) (event : EpollEvent) {c : Client}
    (hsound : Sound (view c)) :
    Ends (handleReadable event c) fun out => Moves answers keeps c out.2 := by
  unfold handleReadable
  refine Ends.bind (handleClientIn_received event c) ?_
  intro out hout
  refine ends_pure.mpr ?_
  rcases hout with rfl | ⟨hreceived, hidle⟩
  · exact Moves.of_view hsound rfl (Adds.of_eq rfl) rfl
  · exact respondTo_moves event.env hsound hreceived hidle

theorem Moves.terminate {answers keeps : Prop} (c : Client) : Moves answers keeps c c.terminate where
  sound := by
    show Sound (view c.clear)
    rw [clear_view]
    exact fresh_sound _
  alive := by
    intro h
    cases h
  served := by
    intro _ h
    cases h
  placed := by
    intro _ hplaced
    have hview : view c.terminate = fresh c.mode := clear_view c
    rw [hview]
    refine ⟨placed_of_no_process rfl, (terminate_adds c).mono ?_⟩
    intro a ha
    rcases ha with ha | rfl
    · exact hplaced.releases ha
    · exact fun h => h

/-- The connection is kept for the next request. -/
theorem keepAlive_moves (answers keeps : Prop) (env : Env) (c : Client) :
    Ends (keepAlive env c) fun out => Moves answers keeps c out.2 := by
  have hview : view (c.clear.setMode .read) = fresh .read := by
    show ({ view c.clear with mode := .read } : View) = _
    rw [clear_view]
    rfl
  have hclear : Moves answers keeps c (c.clear.setMode .read) := by
    refine ⟨by rw [hview]; exact fresh_sound _, ?_, ?_, ?_⟩
    · intro halive
      rwa [← clear_alive]
    · intro _ _ _ hmode
      rw [hview] at hmode
      cases hmode
    · intro _ hplaced
      rw [hview]
      refine ⟨placed_of_no_process rfl, ?_⟩
      exact ((clear_adds c).mono fun a ha => hplaced.releases ha).trans (Adds.of_eq rfl)
  unfold keepAlive
  refine Ends.bind (receive_received env _ []) ?_
  intro out hout
  exact ends_pure.mpr (hclear.trans (respondTo_moves env hclear.sound hout.1 hout.2))

theorem handleResponseOut_moves (answers keeps : Prop) (event : EpollEvent) {c : Client}
    (hsound : Sound (view c)) :
    Ends (handleResponseOut event c) fun out => Moves answers keeps c out.2 := by
  unfold handleResponseOut
  split
  · exact ends_ok.mpr (Moves.of_view hsound rfl (Adds.of_eq rfl) rfl)
  · obtain ⟨hwritten, hadds, halive⟩ := handleClientOut_written event.written c
    have hquiet := quiet_not_misplaced hadds
    split
    · rename_i d hout
      rw [hout] at hwritten hquiet halive
      cases hwritten with
      | pending hview _ => exact ends_ok.mpr (Moves.of_view hsound hview hquiet halive)
    · rename_i d hout
      rw [hout] at hwritten hquiet halive
      cases hwritten with
      | keepAlive hview _ =>
        refine (keepAlive_moves answers keeps event.next d).mono ?_
        intro out hmoves
        exact (Moves.of_view hsound hview hquiet halive).trans hmoves
    · rename_i d hout
      rw [hout] at hwritten hquiet halive
      cases hwritten with
      | proceed hexpect hresponse hview =>
        have hview' : view (d.clearResponse.setMode .read) =
            { view c with expect := [], response := none, mode := .read } := by
          show ({ view d with response := none, mode := .read } : View) = _
          rw [hview]
        refine ends_ok.mpr ⟨?_, ?_, ?_, ?_⟩
        · rw [hview']
          refine ⟨fun h => absurd rfl h, hsound.processing, ?_, ?_⟩
          · intro _ _ hcontinue
            cases hcontinue
          · intro status h
            cases h
        · intro h
          rwa [← halive]
        · intro _ _ _ hmode
          rw [hview'] at hmode
          cases hmode
        · intro _ hplaced
          rw [hview']
          exact ⟨hplaced, hquiet⟩
    · rename_i d hout
      rw [hout] at hwritten hquiet halive
      cases hwritten with
      | close hview =>
        exact ends_ok.mpr ((Moves.of_view hsound hview hquiet halive).trans (Moves.terminate d))

/-- A process that ended well is looked at while the event is handled. -/
def EndsWell (c : Client) (event : EpollEvent) : Prop :=
  ∃ p, c.cgiProcess = some p ∧ p.pid ≠ 0 ∧ event.child = .exited

/-- A process does not end with malformed headers while no response is owed. -/
def GivesVerdict (c : Client) (event : EpollEvent) : Prop :=
  c.response = none → EndsWell c event →
    ¬ Malformed (outputBuffer event.output c.getRequest.resHints.path)

/-- A document that a process gives has a status without a page of its own, and its file
can be read. -/
def ServesDocument (c : Client) (event : EpollEvent) : Prop :=
  ∀ verdict r, c.getRequest.parseCgiHeaders event.output = .ok (verdict, r) →
    verdict = .doc ∨ verdict = .clientRedirect →
      KeepsPath r.resHints.status ∧
        (event.env.served.stat c.getRequest.resHints.path).isSome = true ∧
        (event.env.served.content c.getRequest.resHints.path).isSome = true

/-- A process that ends while no response is owed gives a document that can be served. -/
def ServesOutput (c : Client) (event : EpollEvent) : Prop :=
  c.response = none → EndsWell c event → ServesDocument c event

theorem deleteCGIProcess_sound {c : Client} (h : Sound (view c)) :
    Sound (view c.deleteCGIProcess) := by
  rw [deleteCGIProcess_view]
  exact ⟨h.replying, fun hne => absurd rfl hne, fun _ hne => absurd rfl hne, h.closing⟩

theorem deleteCGIProcess_removes {c : Client} (h : Placed (view c)) :
    Adds (fun a => ¬ Misplaced a) c c.deleteCGIProcess :=
  (deleteCGIProcess_adds c).mono fun _ ha => h.releases ha

/-- The process is removed before the request gets another answer. -/
theorem Moves.replaced {answers keeps : Prop} {c c' : Client}
    (h : Dispatched c.deleteCGIProcess c') : Moves answers keeps c c' where
  sound := h.sound
  alive := by
    intro halive
    rwa [← deleteCGIProcess_alive, ← h.alive_eq]
  served := fun _ _ _ => h.served
  placed := by
    intro _ hplaced
    exact ⟨h.placed, (deleteCGIProcess_removes hplaced).trans h.adds⟩

theorem cgiUnavailable_moves (answers keeps : Prop) (env : Env) {c : Client}
    (hsound : Sound (view c)) : Moves answers keeps c (cgiUnavailable env c).2 := by
  have hcgi : (view c.deleteCGIProcess).cgi = none := by
    rw [deleteCGIProcess_view]
  exact Moves.replaced
    ((generateResponse_answered env _ (deleteCGIProcess_sound hsound)).2.dispatched hcgi)

/-- The cases of a request that its process sends back to the checks. -/
theorem followRedirect_ends (env : Env) {c : Client} {Q : ℤ × Client → Prop}
    (hrefused : ∀ res d, Refused c.deleteCGIProcess res d → Q (generateResponse env d res))
    (haccepted : ∀ d, Accepted c.deleteCGIProcess 0 d → Q (generateResponse env d 0))
    (hstarted : ∀ d e, Accepted c.deleteCGIProcess 0 d → (view d).type = .cgi →
      Started d 0 e → Q (0, e))
    (hfailed : ∀ d e, Accepted c.deleteCGIProcess 0 d → (view d).type = .cgi →
      Started d RES_INTERNAL_ERROR e → Q (generateResponse env e RES_INTERNAL_ERROR)) :
    Ends (followRedirect env c) Q := by
  unfold followRedirect
  refine Ends.bind (handleRequestHeaders_checked env _) ?_
  intro out hout
  obtain ⟨res, d⟩ := out
  dsimp only
  rcases hout with hout | hout
  · have hverdict : 300 ≤ res := hout.verdict
    rw [if_pos (by omega)]
    exact ends_pure.mpr (hrefused res d hout)
  · obtain rfl : res = 0 := hout.verdict
    rw [if_neg (not_not_intro rfl)]
    split
    · exact ends_pure.mpr (haccepted d hout)
    · rename_i htype
      have hstart := generateCGIProcess_started env d
      cases hcgiout : generateCGIProcess env d with
      | mk res' e =>
        rw [hcgiout] at hstart
        dsimp only
        cases hstart with
        | started name hview htrace halive =>
          rw [if_neg (by decide)]
          exact ends_pure.mpr (hstarted d e hout (not_not.mp htype)
            (.started name hview htrace halive))
        | failed name hview htrace halive =>
          have hgone : e.deleteCGIProcess = e := by
            have hnone : e.cgiProcess.map CGIProcess.output = none := congrArg View.cgi hview
            unfold Client.deleteCGIProcess
            rw [Option.map_eq_none_iff.mp hnone]
          rw [if_pos (by decide), hgone]
          exact ends_pure.mpr (hfailed d e hout (not_not.mp htype)
            (.failed name hview htrace halive))

theorem deleteCGIProcess_redir {c : Client} (h : c.getRequest.resHints.cgiRedir ≠ .none) :
    c.deleteCGIProcess.getRequest.resHints.cgiRedir ≠ .none := by
  unfold Client.deleteCGIProcess
  split
  · exact h
  · exact h

theorem refused_sound {c d : Client} {res : ℤ} (hsound : Sound (view c))
    (hcgi : (view c).cgi = none) (h : Refused c res d) :
    Sound (view d) ∧ (view d).cgi = none := by
  obtain ⟨body, type, path, expect, hview⟩ := h.settled
  rw [hview]
  exact ⟨⟨hsound.replying, fun h => absurd hcgi h, fun _ h => absurd hcgi h, hsound.closing⟩, hcgi⟩

theorem accepted_sound {c d : Client} (hsound : Sound (view c)) (hcgi : (view c).cgi = none)
    (h : Accepted c 0 d) : Sound (view d) ∧ (view d).cgi = none ∧ (view d).header = .done := by
  obtain ⟨body, type, path, hview⟩ := h.settled
  have hcgid : (view d).cgi = none := by
    rw [hview]
    split
    · exact hcgi
    · exact hcgi
  refine ⟨⟨?_, fun h => absurd hcgid h, fun _ h => absurd hcgid h, ?_⟩, hcgid, ?_⟩
  · rw [hview]
    split
    · exact fun _ => rfl
    · exact hsound.replying
  · rw [hview]
    split
    · intro status h hle
      have hcontinue : 100 = status := Option.some.inj h
      omega
    · exact hsound.closing
  · rw [hview]
    split
    · rfl
    · rfl

/-- A request that is sent back to the checks by its process. -/
theorem followRedirect_moves (answers keeps : Prop) (env : Env) {c : Client}
    (hsound : Sound (view c)) (hbody : (view c).body ≠ .ongoing)
    (hredir : c.getRequest.resHints.cgiRedir ≠ .none) :
    Ends (followRedirect env c) fun out => Moves answers keeps c out.2 := by
  have hview := deleteCGIProcess_view c
  have hsound' := deleteCGIProcess_sound hsound
  have hcgi : (view c.deleteCGIProcess).cgi = none := by rw [hview]
  have hfirst : ∀ {d c' : Client}, Adds (fun a => ¬ Misplaced a) c.deleteCGIProcess d →
      d.alive = c.deleteCGIProcess.alive → Dispatched d c' → Moves answers keeps c c' := by
    intro d c' hadds halive h
    exact Moves.replaced ⟨h.sound, h.served, h.placed, hadds.trans h.adds,
      h.alive_eq.trans halive⟩
  have hready : ∀ {d : Client}, Accepted c.deleteCGIProcess 0 d → (view d).body ≠ .ongoing := by
    intro d haccepted
    have hsame : (view d).body = (view c.deleteCGIProcess).body :=
      haccepted.body_eq (deleteCGIProcess_redir hredir)
    rw [hsame, hview]
    exact hbody
  have hquiet : ∀ {d : Client}, Accepted c.deleteCGIProcess 0 d →
      Adds (fun a => ¬ Misplaced a) c.deleteCGIProcess d := by
    intro d haccepted
    exact haccepted.adds.mono fun a ha => ha.1
  refine followRedirect_ends env ?_ ?_ ?_ ?_
  · intro res d hrefused
    obtain ⟨hsoundd, hcgid⟩ := refused_sound hsound' hcgi hrefused
    exact hfirst (Adds.of_eq hrefused.trace_eq) hrefused.alive_eq
      ((generateResponse_answered env res hsoundd).2.dispatched hcgid)
  · intro d haccepted
    obtain ⟨hsoundd, hcgid, -⟩ := accepted_sound hsound' hcgi haccepted
    exact hfirst (hquiet haccepted) haccepted.alive_eq
      ((generateResponse_answered env 0 hsoundd).2.dispatched hcgid)
  · intro d e haccepted htype hstarted
    obtain ⟨hsoundd, -, hheader⟩ := accepted_sound hsound' hcgi haccepted
    exact hfirst (hquiet haccepted) haccepted.alive_eq
      ((startProcess_dispatched env hsoundd hheader (hready haccepted) htype hstarted).1 rfl)
  · intro d e haccepted htype hstarted
    obtain ⟨hsoundd, -, hheader⟩ := accepted_sound hsound' hcgi haccepted
    exact hfirst (hquiet haccepted) haccepted.alive_eq
      ((startProcess_dispatched env hsoundd hheader (hready haccepted) htype hstarted).2
        (by decide))

theorem withVerdict_view {c : Client} {r : Request} (verdict : CgiRes)
    (h : CgiKeeps c.getRequest r) : view (withVerdict c verdict r) = view c := by
  obtain ⟨htype, hheaders, hpath, hconnection⟩ := h
  have hexpect : r.getHeader (ascii "expect") = c.getRequest.getHeader (ascii "expect") := by
    rw [Request.getHeader, hheaders]
    rfl
  show ({ view c with
    type := r.type
    path := r.resHints.path
    connection := r.resHints.getHeader CONNECTION
    expect := r.getHeader (ascii "expect") } : View) = _
  rw [htype, hpath, hconnection, hexpect]
  rfl

theorem withVerdict_moves (answers keeps : Prop) {c : Client} {r : Request} (verdict : CgiRes)
    (hsound : Sound (view c)) (h : CgiKeeps c.getRequest r) :
    Moves answers keeps c (withVerdict c verdict r) :=
  Moves.of_view hsound (withVerdict_view verdict h) (Adds.of_eq rfl) rfl

/-- The document of a process is served before its output is removed. -/
theorem serveDocument_moves (answers keeps : Prop) (env : Env) {c : Client}
    (hsound : Sound (view c))
    (hkeeps : keeps → (view (generateResponse env c 0).2).path = (view c).path) :
    Moves answers keeps c (serveDocument env c).2 := by
  obtain ⟨-, hanswered⟩ := generateResponse_answered env 0 hsound
  unfold serveDocument
  dsimp only
  refine ⟨deleteCGIProcess_sound hanswered.sound, ?_, ?_, ?_⟩
  · intro halive
    rwa [← hanswered.alive_eq, ← deleteCGIProcess_alive]
  · intro _ _ _ _
    left
    rw [deleteCGIProcess_view]
    exact hanswered.owed
  · intro hkeep hplaced
    have hplaced' : Placed (view (generateResponse env c 0).2) := by
      intro name hname
      rw [hanswered.cgi_eq] at hname
      rw [hkeeps hkeep]
      exact hplaced name hname
    refine ⟨?_, (quiet_not_misplaced hanswered.adds).trans (deleteCGIProcess_removes hplaced')⟩
    rw [deleteCGIProcess_view]
    exact placed_of_no_process rfl

/-- A process that ended without a verdict is only removed. -/
theorem deleteCGIProcess_moves {answers keeps : Prop} {c : Client} (hsound : Sound (view c))
    (hanswers : answers → c.response ≠ none) : Moves answers keeps c c.deleteCGIProcess := by
  refine ⟨deleteCGIProcess_sound hsound, ?_, ?_, ?_⟩
  · intro halive
    rwa [← deleteCGIProcess_alive]
  · intro hanswer _ _ _
    left
    rw [deleteCGIProcess_view]
    intro hnone
    exact hanswers hanswer (Option.map_eq_none_iff.mp hnone)
  · intro _ hplaced
    refine ⟨?_, deleteCGIProcess_removes hplaced⟩
    rw [deleteCGIProcess_view]
    exact placed_of_no_process rfl

/-- The path of a document that can be served is kept while it is served. -/
theorem serveDocument_path {c : Client} {event : EpollEvent} {verdict : CgiRes} {r : Request}
    (hsound : Sound (view c)) (hcgi : (view c).cgi ≠ none)
    (hparse : c.getRequest.parseCgiHeaders event.output = .ok (verdict, r))
    (hverdict : verdict = .doc ∨ verdict = .clientRedirect)
    (h : c.response = none → ServesDocument c event) :
    (view (generateResponse event.env (withVerdict c verdict r) 0).2).path =
      (view (withVerdict c verdict r)).path := by
  have hview := withVerdict_view verdict (parseCgiHeaders_keeps _ _ _ hparse)
  by_cases hresponse : c.response = none
  · obtain ⟨hstatus, hstat, hcontent⟩ := h hresponse verdict r hparse hverdict
    have hpath : (view (withVerdict c verdict r)).path = c.getRequest.resHints.path :=
      congrArg View.path hview
    refine generateResponse_path event.env _ ?_ ?_ (by rwa [hpath]) (by rwa [hpath])
    · exact hstatus
    · rw [hview, (hsound.processing hcgi).2.2]
      decide
  · rcases generateResponse_cases event.env (withVerdict c verdict r) 0 with ⟨-, hout⟩ | ⟨hnone, -⟩
    · rw [hout]
    · exact absurd hnone hresponse

/-- A process that has ended gives way to what its headers ask for. -/
theorem finishCGI_moves (answers keeps : Prop) {event : EpollEvent} {c : Client}
    (hsound : Sound (view c)) (hcgi : (view c).cgi ≠ none)
    (hanswers : answers → c.response = none →
      ¬ Malformed (outputBuffer event.output c.getRequest.resHints.path))
    (hkeeps : keeps → c.response = none → ServesDocument c event) :
    Ends (finishCGI event c) fun out => Moves answers keeps c out.2 := by
  obtain ⟨-, hbody, -⟩ := hsound.processing hcgi
  unfold finishCGI
  refine Ends.bind (P := fun out : CgiRes × Request =>
    c.getRequest.parseCgiHeaders event.output = .ok out) (fun _ h => h) ?_
  intro out hparse
  obtain ⟨verdict, r⟩ := out
  have hkept := parseCgiHeaders_keeps _ _ _ hparse
  have hmoves := withVerdict_moves answers keeps verdict hsound hkept
  have hdocument : verdict = .doc ∨ verdict = .clientRedirect →
      Moves answers keeps c (serveDocument event.env (withVerdict c verdict r)).2 := by
    intro hverdict
    refine hmoves.trans (serveDocument_moves _ _ event.env hmoves.sound ?_)
    intro hkeep
    exact serveDocument_path hsound hcgi hparse hverdict (hkeeps hkeep)
  cases verdict with
  | error => exact ends_pure.mpr (hmoves.trans (cgiUnavailable_moves _ _ event.env hmoves.sound))
  | none =>
    refine ends_pure.mpr (hmoves.trans (deleteCGIProcess_moves hmoves.sound ?_))
    intro hanswer hnone
    exact hanswers hanswer hnone ((no_verdict_iff _ _).mp ⟨r, hparse⟩)
  | doc => exact ends_pure.mpr (hdocument (Or.inl rfl))
  | clientRedirect => exact ends_pure.mpr (hdocument (Or.inr rfl))
  | localRedirect =>
    refine (followRedirect_moves answers keeps event.env hmoves.sound ?_ ?_).mono ?_
    · rw [withVerdict_view _ hkept]
      exact hbody
    · intro h
      cases h
    · intro out hout
      exact hmoves.trans hout

/-- A client that differs in what is known of its process at most. -/
structure Reaped (c d : Client) : Prop where
  view_eq : view d = view c
  trace_eq : d.trace = c.trace
  alive_eq : d.alive = c.alive
  request_eq : d.getRequest = c.getRequest
  response_eq : d.response = c.response

theorem Reaped.refl (c : Client) : Reaped c c := ⟨rfl, rfl, rfl, rfl, rfl⟩

theorem reaped_of_output {c : Client} {p q : CGIProcess} (hp : c.cgiProcess = some p)
    (hq : q.output = p.output) : Reaped c { c with cgiProcess := some q } := by
  refine ⟨?_, rfl, rfl, rfl, rfl⟩
  have hcgi : (view c).cgi = some p.output := by
    show c.cgiProcess.map CGIProcess.output = _
    rw [hp]
    rfl
  show ({ view c with cgi := some q.output } : View) = _
  rw [hq, ← hcgi]

/-- The cases of a process: there is none or it still runs, it failed, or it ended well. -/
theorem handleCGIProcess_ends (event : EpollEvent) {c : Client} {Q : ℤ × Client → Prop}
    (hwaiting : ∀ d, Reaped c d → Q (0, d))
    (hfailed : ∀ d, Reaped c d → (view c).cgi ≠ none → Q (cgiUnavailable event.env d))
    (hended : ∀ d, Reaped c d → (view c).cgi ≠ none → EndsWell c event →
      Ends (finishCGI event d) Q) : Ends (handleCGIProcess event c) Q := by
  unfold handleCGIProcess
  split
  · exact ends_ok.mpr (hwaiting c (Reaped.refl c))
  · rename_i p hp
    have hcgi : (view c).cgi ≠ none := by
      intro hnone
      have hmap : c.cgiProcess.map CGIProcess.output = none := hnone
      rw [hp] at hmap
      cases hmap
    unfold checkEnd
    by_cases hpid : p.pid = 0
    · rw [if_pos hpid]
      exact ends_ok.mpr (hfailed _ (reaped_of_output hp rfl) hcgi)
    · rw [if_neg hpid]
      cases hchild : event.child with
      | running => exact ends_ok.mpr (hwaiting _ (reaped_of_output hp rfl))
      | expired => exact ends_ok.mpr (hfailed _ (reaped_of_output hp rfl) hcgi)
      | failed => exact ends_ok.mpr (hfailed _ (reaped_of_output hp rfl) hcgi)
      | exited => exact hended _ (reaped_of_output hp rfl) hcgi ⟨p, hp, hpid, hchild⟩

theorem Moves.of_reaped {answers keeps : Prop} {c d : Client} (hsound : Sound (view c))
    (h : Reaped c d) : Moves answers keeps c d :=
  Moves.of_view hsound h.view_eq (Adds.of_eq h.trace_eq) h.alive_eq

theorem handleCGIProcess_moves (event : EpollEvent) {c : Client} (hsound : Sound (view c)) :
    Ends (handleCGIProcess event c) fun out =>
      Moves (GivesVerdict c event) (ServesOutput c event) c out.2 := by
  refine handleCGIProcess_ends event ?_ ?_ ?_
  · intro d hd
    exact Moves.of_reaped hsound hd
  · intro d hd _
    have hmoves : Moves (GivesVerdict c event) (ServesOutput c event) c d :=
      Moves.of_reaped hsound hd
    exact hmoves.trans (cgiUnavailable_moves _ _ event.env hmoves.sound)
  · intro d hd hcgi hends
    have hmoves : Moves (GivesVerdict c event) (ServesOutput c event) c d :=
      Moves.of_reaped hsound hd
    refine (finishCGI_moves (GivesVerdict c event) (ServesOutput c event) hmoves.sound
      ?_ ?_ ?_).mono ?_
    · rw [hd.view_eq]
      exact hcgi
    · intro hanswer hnone
      rw [hd.response_eq] at hnone
      rw [hd.request_eq]
      exact hanswer hnone hends
    · intro hkeep hnone
      rw [hd.response_eq] at hnone
      intro verdict r
      rw [hd.request_eq]
      exact hkeep hnone hends verdict r
    · intro out hout
      exact hmoves.trans hout

end Webserveau.LoopInvariants
