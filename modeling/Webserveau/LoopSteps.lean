import Webserveau.LoopInvariants

/-!
Steps of the event loop as a whole.
The two conditions here are about one step: the client before it and what the system
calls made in it answer. Under them a step keeps the clients served and the output files
of the processes in their place; soundness needs neither.
-/
namespace Webserveau.LoopSteps

open ByteStrings OrderedMaps Formats Requests Clients EventLoop Checks HeadSafety ParserFrames
  Transitions Intake Replies LoopInvariants

/-- The event is handled as that of a readable connection. -/
def Readable (c : Client) (event : EpollEvent) : Prop :=
  ¬ (event.hup ∨ c.mode = .error) ∧
    event.epollin ∧ (c.mode = .read ∨ c.bodyStatus ≠ .ongoing)

/-- The event is handled as that of a writable connection. -/
def Writable (c : Client) (event : EpollEvent) : Prop :=
  ¬ (event.hup ∨ c.mode = .error) ∧
    ¬ (event.epollin ∧ (c.mode = .read ∨ c.bodyStatus ≠ .ongoing)) ∧
    event.epollout ∧ c.mode = .write

/-- No process ends in the step with malformed headers while no response is owed. -/
def Answering (c : Client) : Event → Prop
  | .epoll event => Writable c event → GivesVerdict c event
  | .timeOut _ _ => True

/-- Every process that ends in the step gives a document that can be served, and no
client of a process has its time run out. -/
def Keeping (c : Client) : Event → Prop
  | .epoll event => Writable c event → ServesOutput c event
  | .timeOut expired _ => c.mode = .read → expired = true → c.cgiProcess = none

theorem handleWritable_moves (event : EpollEvent) {c : Client} (hsound : Sound (view c)) :
    Ends (handleWritable event c) fun out =>
      Moves (GivesVerdict c event) (ServesOutput c event) c out.2 := by
  unfold handleWritable
  refine Ends.bind (handleCGIProcess_moves event hsound) ?_
  intro out hout
  obtain ⟨res, d⟩ := out
  dsimp only
  split
  · exact ends_pure.mpr hout
  · refine (handleResponseOut_moves (GivesVerdict c event) (ServesOutput c event) event
      hout.sound).mono ?_
    intro out hnext
    exact hout.trans hnext

theorem handleClientEvent_moves (event : EpollEvent) {c : Client} (hsound : Sound (view c)) :
    Ends (handleClientEvent event c) fun out =>
      Moves (Answering c (.epoll event)) (Keeping c (.epoll event)) c out.2 := by
  unfold handleClientEvent
  split
  · exact ends_ok.mpr (Moves.terminate c)
  · rename_i hup
    split
    · exact handleReadable_moves _ _ event hsound
    · rename_i hin
      split
      · rename_i hout
        refine (handleWritable_moves event hsound).mono ?_
        intro out hmoves
        exact hmoves.weaken (fun h => h ⟨hup, hin, hout⟩) fun h => h ⟨hup, hin, hout⟩
      · exact ends_ok.mpr (Moves.of_view hsound rfl (Adds.of_eq rfl) rfl)

theorem handleEpoll_moves (event : EpollEvent) {c : Client} (hsound : Sound (view c)) :
    Ends (handleEpoll event c) (Moves (Answering c (.epoll event)) (Keeping c (.epoll event)) c) := by
  unfold handleEpoll
  refine Ends.bind (handleClientEvent_moves event hsound) ?_
  intro out hout
  dsimp only
  split
  · exact ends_pure.mpr (hout.trans (Moves.terminate _))
  · exact ends_pure.mpr hout

/-- A timeout always makes a response; it moves the path away from a process. -/
theorem checkTO_moves (expired : Bool) (env : Env) {c : Client} (hsound : Sound (view c)) :
    Moves True (Keeping c (.timeOut expired env)) c (checkTO expired env c) := by
  unfold checkTO
  split
  · rename_i hexpired
    obtain ⟨hmode, hexpired⟩ := hexpired
    split
    · exact Moves.terminate c
    · rename_i request hrequest
      dsimp only
      have hget : c.getRequest = request := by
        rw [Client.getRequest, hrequest]
        rfl
      have hview : view ((c.setMode .write).setRequest
          ((request.setStatus .complete).fillError 408 []).2) = { view c with mode := .write } := by
        rw [view_setRequest]
        · rfl
        · show SameView c.getRequest _
          rw [hget]
          exact ⟨rfl, rfl, rfl, rfl, rfl⟩
      have hsound' : Sound (view ((c.setMode .write).setRequest
          ((request.setStatus .complete).fillError 408 []).2)) := by
        rw [hview]
        refine ⟨fun _ => rfl, hsound.processing, ?_, hsound.closing⟩
        intro h
        cases h
      obtain ⟨-, hanswered⟩ := generateResponse_answered env RES_TIMEOUT hsound'
      refine ⟨hanswered.sound, ?_, fun _ _ _ => hanswered.served, ?_⟩
      · intro halive
        rw [hanswered.alive_eq] at halive
        exact halive
      · intro hkeeps _
        have hcgi : (view c).cgi = none := by
          show c.cgiProcess.map CGIProcess.output = none
          rw [hkeeps hmode hexpired]
          rfl
        refine ⟨placed_of_no_process ?_, ?_⟩
        · rw [hanswered.cgi_eq, hview]
          exact hcgi
        · exact Adds.trans (Adds.of_eq rfl) (quiet_not_misplaced hanswered.adds)
  · exact Moves.of_view hsound rfl (Adds.of_eq rfl) rfl

theorem step_moves (event : Event) {c : Client} (hsound : Sound (view c)) :
    Ends (step c event) (Moves (Answering c event) (Keeping c event) c) := by
  unfold step
  split
  · exact ends_ok.mpr (Moves.of_view hsound rfl (Adds.of_eq rfl) rfl)
  · cases event with
    | epoll event => exact handleEpoll_moves event hsound
    | timeOut expired env => exact ends_ok.mpr (checkTO_moves expired env hsound)

theorem newClient_view (server : ListenServer) :
    view (Client.newClient server) = fresh .read := rfl

/-- What the two conditions keep, over a run. -/
theorem reached_served {server : ListenServer} {events : List Event} {c : Client}
    (h : Reaches step Answering (Client.newClient server) events c) :
    Sound (view c) ∧ (c.alive = true → Served (view c)) := by
  refine Reaches.invariant (I := fun c => Sound (view c) ∧ (c.alive = true → Served (view c)))
    ?_ ?_ h
  · rw [newClient_view]
    refine ⟨fresh_sound .read, ?_⟩
    intro _ hmode
    cases hmode
  · intro c event hinv hallowed
    obtain ⟨hsound, hserved⟩ := hinv
    refine (step_moves event hsound).mono ?_
    intro c' hmoves
    refine ⟨hmoves.sound, ?_⟩
    intro halive
    exact hmoves.served hallowed halive (hserved (hmoves.alive halive))

theorem reached_placed {server : ListenServer} {events : List Event} {c : Client}
    (h : Reaches step Keeping (Client.newClient server) events c) :
    Sound (view c) ∧ Placed (view c) ∧ ∀ a ∈ c.trace, ¬ Misplaced a := by
  refine Reaches.invariant
    (I := fun c => Sound (view c) ∧ Placed (view c) ∧ ∀ a ∈ c.trace, ¬ Misplaced a) ?_ ?_ h
  · rw [newClient_view]
    refine ⟨fresh_sound .read, placed_of_no_process rfl, ?_⟩
    intro a ha
    cases ha
  · intro c event hinv hallowed
    obtain ⟨hsound, hplaced, htrace⟩ := hinv
    refine (step_moves event hsound).mono ?_
    intro c' hmoves
    obtain ⟨hplaced', actions, hadds, hall⟩ := hmoves.placed hallowed hplaced
    refine ⟨hmoves.sound, hplaced', ?_⟩
    intro a ha
    rw [hadds] at ha
    rcases List.mem_append.mp ha with ha | ha
    · exact htrace a ha
    · exact hall a ha

/-- Files that can all be read and written and hold one text. -/
def plainFiles (content : Bytes) : FileSystem where
  stat := fun _ => some (.regular, content.length)
  readable := fun _ => true
  writable := fun _ => true
  content := fun _ => some content
  entries := fun _ => none

/-- A host that serves files under every path, and runs those that end in `.py`. -/
def plainHost : Host where
  locationMap := OrderedMap.empty.insert (ascii "*") {
    methods := 31
    upload := true
    redir_valid := unredirected }
  cgiMap := OrderedMap.empty.insert (ascii "*.py") { methods := 31, extension := ascii "py" }

def plainServer : ListenServer where
  hostMap := OrderedMap.empty.insert (ascii "a") plainHost
  inhabited := by decide +kernel

/-- Every call succeeds. -/
def plainEnv : Env where
  resource := plainFiles []
  upload := plainFiles []
  served := plainFiles []
  opens := true
  bodyTime := 0
  outputTime := 1
  pid := 1
  date := []

def reading (bytes : Bytes) : Event := .epoll {
  epollin := true
  incoming := some bytes
  output := plainFiles []
  env := plainEnv
  next := plainEnv }

def writing (child : ChildState) (output : Bytes) : Event := .epoll {
  epollout := true
  child := child
  output := plainFiles output
  env := plainEnv
  next := plainEnv }

/-- The head of a request for a script. -/
def scriptHead : Bytes := ascii "GET /a.py HTTP/1.1" ++ CRLF ++ ascii "Host: a" ++ CRLF ++ CRLF

end Webserveau.LoopSteps
