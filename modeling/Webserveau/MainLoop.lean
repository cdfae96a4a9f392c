import Webserveau.ConfigParser
import Webserveau.RemovalExtents

/-!
The main loop of the program.
Each turn hands the events of one `epoll_wait` to their handlers, in the order of the array,
and then looks for a client that has been idle for too long. An event refers to its object by
address, and a command typed at the prompt can take the object away before its event comes.
What a client's handler does to the registry is to look hosts up and to terminate the client.
-/
namespace Webserveau.MainLoop

open ByteStrings Requests Arenas Registries ConfigWords ConfigBlocks ConfigParser Checks

/-- What an event is about. -/
inductive Object
  | prompt
  | server (p : Address)
  | client (c : Address)
  deriving DecidableEq

/-- How a handler leaves its client. -/
inductive Leaving
  | stays
  | terminates
  | throws
  deriving DecidableEq

/-- An event of the array; the prompt is closed or has a line to read, and a client's handler
looks hosts up under some names. -/
inductive Event
  | prompt (closed readable : Bool) (input : Bytes)
  | listen (server : Address) (accepts : Bool)
  | client (client : Address) (names : List Bytes) (leaving : Leaving)

/-- Whether the next event of the array is handled. -/
inductive Ending
  | goesOn
  | closed
  | thrown
  deriving DecidableEq

/-- `handleKillCommand`, as a command to the registry. -/
def handleKillCommand : List Bytes → Option Command
  | [_, target] => if target = ascii "all" then some .removeServers else none
  | [_, ip, port] =>
    if ip = ascii "all" then some .removeServers else some (.removeServer ip port)
  | [_, ip, port, name] =>
    if ip = ascii "all" then some .removeServers else some (.removeHost ip port name)
  | _ => none

/-- Commands other than `kill` only print. -/
def parseCommandPrompt (words : List Bytes) : Option Command :=
  if words.head? = some (ascii "kill") then handleKillCommand words else none

/-- The words of a line typed at the prompt. -/
def promptWords (input : Bytes) : Except Halt (List Bytes) :=
  (parseValues 100 [] (.ofText input 0) {}).result.map Prod.fst

/-- A quotation that is not closed raises an exception that ends the program. -/
def handleCommandPrompt (closed readable : Bool) (input : Bytes) (r : Registry) :
    Ran (Ending × Registry) :=
  if closed then do
    let r ← r.removeServers
    return (.closed, r)
  else if readable = false then return (.goesOn, r)
  else match promptWords input with
    | .error _ => return (.thrown, r)
    | .ok words =>
      match parseCommandPrompt words with
      | none => return (.goesOn, r)
      | some cmd => do
        let r ← step [] r cmd
        return (.goesOn, r)

/-- What `handleClientEvent` does to the registry. -/
def handleClientEvent (client : Address) (names : List Bytes) (leaving : Leaving) (r : Registry) :
    Ran (Ending × Registry) := do
  let _ ← deref (r.clients.get? client)
  let r ← setHosts r client names
  match leaving with
  | .stays => return (.goesOn, r)
  | .terminates => return (.goesOn, ← r.terminate client)
  | .throws => return (.thrown, r)

def handleEvent (r : Registry) : Event → Ran (Ending × Registry)
  | .prompt closed readable input => handleCommandPrompt closed readable input r
  | .listen server accepts => do
    let r ← r.acceptConnection server accepts
    return (.goesOn, r)
  | .client client names leaving => handleClientEvent client names leaving r

def handleEpoll : List Event → Registry → Ran (Ending × Registry)
  | [], r => return (.goesOn, r)
  | event :: events, r => do
    let (ending, r) ← handleEvent r event
    if ending = .goesOn then handleEpoll events r else return (ending, r)

/-- `Client::checkTO`: it returns after the first client without a request that it
terminates; the responses to the others do not concern the registry. -/
def checkTO (idle : Address → Bool) (r : Registry) : Ran Registry :=
  match r.clients.objects.find? fun o => idle o.1 with
  | none => return r
  | some o => r.terminate o.1

/-- A turn of the loop: the events, unless waiting for them fails, and the idle clients. -/
structure Turn where
  events : Option (List Event)
  idle : Address → Bool := fun _ => false

inductive State
  | running (r : Registry)
  | exited (code : ℤ) (r : Registry)

def cleanExit (code : ℤ) (r : Registry) : Ran State :=
  if r.servers.objects = [] then return .exited code r
  else do
    let r ← r.removeServers
    return .exited code r

/-- The loop goes on as long as there is a server; an exception leaves it with code 1. -/
def turn (s : State) (t : Turn) : Ran State :=
  match s with
  | .exited code r => return .exited code r
  | .running r =>
    if r.servers.objects = [] then cleanExit 0 r
    else match t.events with
      | none => cleanExit 0 r
      | some events => do
        let (ending, r) ← handleEpoll events r
        if ending = .thrown then cleanExit 1 r
        else return .running (← checkTO t.idle r)

def Event.object : Event → Object
  | .prompt _ _ _ => .prompt
  | .listen server _ => .server server
  | .client c _ _ => .client c

/-- The command of an event of the prompt that is carried out. -/
def Event.command : Event → Option Command
  | .prompt closed readable input =>
    if closed ∨ readable = false then none
    else (promptWords input).toOption.bind parseCommandPrompt
  | _ => none

/-- The rest of the array is handled after the event. -/
def Event.Continues : Event → Prop
  | .prompt closed readable input =>
    closed = false ∧ (readable = true → ∃ words, promptWords input = .ok words)
  | .listen _ _ => True
  | .client _ _ leaving => leaving ≠ .throws

def Object.Present (r : Registry) : Object → Prop
  | .prompt => True
  | .server p => ∃ s, r.servers.get? p = some s
  | .client c => ∃ n, r.clients.get? c = some n

/-- A command takes an object away. -/
def Destroys (r : Registry) (cmd : Command) : Object → Prop
  | .prompt => False
  | .server p => cmd.Removes r p
  | .client c => ∃ n, r.clients.get? c = some n ∧ cmd.Removes r n.server

/-- What `epoll_wait` reports: each object at most once, and only what is there. -/
structure Reported (r : Registry) (events : List Event) : Prop where
  distinct : (events.map Event.object).Nodup
  present : ∀ e ∈ events, e.object.Present r

/-- An event of something that a command has destroyed is reached. -/
def Struck (r : Registry) (cmd : Command) : List Event → Prop
  | [] => False
  | e :: es => Destroys r cmd e.object ∨ e.Continues ∧ Struck r cmd es

/-- A command is carried out, and an event of something it destroys is reached after it. -/
def Stale (r : Registry) : List Event → Prop
  | [] => False
  | e :: es => match e.command with
    | none => e.Continues ∧ Stale r es
    | some cmd => Struck r cmd es

/-- No command takes a host off a server through which a client of the host came. -/
def Sparing : List Event → Registry → Prop
  | [], _ => True
  | e :: es, r => (∀ cmd, e.command = some cmd → Spares r cmd) ∧
    ∀ r', handleEvent r e = .ok (.goesOn, r') → Sparing es r'

section Events

variable {r r' : Registry} {e : Event}

theorem parseCommandPrompt_kills {words : List Bytes} {cmd : Command}
    (h : parseCommandPrompt words = some cmd) : cmd.Kills := by
  unfold parseCommandPrompt at h
  split at h
  · unfold handleKillCommand at h
    split at h
    · split at h
      · cases h
        exact True.intro
      · cases h
    · split at h
      · cases h
        exact True.intro
      · cases h
        exact True.intro
    · split at h
      · cases h
        exact True.intro
      · cases h
        exact True.intro
    · cases h
  · cases h

theorem Event.command_kills {cmd : Command} (h : e.command = some cmd) :
    cmd.Kills ∧ e.object = .prompt := by
  cases e with
  | prompt closed readable input =>
    refine ⟨?_, rfl⟩
    simp only [Event.command] at h
    split at h
    · cases h
    · obtain ⟨words, -, hparse⟩ := Option.bind_eq_some_iff.mp h
      exact parseCommandPrompt_kills hparse
  | listen server accepts => cases h
  | client c names leaving => cases h

/-- What an event without a command leaves as it was. -/
structure Calm (r r' : Registry) (o : Object) : Prop where
  links : SameLinks r r'
  next : r.clients.next ≤ r'.clients.next
  others : ∀ d, Object.client d ≠ o → d < r.clients.next →
    r'.clients.get? d = r.clients.get? d

theorem setHost_others {c d : Address} {n : ClientNode} {name : Bytes}
    (hc : r.clients.get? c = some n) (h : r.setHost c name = .ok r') (hd : d ≠ c) :
    r'.clients.get? d = r.clients.get? d := by
  rcases setHost_cases hc h with ⟨q, g, -, -, -, rfl⟩ | ⟨r₁, t, q, hleave, -, -, rfl⟩
  · rfl
  · have hclients : r₁.clients = r.clients := by
      unfold Registry.leaveHost at hleave
      cases hhost : n.host with
      | none =>
        rw [hhost] at hleave
        cases hleave
        rfl
      | some y =>
        rw [hhost] at hleave
        obtain ⟨g, -, hleave⟩ := ran_bind_eq_ok_iff.mp hleave
        cases hleave
        rfl
    show (r₁.clients.update c _).get? d = _
    rw [Arena.get?_update_ne _ hd, hclients]

/-- The lookups of a handler bind its client and no other one. -/
theorem setHosts_calm (names : List Bytes) {c : Address} {n : ClientNode} (hr : Sound r)
    (hfilled : Filled r) (hc : r.clients.get? c = some n) :
    ∃ r' m, setHosts r c names = .ok r' ∧ Sound r' ∧ Filled r' ∧ Calm r r' (.client c) ∧
      r'.clients.get? c = some m := by
  induction names generalizing r n with
  | nil => exact ⟨r, n, rfl, hr, hfilled, ⟨SameLinks.refl r, le_rfl, fun _ _ _ => rfl⟩, hc⟩
  | cons name names ih =>
    obtain ⟨r₁, hfirst, hr₁, hlinks₁⟩ := setHost_ok hr hfilled hc name
    obtain ⟨s, hs⟩ := hr.attached.served c n hc
    obtain ⟨q, -, hc₁⟩ := setHost_chosen hr hc hs hfirst
    obtain ⟨r₂, m, hrest, hr₂, hfilled₂, hcalm, hm⟩ := ih hr₁ (hlinks₁.filled hfilled) hc₁
    have hnext : r₁.clients.next = r.clients.next := setHost_makesNone r name r₁ hfirst
    refine ⟨r₂, m, ?_, hr₂, hfilled₂, ⟨hlinks₁.trans hcalm.links, ?_, ?_⟩, hm⟩
    · unfold setHosts at hrest ⊢
      rw [List.foldlM_cons, hfirst, ok_bind, hrest]
    · rw [← hnext]
      exact hcalm.next
    · intro d hd hlt
      rw [hcalm.others d hd (hnext ▸ hlt)]
      exact setHost_others hc hfirst fun heq => hd (heq ▸ rfl)

/-- An event without a command is handled without a fault when its object is there. -/
theorem handleEvent_calm (hr : Sound r) (hfilled : Filled r) (hthere : e.object.Present r)
    (hnone : e.command = none) :
    ∃ ending r', handleEvent r e = .ok (ending, r') ∧ Sound r' ∧ Filled r' ∧
      (ending = .goesOn ↔ e.Continues) ∧ (e.Continues → Calm r r' e.object) := by
  have hsame : Calm r r e.object := ⟨SameLinks.refl r, le_rfl, fun _ _ _ => rfl⟩
  cases e with
  | prompt closed readable input =>
    simp only [handleEvent, handleCommandPrompt, Event.Continues]
    cases closed with
    | true =>
      obtain ⟨r', hrun, hr', hfilled', -⟩ :=
        @step_ok [] r hr hfilled .removeServers True.intro
      simp only [step] at hrun
      refine ⟨.closed, r', ?_, hr', hfilled', by simp, by simp⟩
      simp only [if_true, hrun, ok_bind, pure_eq_ok]
    | false =>
      cases readable with
      | false => exact ⟨.goesOn, r, rfl, hr, hfilled, by simp, fun _ => hsame⟩
      | true =>
        simp only [Event.command, Bool.false_eq_true, Bool.true_eq_false, or_self, if_false] at hnone
        cases hwords : promptWords input with
        | error halt => exact ⟨.thrown, r, rfl, hr, hfilled, by simp, fun _ => hsame⟩
        | ok words =>
          rw [hwords] at hnone
          have hparse : parseCommandPrompt words = none := hnone
          refine ⟨.goesOn, r, ?_, hr, hfilled, by simp, fun _ => hsame⟩
          simp [hparse]
  | listen server accepts =>
    obtain ⟨s, hs⟩ := hthere
    obtain ⟨r', hrun, hr', hlinks⟩ := acceptConnection_ok hr hs accepts
    refine ⟨.goesOn, r', ?_, hr', hlinks.filled hfilled, ?_, fun _ => ⟨hlinks, ?_, ?_⟩⟩
    · simp only [handleEvent, hrun, ok_bind, pure_eq_ok]
    · simp [Event.Continues]
    · rw [acceptConnection_eq hs] at hrun
      split at hrun
      · cases hrun
        exact le_rfl
      · cases hrun
        exact Nat.le_succ _
    · intro d hd hlt
      rw [acceptConnection_eq hs] at hrun
      split at hrun
      · cases hrun
        rfl
      · cases hrun
        show (r.clients.alloc _).get? d = _
        rw [Arena.get?_alloc, if_neg (Nat.ne_of_lt hlt)]
  | client c names leaving =>
    obtain ⟨n, hc⟩ := hthere
    obtain ⟨r₁, m, hnames, hr₁, hfilled₁, hcalm, hm⟩ := setHosts_calm names hr hfilled hc
    simp only [handleEvent, handleClientEvent, hc, deref_some, ok_bind, hnames]
    cases leaving with
    | stays => exact ⟨.goesOn, r₁, rfl, hr₁, hfilled₁, by simp [Event.Continues], fun _ => hcalm⟩
    | throws => exact ⟨.thrown, r₁, rfl, hr₁, hfilled₁, by simp [Event.Continues], fun _ => hcalm⟩
    | terminates =>
      obtain ⟨r₂, hterm, hlinks, hattached, hleft⟩ := terminate_ok hr₁ hm
      have hnext : r₂.clients.next = r₁.clients.next := terminate_makesNone r₁ c r₂ hterm
      refine ⟨.goesOn, r₂, ?_, ⟨hlinks.linked hr₁.linked, hattached⟩, hlinks.filled hfilled₁,
        by simp [Event.Continues], fun _ => ⟨hcalm.links.trans hlinks, ?_, ?_⟩⟩
      · simp only [hterm, ok_bind, pure_eq_ok]
      · rw [hnext]
        exact hcalm.next
      · intro d hd hlt
        rw [← hcalm.others d hd hlt]
        ext k
        rw [hleft]
        exact and_iff_right fun heq => hd (heq ▸ rfl)

/-- The event of an object that is gone is a fault. -/
theorem handleEvent_gone (hgone : ¬ e.object.Present r) :
    ∃ fault, handleEvent r e = .error fault := by
  cases e with
  | prompt closed readable input => exact absurd True.intro hgone
  | listen server accepts =>
    have hs : r.servers.get? server = none :=
      Option.eq_none_iff_forall_ne_some.mpr fun s hs => hgone ⟨s, hs⟩
    refine ⟨.dangling, ?_⟩
    simp only [handleEvent, Registry.acceptConnection, hs]
    rfl
  | client c names leaving =>
    have hc : r.clients.get? c = none :=
      Option.eq_none_iff_forall_ne_some.mpr fun n hc => hgone ⟨n, hc⟩
    refine ⟨.dangling, ?_⟩
    simp only [handleEvent, handleClientEvent, hc]
    rfl

end Events

section Batches

variable {r₀ r : Registry} {cmd : Command}

theorem findServer_iff (hr : Linked r) (ip port : Bytes) (p : Address) :
    r.findServer ip port = some p ↔ ∃ s, r.servers.get? p = some s ∧ s.ip = ip ∧ s.port = port := by
  constructor
  · exact findServer_some
  · rintro ⟨s, hs, rfl, rfl⟩
    exact findServer_of_get? hr hs

/-- What a command removes depends on the links of servers and hosts alone. -/
theorem removes_of_sameLinks (hlinks : SameLinks r₀ r) (hr₀ : Linked r₀) (hr : Linked r)
    {x : Address} (h : cmd.Removes r₀ x) : cmd.Removes r x := by
  have hfind : ∀ ip port, r₀.findServer ip port = some x → r.findServer ip port = some x := by
    intro ip port hfound
    obtain ⟨s, hs, hip, hport⟩ := (findServer_iff hr₀ ip port x).mp hfound
    obtain ⟨t, ht, htip, htport, -⟩ := hlinks.symm.server hs
    exact (findServer_iff hr ip port x).mpr ⟨t, ht, htip.trans hip, htport.trans hport⟩
  cases cmd with
  | removeServers => exact True.intro
  | removeServer ip port => exact hfind ip port h
  | removeHost ip port name =>
    obtain ⟨hfound, s, q, hs, hname, honly⟩ := h
    obtain ⟨t, ht, -, -, hmap, -⟩ := hlinks.symm.server hs
    refine ⟨hfind ip port hfound, t, q, ht, hmap ▸ hname, ?_⟩
    intro n y hn
    exact honly n y (hmap ▸ hn)
  | addHost config opens => exact h
  | accept ip port accepts => exact h
  | setHost c name => exact h
  | terminate c => exact h

/-- The address of the object has been given out. -/
def Object.Old (r : Registry) : Object → Prop
  | .client c => c < r.clients.next
  | _ => True

theorem Object.Present.old {o : Object} (h : o.Present r) : o.Old r := by
  cases o with
  | prompt => exact True.intro
  | server p => exact True.intro
  | client c =>
    obtain ⟨n, hn⟩ := h
    exact r.clients.below (c, n) (Arena.get?_eq_some_iff.mp hn)

/-- An event that is handled leaves the objects of other events there or gone. -/
theorem Calm.present_iff {r' : Registry} {o o' : Object} (h : Calm r r' o) (hne : o' ≠ o)
    (hold : o'.Old r) : o'.Present r' ↔ o'.Present r := by
  cases o' with
  | prompt => exact Iff.rfl
  | server p => exact h.links.server_iff p
  | client c =>
    show (∃ n, r'.clients.get? c = some n) ↔ ∃ n, r.clients.get? c = some n
    rw [h.others c hne hold]

theorem Calm.old {r' : Registry} {o o' : Object} (h : Calm r r' o) (hold : o'.Old r) :
    o'.Old r' := by
  cases o' with
  | prompt => exact True.intro
  | server p => exact True.intro
  | client c => exact lt_of_lt_of_le hold h.next

theorem handleEpoll_cons {r' : Registry} {e : Event} {ending : Ending} (es : List Event)
    (h : handleEvent r e = .ok (ending, r')) :
    handleEpoll (e :: es) r =
      if ending = .goesOn then handleEpoll es r' else .ok (ending, r') := by
  rw [handleEpoll, h]
  rfl

theorem handleEpoll_cons_error {e : Event} {fault : Fault} (es : List Event)
    (h : handleEvent r e = .error fault) : handleEpoll (e :: es) r = .error fault := by
  rw [handleEpoll, h]
  rfl

/-- The events behind a command are a fault as soon as one of something that is gone is
reached. -/
theorem handleEpoll_struck (events : List Event) (hr : Sound r) (hfilled : Filled r)
    (hnodup : (events.map Event.object).Nodup) (hnone : ∀ e ∈ events, e.command = none)
    (hold : ∀ e ∈ events, e.object.Old r)
    (hpresent : ∀ e ∈ events, e.object.Present r ↔ ¬ Destroys r₀ cmd e.object) :
    Struck r₀ cmd events ∧ (∃ fault, handleEpoll events r = .error fault) ∨
      ¬ Struck r₀ cmd events ∧
        ∃ ending r', handleEpoll events r = .ok (ending, r') ∧ Sound r' ∧ Filled r' := by
  induction events generalizing r with
  | nil => exact Or.inr ⟨id, .goesOn, r, rfl, hr, hfilled⟩
  | cons e es ih =>
    obtain ⟨hnew, hrest⟩ := List.nodup_cons.mp hnodup
    by_cases hgone : Destroys r₀ cmd e.object
    · have habsent : ¬ e.object.Present r :=
        fun hthere => (hpresent e (List.mem_cons_self ..)).mp hthere hgone
      obtain ⟨fault, hfault⟩ := handleEvent_gone habsent
      exact Or.inl ⟨Or.inl hgone, fault, handleEpoll_cons_error es hfault⟩
    · have hthere := (hpresent e (List.mem_cons_self ..)).mpr hgone
      obtain ⟨ending, r₁, hrun, hr₁, hfilled₁, hgoes, hcalm⟩ :=
        handleEvent_calm hr hfilled hthere (hnone e (List.mem_cons_self ..))
      rw [handleEpoll_cons es hrun]
      by_cases hcontinues : e.Continues
      · have hcalm := hcalm hcontinues
        rw [if_pos (hgoes.mpr hcontinues)]
        have hother : ∀ d ∈ es, d.object ≠ e.object := fun d hd heq =>
          hnew (heq ▸ List.mem_map_of_mem hd)
        have hlater := ih hr₁ hfilled₁ hrest
          (fun d hd => hnone d (List.mem_cons_of_mem _ hd))
          (fun d hd => hcalm.old (hold d (List.mem_cons_of_mem _ hd)))
          (fun d hd => (hcalm.present_iff (hother d hd)
            (hold d (List.mem_cons_of_mem _ hd))).trans (hpresent d (List.mem_cons_of_mem _ hd)))
        rcases hlater with ⟨hstruck, hfault⟩ | ⟨hspared, hok⟩
        · exact Or.inl ⟨Or.inr ⟨hcontinues, hstruck⟩, hfault⟩
        · refine Or.inr ⟨?_, hok⟩
          rintro (hdestroyed | ⟨-, hstruck⟩)
          · exact hgone hdestroyed
          · exact hspared hstruck
      · rw [if_neg (mt hgoes.mp hcontinues)]
        refine Or.inr ⟨?_, ending, r₁, rfl, hr₁, hfilled₁⟩
        rintro (hdestroyed | ⟨hgoesOn, -⟩)
        · exact hgone hdestroyed
        · exact hcontinues hgoesOn

/-- A command that is carried out leaves the objects of later events there unless it destroys
them. -/
theorem handleEvent_command {e : Event} (hr : Sound r) (hfilled : Filled r)
    (hcommand : e.command = some cmd) (hspares : Spares r cmd) :
    ∃ r', handleEvent r e = .ok (.goesOn, r') ∧ Sound r' ∧ Filled r' ∧ MakesNone r r' ∧
      Loses r r' (cmd.Removes r) := by
  obtain ⟨r', hrun, hr', hfilled', -⟩ := @step_ok [] r hr hfilled cmd hspares
  obtain ⟨hkills, -⟩ := Event.command_kills hcommand
  refine ⟨r', ?_, hr', hfilled', kill_makesNone hkills hrun,
    kill_loses hr hfilled hspares hkills hrun⟩
  cases e with
  | prompt closed readable input =>
    simp only [Event.command] at hcommand
    split at hcommand
    · cases hcommand
    · rename_i hopen
      obtain ⟨hclosed, hreadable⟩ := not_or.mp hopen
      obtain ⟨words, hwords, hparse⟩ := Option.bind_eq_some_iff.mp hcommand
      cases hparsed : promptWords input with
      | error halt =>
        rw [hparsed] at hwords
        cases hwords
      | ok ws =>
        rw [hparsed] at hwords
        cases hwords
        simp only [handleEvent, handleCommandPrompt, if_neg hclosed, if_neg hreadable, hparsed,
          hparse, hrun, ok_bind, pure_eq_ok]
  | listen server accepts => cases hcommand
  | client c names leaving => cases hcommand

/-- What the objects of the events still to come are, compared with the start of the turn. -/
structure Waiting (r₀ r : Registry) (events : List Event) : Prop where
  links : SameLinks r₀ r
  next : r₀.clients.next ≤ r.clients.next
  clients : ∀ e ∈ events, ∀ c, e.object = .client c →
    r.clients.get? c = r₀.clients.get? c

theorem Waiting.present {events : List Event} (h : Waiting r₀ r events) {e : Event}
    (he : e ∈ events) : e.object.Present r ↔ e.object.Present r₀ := by
  cases ho : e.object with
  | prompt => exact Iff.rfl
  | server p => exact h.links.server_iff p
  | client c =>
    show (∃ n, r.clients.get? c = some n) ↔ ∃ n, r₀.clients.get? c = some n
    rw [h.clients e he c ho]

theorem Waiting.destroys {events : List Event} (h : Waiting r₀ r events) (hr₀ : Sound r₀)
    (hr : Sound r) {e : Event} (he : e ∈ events) :
    Destroys r cmd e.object ↔ Destroys r₀ cmd e.object := by
  have hremoves : ∀ x, cmd.Removes r x ↔ cmd.Removes r₀ x := fun x =>
    ⟨removes_of_sameLinks h.links.symm hr.linked hr₀.linked,
      removes_of_sameLinks h.links hr₀.linked hr.linked⟩
  cases ho : e.object with
  | prompt => exact Iff.rfl
  | server p => exact hremoves p
  | client c =>
    show (∃ n, r.clients.get? c = some n ∧ _) ↔ ∃ n, r₀.clients.get? c = some n ∧ _
    rw [h.clients e he c ho]
    simp only [hremoves]

/-- An event that is handled leaves the later ones waiting. -/
theorem Waiting.calm {r' : Registry} {e : Event} {events : List Event}
    (h : Waiting r₀ r (e :: events)) (hcalm : Calm r r' e.object)
    (hnew : e.object ∉ events.map Event.object) (hthere : ∀ d ∈ events, d.object.Present r) :
    Waiting r₀ r' events := by
  refine ⟨h.links.trans hcalm.links, h.next.trans hcalm.next, ?_⟩
  intro d hd c hc
  rw [← h.clients d (List.mem_cons_of_mem _ hd) c hc]
  refine hcalm.others c ?_ ?_
  · intro heq
    exact hnew (heq ▸ hc ▸ List.mem_map_of_mem hd)
  · have hold := (hthere d hd).old
    rw [hc] at hold
    exact hold

/-- A batch has a fault exactly when it is stale, and leaves a sound registry otherwise. -/
theorem handleEpoll_waiting (events : List Event) (hr₀ : Sound r₀) (hr : Sound r)
    (hfilled : Filled r) (hwaiting : Waiting r₀ r events)
    (hnodup : (events.map Event.object).Nodup) (hpresent : ∀ e ∈ events, e.object.Present r₀)
    (hsparing : Sparing events r) :
    Stale r₀ events ∧ (∃ fault, handleEpoll events r = .error fault) ∨
      ¬ Stale r₀ events ∧
        ∃ ending r', handleEpoll events r = .ok (ending, r') ∧ Sound r' ∧ Filled r' := by
  induction events generalizing r with
  | nil => exact Or.inr ⟨id, .goesOn, r, rfl, hr, hfilled⟩
  | cons e es ih =>
    obtain ⟨hnew, hrest⟩ := List.nodup_cons.mp hnodup
    have hthere : ∀ d ∈ e :: es, d.object.Present r := fun d hd =>
      (hwaiting.present hd).mpr (hpresent d hd)
    have hlater : ∀ d ∈ es, d ∈ e :: es := fun d hd => List.mem_cons_of_mem _ hd
    unfold Stale
    cases hcommand : e.command with
    | none =>
      obtain ⟨ending, r₁, hrun, hr₁, hfilled₁, hgoes, hcalm⟩ :=
        handleEvent_calm hr hfilled (hthere e (List.mem_cons_self ..)) hcommand
      rw [handleEpoll_cons es hrun]
      by_cases hcontinues : e.Continues
      · rw [if_pos (hgoes.mpr hcontinues)]
        have hnext := hwaiting.calm (hcalm hcontinues) hnew fun d hd => hthere d (hlater d hd)
        rw [hgoes.mpr hcontinues] at hrun
        rcases ih hr₁ hfilled₁ hnext hrest (fun d hd => hpresent d (hlater d hd))
          (hsparing.2 r₁ hrun) with ⟨hstale, hfault⟩ | ⟨hfresh, hok⟩
        · exact Or.inl ⟨⟨hcontinues, hstale⟩, hfault⟩
        · exact Or.inr ⟨fun hstale => hfresh hstale.2, hok⟩
      · rw [if_neg (mt hgoes.mp hcontinues)]
        exact Or.inr ⟨fun hstale => hcontinues hstale.1, ending, r₁, rfl, hr₁, hfilled₁⟩
    | some cmd =>
      obtain ⟨r₁, hrun, hr₁, hfilled₁, hnone, hloses⟩ :=
        handleEvent_command hr hfilled hcommand (hsparing.1 cmd hcommand)
      rw [handleEpoll_cons es hrun, if_pos rfl]
      have hprompt := (Event.command_kills hcommand).2
      -- The prompt is reported once, so no other event of the array carries a command.
      have hquiet : ∀ d ∈ es, d.command = none := by
        intro d hd
        cases hd' : d.command with
        | none => rfl
        | some cmd' =>
          refine absurd ?_ hnew
          rw [hprompt, ← (Event.command_kills hd').2]
          exact List.mem_map_of_mem hd
      refine handleEpoll_struck es hr₁ hfilled₁ hrest hquiet ?_ ?_
      · intro d hd
        have hold := (hthere d (hlater d hd)).old
        cases ho : d.object with
        | prompt => exact True.intro
        | server p => exact True.intro
        | client c =>
          rw [ho] at hold
          exact lt_of_lt_of_eq hold hnone.symm
      · intro d hd
        rw [← hwaiting.destroys hr₀ hr (hlater d hd)]
        have hbefore := hthere d (hlater d hd)
        cases ho : d.object with
        | prompt => exact iff_of_true True.intro id
        | server p =>
          rw [ho] at hbefore
          exact (hloses.servers p).trans (and_iff_right hbefore)
        | client c =>
          rw [ho] at hbefore
          obtain ⟨n, hc⟩ := hbefore
          constructor
          · rintro ⟨m, hm⟩ ⟨k, hk, hremoved⟩
            obtain ⟨hm, hkept⟩ := (hloses.clients c m).mp hm
            rw [hk, Option.some.injEq] at hm
            exact hkept (hm ▸ hremoved)
          · intro hkept
            exact ⟨n, (hloses.clients c n).mpr ⟨hc, fun hremoved => hkept ⟨n, hc, hremoved⟩⟩⟩

/-- The handling of a batch goes through a pointer to an object that is gone exactly when a
command of the batch destroys the object of a later event that is reached. -/
theorem handleEpoll_faults_iff {events : List Event} (hr : Sound r) (hfilled : Filled r)
    (hreported : Reported r events) (hsparing : Sparing events r) :
    (∃ fault, handleEpoll events r = .error fault) ↔ Stale r events := by
  have hwaiting : Waiting r r events := ⟨SameLinks.refl r, le_rfl, fun _ _ _ _ => rfl⟩
  rcases handleEpoll_waiting events hr hr hfilled hwaiting hreported.distinct hreported.present
    hsparing with ⟨hstale, hfault⟩ | ⟨hfresh, ending, r', hok, -⟩
  · exact iff_of_true hfault hstale
  · refine iff_of_false ?_ hfresh
    rintro ⟨fault, hfault⟩
    rw [hok] at hfault
    cases hfault

/-- All servers are taken away by a command before the event of a client. -/
def killedFirst : List Event :=
  [.prompt false true (ascii "kill all"), .client 0 [] .stays]

theorem killAll_words : promptWords (ascii "kill all") = .ok [ascii "kill", ascii "all"] := by
  decide +kernel

theorem killAll_command :
    (Event.prompt false true (ascii "kill all")).command = some .removeServers := by
  simp only [Event.command, killAll_words]
  rfl

theorem handleEpoll_faults_killedFirst :
    ∃ r, run [] .empty oneClient = .ok r ∧ ∃ fault, handleEpoll killedFirst r = .error fault := by
  have hclient : (run [] .empty oneClient).toOption.bind (whereabouts · 0) =
      some (0, some 0, true) := by decide +kernel
  cases hrun : run [] .empty oneClient with
  | error e =>
    rw [hrun] at hclient
    cases hclient
  | ok r =>
    rw [hrun] at hclient
    obtain ⟨n, hn, -⟩ := Option.map_eq_some_iff.mp (hclient : whereabouts r 0 = _)
    have hreached : Reached [] r := by
      refine reached_run oneClient .empty ?_ hrun
      intro cmd hcmd r
      simp only [oneClient, List.mem_cons, List.not_mem_nil, or_false] at hcmd
      rcases hcmd with rfl | rfl | rfl
      · exact True.intro
      · exact True.intro
      · exact True.intro
    obtain ⟨hsound, hfilled⟩ := reached_sound hreached
    refine ⟨r, rfl, (handleEpoll_faults_iff hsound hfilled ⟨by decide, ?_⟩ ?_).mpr ?_⟩
    · intro e he
      simp only [killedFirst, List.mem_cons, List.not_mem_nil, or_false] at he
      rcases he with rfl | rfl
      · exact True.intro
      · exact ⟨n, hn⟩
    · refine ⟨fun cmd hcmd => ?_, fun r' _ => ⟨fun cmd hcmd => ?_, fun _ _ => True.intro⟩⟩
      · rw [killAll_command] at hcmd
        cases hcmd
        exact True.intro
      · cases hcmd
    · unfold killedFirst Stale
      rw [killAll_command]
      exact Or.inl ⟨n, hn, True.intro⟩

end Batches

section Runs

variable {r : Registry} {s : State} {t : Turn}

/-- What the loop keeps; after it nothing is left. -/
def Kept : State → Prop
  | .running r => Sound r ∧ Filled r
  | .exited _ r => r.servers.objects = [] ∧ r.clients.objects = []

/-- A turn whose events are reported as `epoll_wait` does, and whose commands spare the clients
of other servers and the events that come after them. -/
def Allowed : State → Turn → Prop
  | .running r, t => r.servers.objects ≠ [] → ∀ events, t.events = some events →
    Reported r events ∧ Sparing events r ∧ ¬ Stale r events
  | .exited _ _, _ => True

theorem objects_eq_nil_iff {α : Type} (a : Arena α) :
    a.objects = [] ↔ ∀ p, ¬ ∃ v, a.get? p = some v := by
  rw [List.eq_nil_iff_forall_not_mem]
  constructor
  · intro h p ⟨v, hv⟩
    exact h (p, v) (Arena.get?_eq_some_iff.mp hv)
  · intro h o ho
    exact h o.1 ⟨o.2, Arena.get?_eq_some_iff.mpr ho⟩

/-- Without servers there are no clients. -/
theorem no_clients (hr : Sound r) (hservers : r.servers.objects = []) :
    r.clients.objects = [] := by
  rw [objects_eq_nil_iff] at hservers ⊢
  rintro c ⟨n, hc⟩
  exact hservers n.server (hr.attached.served c n hc)

theorem cleanExit_kept (hr : Sound r) (hfilled : Filled r) (code : ℤ) :
    ∃ s, cleanExit code r = .ok s ∧ Kept s := by
  unfold cleanExit
  split
  · rename_i hservers
    exact ⟨_, rfl, hservers, no_clients hr hservers⟩
  · obtain ⟨r', hrun, hr', -⟩ := @step_ok [] r hr hfilled .removeServers True.intro
    simp only [step] at hrun
    have hloses := removeServers_loses hr hfilled hrun
    have hservers : r'.servers.objects = [] := by
      rw [objects_eq_nil_iff]
      intro x hx
      exact ((hloses.servers x).mp hx).2 True.intro
    refine ⟨.exited code r', ?_, hservers, no_clients hr' hservers⟩
    simp only [hrun, ok_bind, pure_eq_ok]

theorem checkTO_ok (hr : Sound r) (hfilled : Filled r) (idle : Address → Bool) :
    ∃ r', checkTO idle r = .ok r' ∧ Sound r' ∧ Filled r' := by
  unfold checkTO
  cases hfind : r.clients.objects.find? fun o => idle o.1 with
  | none => exact ⟨r, rfl, hr, hfilled⟩
  | some o =>
    have hc := Arena.get?_eq_some_iff.mpr (List.mem_of_find?_eq_some hfind)
    obtain ⟨r', hterm, hlinks, hattached, -⟩ := terminate_ok hr hc
    exact ⟨r', hterm, ⟨hlinks.linked hr.linked, hattached⟩, hlinks.filled hfilled⟩

/-- A turn that is allowed has no fault, and what holds keeps holding. -/
theorem turn_kept (hs : Kept s) (hallowed : Allowed s t) :
    ∃ s', turn s t = .ok s' ∧ Kept s' := by
  cases s with
  | exited code r => exact ⟨_, rfl, hs⟩
  | running r =>
    obtain ⟨hr, hfilled⟩ := hs
    by_cases hservers : r.servers.objects = []
    · simp only [turn, hservers, if_true]
      exact cleanExit_kept hr hfilled 0
    · simp only [turn, hservers, if_false]
      cases hevents : t.events with
      | none => exact cleanExit_kept hr hfilled 0
      | some events =>
        obtain ⟨hreported, hsparing, hfresh⟩ := hallowed hservers events hevents
        have hwaiting : Waiting r r events := ⟨SameLinks.refl r, le_rfl, fun _ _ _ _ => rfl⟩
        rcases handleEpoll_waiting events hr hr hfilled hwaiting hreported.distinct
          hreported.present hsparing with ⟨hstale, -⟩ | ⟨-, ending, r₁, hrun, hr₁, hfilled₁⟩
        · exact absurd hstale hfresh
        · simp only [hrun, ok_bind]
          split
          · exact cleanExit_kept hr₁ hfilled₁ 1
          · obtain ⟨r₂, hcheck, hr₂, hfilled₂⟩ := checkTO_ok hr₁ hfilled₁ t.idle
            refine ⟨.running r₂, ?_, hr₂, hfilled₂⟩
            simp only [hcheck, ok_bind, pure_eq_ok]

/-- What holds at the beginning holds after any turns, and no other turn has a fault. -/
theorem kept_run {turns : List Turn} {s s' : State} (hs : Kept s)
    (hreaches : Reaches turn Allowed s turns s') :
    Kept s' ∧ ∀ t, Allowed s' t → ∃ s'', turn s' t = .ok s'' := by
  have hkept : Kept s' := by
    refine hreaches.invariant (I := Kept) hs ?_
    intro s₁ t hs₁ hallowed s₂ hturn
    obtain ⟨s₃, hrun, hkept⟩ := turn_kept hs₁ hallowed
    rw [hturn, Except.ok.injEq] at hrun
    exact hrun ▸ hkept
  refine ⟨hkept, ?_⟩
  intro t hallowed
  obtain ⟨s'', hrun, -⟩ := turn_kept hkept hallowed
  exact ⟨s'', hrun⟩

/-- A connection comes in, then all servers are taken away. -/
def shortRun : List Turn :=
  [{ events := some [.listen 0 true] },
    { events := some [.prompt false true (ascii "kill all")] }]

/-- The turns of the short run are allowed. -/
theorem shortRun_allowed (hserver : ∃ s, r.servers.get? 0 = some s) :
    Allowed (.running r) { events := some [.listen 0 true] } ∧
      ∀ s, Allowed s { events := some [.prompt false true (ascii "kill all")] } := by
  constructor
  · intro _ events hevents
    cases hevents
    refine ⟨⟨by decide, ?_⟩, ⟨?_, fun _ _ => True.intro⟩, And.right⟩
    · intro e he
      rw [List.mem_singleton.mp he]
      exact hserver
    · intro cmd hcmd
      cases hcmd
  · intro s
    cases s with
    | exited code r => exact True.intro
    | running r =>
      intro _ events hevents
      cases hevents
      refine ⟨⟨by decide, ?_⟩, ⟨?_, fun _ _ => True.intro⟩, ?_⟩
      · intro e he
        rw [List.mem_singleton.mp he]
        exact True.intro
      · intro cmd hcmd
        rw [killAll_command] at hcmd
        cases hcmd
        exact True.intro
      · unfold Stale
        rw [killAll_command]
        exact id

end Runs

end Webserveau.MainLoop
