import Webserveau.MessageSteps
import Webserveau.ContinuedRequests

/-!
The requests of a connection.
In every run the bytes that a client has read are messages, one behind another, and the
beginning of what comes next; the requests that are handed over are these messages, each of
them once and in their order. Messages are delimited, so the bytes alone decide which requests
there are: neither the cuts of the reads, nor the pace of the writes, nor the server that is
spoken to make two runs disagree about them.
-/
namespace Webserveau.PipelinedRequests

open ByteStrings OrderedMaps Formats Requests Clients EventLoop Checks Transitions Replies
  LoopInvariants LoopSteps HeadSegmentation BodyEvents HandlerRules HostLookups Framings Messages
  MessageIntake MessageSteps RefusedRequests

/-- The bytes that a client reads in a run. -/
def received (c : Client) : List Event → Bytes
  | [] => []
  | event :: events => arrived c event ++
    match step c event with
    | .error _ => []
    | .ok d => received d events

theorem received_append {c d : Client} {events : List Event} (event : Event)
    (h : events.foldlM step c = .ok d) :
    received c (events ++ [event]) = received c events ++ arrived d event := by
  induction events generalizing c with
  | nil =>
    cases h
    have hlast : received d [event] = arrived d event ++
        match step d event with
        | .error _ => []
        | .ok e => received e [] := rfl
    rw [List.nil_append, hlast]
    cases step d event with
    | error e => exact List.append_nil _
    | ok e => exact List.append_nil _
  | cons first events ih =>
    rw [List.foldlM_cons, bind_eq_ok_iff] at h
    obtain ⟨e, hfirst, hrest⟩ := h
    simp only [List.cons_append, received, hfirst, ih hrest, List.append_assoc]

theorem reaches_foldlM {Allowed : Client → Event → Prop} {c d : Client} {events : List Event}
    (h : Reaches step Allowed c events d) : events.foldlM step c = .ok d := by
  induction h with
  | nil => rfl
  | snoc _ _ hstep ih =>
    rw [List.foldlM_append, ih]
    simp only [List.foldlM_cons, List.foldlM_nil, bind_pure]
    exact hstep

section Runs

variable {server server' : ListenServer} {events events' : List Event} {c c' : Client}

theorem newClient_left (server : ListenServer) :
    Left (stages server) [] (Client.newClient server) := by
  refine Or.inl ⟨newClient_belongs server, [], [], [], rfl, .nil, .nil,
    .heading ⟨rfl, rfl, rfl, ?_, fun _ => rfl⟩⟩
  show Status.new ≠ .term
  decide

/-- Where an error response is owed, the bytes of an incomplete head are not read. -/
theorem calm_reads {event : Event} (h : RefusedRequests.Calm c event) :
    Staged.Reads (stages server) c event := by
  cases event with
  | timeOut expired env => exact True.intro
  | epoll event =>
    rintro hreadable hne hheader ⟨-, hpending⟩
    exact hne (h hreadable hpending hheader)

/-- A run keeps the bytes, the messages and the place together. -/
theorem reached_left (h : Reaches step RefusedRequests.Calm (Client.newClient server) events c) :
    Sound (view c) ∧ Left (stages server) (received (Client.newClient server) events) c := by
  induction h with
  | nil =>
    refine ⟨?_, newClient_left server⟩
    rw [newClient_view]
    exact fresh_sound .read
  | snoc hrun hcalm hstep ih =>
    obtain ⟨hsound, hleft⟩ := ih
    refine ⟨(step_moves _ hsound _ hstep).sound, ?_⟩
    rw [received_append _ (reaches_foldlM hrun)]
    exact (messages_staged server).step _ hsound hleft (calm_reads hcalm) _ hstep

theorem terminate_unhanded (c : Client) : Unhanded c c.terminate :=
  (clear_unhanded.trans (Adds.of_eq rfl)).trans (Adds.record rfl rfl)

/-- In every run in which no bytes are read for a head that has been refused, the bytes that
were read are messages and a rest. The messages are what was handed over, in this order, and
the client is at some place of the rest. -/
theorem requests_framed
    (h : Reaches step RefusedRequests.Calm (Client.newClient server) events c) :
    ∃ front ms rest, received (Client.newClient server) events = front ++ rest ∧
      Framed Spells front ms ∧ Carried server ms c ∧
        (c.alive = true → Between server rest c) := by
  rcases (reached_left h).2 with hbehind | ⟨d, hbehind, rfl⟩
  · obtain ⟨-, front, ms, rest, heq, hframed, hcarried, hplace⟩ := hbehind
    exact ⟨front, ms, rest, heq, hframed, hcarried, fun _ => hplace⟩
  · obtain ⟨-, front, ms, rest, heq, hframed, hcarried, -⟩ := hbehind
    exact ⟨front, ms, rest, heq, hframed, Carried.unhanded hcarried (terminate_unhanded d), nofun⟩

/-- The bytes of an upload of five bytes. -/
def upload : Bytes := Uploads.uploadHead ++ ascii "hello"

/-- An upload and a request for a script behind it, in one read; then the first response. -/
def pipelined : List Event :=
  [ContinuedRequests.receiving (upload ++ scriptHead), writing .running []]

theorem start_calm (bytes : Bytes) :
    RefusedRequests.Calm (Client.newClient plainServer) (ContinuedRequests.receiving bytes) := by
  intro _ hpending
  exact absurd rfl hpending.owed

theorem writing_calm (c : Client) : RefusedRequests.Calm c (writing .running []) := by
  intro hreadable
  cases hreadable.2.1

theorem pipelined_reaches : ∃ c,
    Reaches step RefusedRequests.Calm (Client.newClient plainServer) pipelined c ∧
      (c.trace.filter handsOver).length = 2 := by
  have hrun : (step (Client.newClient plainServer)
      (ContinuedRequests.receiving (upload ++ scriptHead))).toOption.any (fun c =>
        (step c (writing .running [])).toOption.any fun d =>
          (d.trace.filter handsOver).length = 2) = true := by
    decide +kernel
  obtain ⟨c, hc, hstate⟩ := exists_of_any hrun
  obtain ⟨d, hd, hcount⟩ := exists_of_any hstate
  refine ⟨d, ?_, of_decide_eq_true hcount⟩
  exact .snoc (.snoc .nil (start_calm _) hc) (writing_calm c) hd

/-- Both requests of a read are messages. -/
theorem requests_framed_pipelined : ∃ c front ms rest, ms.length = 2 ∧
    received (Client.newClient plainServer) pipelined = front ++ rest ∧ Framed Spells front ms ∧
      Carried plainServer ms c ∧ (c.alive = true → Between plainServer rest c) := by
  obtain ⟨c, hrun, hcount⟩ := pipelined_reaches
  obtain ⟨front, ms, rest, heq, hframed, hcarried, hplace⟩ := requests_framed hrun
  exact ⟨c, front, ms, rest, hcarried.length_eq.trans hcount, heq, hframed, hcarried, hplace⟩

/-- Where one connection has read the beginning of what another one has, the messages that
their bytes make are those that they have handed over, and agree as far as both have. -/
theorem requests_unambiguous
    (h : Reaches step RefusedRequests.Calm (Client.newClient server) events c)
    (h' : Reaches step RefusedRequests.Calm (Client.newClient server') events' c')
    (hbytes : received (Client.newClient server) events <+:
      received (Client.newClient server') events') :
    ∃ front ms rest front' ms' rest',
      received (Client.newClient server) events = front ++ rest ∧ Framed Spells front ms ∧
        Carried server ms c ∧
      received (Client.newClient server') events' = front' ++ rest' ∧ Framed Spells front' ms' ∧
        Carried server' ms' c' ∧ (ms <+: ms' ∨ ms' <+: ms) := by
  obtain ⟨front, ms, rest, heq, hframed, hcarried, -⟩ := requests_framed h
  obtain ⟨front', ms', rest', heq', hframed', hcarried', -⟩ := requests_framed h'
  have hfront : front <+: received (Client.newClient server') events' := by
    rw [heq] at hbytes
    exact (List.prefix_append front rest).trans hbytes
  have hfront' : front' <+: received (Client.newClient server') events' := by
    rw [heq']
    exact List.prefix_append front' rest'
  exact ⟨front, ms, rest, front', ms', rest', heq, hframed, hcarried, heq', hframed', hcarried',
    hframed.agree messages_delimited hframed' hfront hfront'⟩

/-- The upload alone, cut in the middle of its body. -/
def cutUpload : List Event :=
  [ContinuedRequests.receiving (Uploads.uploadHead ++ ascii "he"),
    ContinuedRequests.receiving (ascii "llo")]

theorem cutUpload_reaches : ∃ c,
    Reaches step RefusedRequests.Calm (Client.newClient plainServer) cutUpload c ∧
      (c.trace.filter handsOver).length = 1 := by
  have hrun : (step (Client.newClient plainServer)
      (ContinuedRequests.receiving (Uploads.uploadHead ++ ascii "he"))).toOption.any (fun c =>
        c.headerStatus ≠ .ongoing ∧ (step c (ContinuedRequests.receiving
          (ascii "llo"))).toOption.any fun d => (d.trace.filter handsOver).length = 1) = true := by
    decide +kernel
  obtain ⟨c, hc, hstate⟩ := exists_of_any hrun
  obtain ⟨hheader, hnext⟩ := of_decide_eq_true hstate
  obtain ⟨d, hd, hcount⟩ := exists_of_any hnext
  refine ⟨d, ?_, of_decide_eq_true hcount⟩
  exact .snoc (.snoc .nil (start_calm _) hc) (fun _ _ hongoing => absurd hongoing hheader) hd

/-- The upload is the first of two messages, however it comes in. -/
theorem requests_unambiguous_cutUpload : ∃ c c' front ms rest front' ms' rest',
    upload = front ++ rest ∧ Framed Spells front ms ∧ Carried plainServer ms c ∧
      upload ++ scriptHead = front' ++ rest' ∧ Framed Spells front' ms' ∧
      Carried plainServer ms' c' ∧ ms.length = 1 ∧ ms'.length = 2 ∧
      (ms <+: ms' ∨ ms' <+: ms) := by
  obtain ⟨c, hrun, hcount⟩ := cutUpload_reaches
  obtain ⟨c', hrun', hcount'⟩ := pipelined_reaches
  have hcut : received (Client.newClient plainServer) cutUpload = upload := by decide +kernel
  have hwhole : received (Client.newClient plainServer) pipelined = upload ++ scriptHead := by
    decide +kernel
  have hbytes : received (Client.newClient plainServer) cutUpload <+:
      received (Client.newClient plainServer) pipelined := by
    rw [hcut, hwhole]
    exact List.prefix_append upload scriptHead
  obtain ⟨front, ms, rest, front', ms', rest', heq, hframed, hcarried, heq', hframed', hcarried',
    hagree⟩ := requests_unambiguous hrun hrun' hbytes
  rw [hcut] at heq
  rw [hwhole] at heq'
  exact ⟨c, c', front, ms, rest, front', ms', rest', heq, hframed, hcarried, heq', hframed',
    hcarried', hcarried.length_eq.trans hcount, hcarried'.length_eq.trans hcount', hagree⟩

end Runs

end Webserveau.PipelinedRequests
