import Webserveau.HostLookups
import Webserveau.MainLoop

/-!
All connections of the program at once, over one registry.
A client's handlers see the hosts of its server, which the registry holds for all clients.
In every interleaving of the connections each client goes through its own events as if it
were alone with the hosts its server was given, and the registry agrees with it on its host.
-/
namespace Webserveau.Connections

open ByteStrings OrderedMaps Formats Requests Arenas Registries Clients EventLoop Checks
  Transitions LoopInvariants LoopSteps HostLookups

/-- A map with another value under each key. -/
def mapValues {κ ν μ : Type*} {less : κ → κ → Bool} (f : ν → μ) (m : OrderedMap κ ν less) :
    OrderedMap κ μ less where
  entries := m.entries.map (Prod.map id f)
  sorted := List.pairwise_map.mpr m.sorted

theorem find?_mapValues {κ ν μ : Type*} {less : κ → κ → Bool} (f : ν → μ)
    (m : OrderedMap κ ν less) (k : κ) : (mapValues f m).find? k = (m.find? k).map f := by
  unfold OrderedMap.find? mapValues
  rw [List.find?_map, Option.map_map, Option.map_map]
  rfl

/-- The host at an address, as its clients see it. -/
def hostAt (r : Registry) (q : Address) : Host := ((r.hosts.get? q).map fun h => h.host).getD {}

/-- A server with hosts, as its clients see it. -/
def serverOf (default_error_pages : Bytes) (r : Registry) (s : ServerNode)
    (h : s.hostMap.entries ≠ []) : ListenServer where
  hostMap := mapValues (hostAt r) s.hostMap
  default_error_pages := default_error_pages
  inhabited := by
    unfold mapValues
    exact fun hnil => h (List.map_eq_nil_iff.mp hnil)

def serverAt (default_error_pages : Bytes) (r : Registry) (p : Address) : Option ListenServer :=
  match r.servers.get? p with
  | none => none
  | some s => if h : s.hostMap.entries ≠ [] then some (serverOf default_error_pages r s h) else none

/-- The registry with the clients at their addresses. -/
structure System where
  registry : Registry
  clients : Address → Option Client

/-- A connection comes in, or something happens to a client; the handlers of the event look
hosts up under some names. -/
inductive Happening
  | listen (server : Address) (accepts : Bool)
  | client (c : Address) (event : EventLoop.Event) (names : List Bytes)

/-- An exception leaves the loop, so that no step follows it. -/
def thrown {α : Type} (x : Checked α) : Ran α := x.mapError fun _ => .outOfRange

/-- A client that is gone is not kept. -/
def keep (client : Client) : Option Client := if client.alive then some client else none

def leaving (client : Client) : MainLoop.Leaving :=
  if client.alive then .stays else .terminates

/-- The registry is told what a handler does with hosts and whether it ends its client. -/
def step (default_error_pages : Bytes) (σ : System) : Happening → Ran System
  | .listen server accepts => do
    let (_, r) ← MainLoop.handleEvent σ.registry (.listen server accepts)
    if r.clients.next = σ.registry.clients.next then return { σ with registry := r }
    else return {
      registry := r
      clients := Function.update σ.clients σ.registry.clients.next
        ((serverAt default_error_pages σ.registry server).map Client.newClient) }
  | .client c event names => do
    let client ← deref (σ.clients c)
    let client ← thrown (EventLoop.step client event)
    let (_, r) ← MainLoop.handleEvent σ.registry (.client c names (leaving client))
    return { registry := r, clients := Function.update σ.clients c (keep client) }

/-- Events come to servers that are there, and the names are those that were looked up. -/
def Allowed (σ : System) : Happening → Prop
  | .listen server _ => ∃ s, σ.registry.servers.get? server = some s
  | .client c event names => ∀ client client', σ.clients c = some client →
    EventLoop.step client event = .ok client' → SameHost (names.foldl Client.setHost client) client'

/-- What happens to the client at an address. -/
def eventsOf (c : Address) : Happening → Option EventLoop.Event
  | .listen _ _ => none
  | .client d event _ => if d = c then some event else none

def own (c : Address) (past : List Happening) : List EventLoop.Event := past.filterMap (eventsOf c)

/-- A client's own run, from the connection on. -/
def Alone (server : ListenServer) (events : List EventLoop.Event) (client : Client) : Prop :=
  Reaches EventLoop.step (fun _ _ => True) (Client.newClient server) events client

/-- The registry and the client at an address agree on its server and its host. -/
structure Agrees (default_error_pages : Bytes) (r : Registry) (n : ClientNode) (client : Client) :
    Prop where
  server : serverAt default_error_pages r n.server = some client.listenServer
  host : client.host = n.host.map (hostAt r)

/-- What the handlers of one client leave as it was. -/
structure Beside (c : Address) (r r' : Registry) : Prop where
  next : r'.clients.next = r.clients.next
  others : ∀ d, d ≠ c → r'.clients.get? d = r.clients.get? d

/-- Each client has come from its own events, nobody else is there, and the hosts are those of
the start. -/
structure Isolated (default_error_pages : Bytes) (start : Registry) (past : List Happening)
    (σ : System) : Prop where
  serving : Serving σ.registry
  links : SameLinks start σ.registry
  present : ∀ c n, σ.registry.clients.get? c = some n → ∃ client, σ.clients c = some client ∧
    client.alive = true ∧ Agrees default_error_pages σ.registry n client ∧
      Alone client.listenServer (own c past) client
  absent : ∀ c, σ.registry.clients.get? c = none → σ.clients c = none
  unborn : ∀ c, σ.registry.clients.next ≤ c → own c past = []

section Views

variable {default_error_pages : Bytes} {r r' : Registry} {c p q : Address} {s : ServerNode}
  {n : ClientNode} {client client' : Client}

theorem hostAt_some {h : HostNode} (hh : r.hosts.get? q = some h) : hostAt r q = h.host := by
  unfold hostAt
  rw [hh, Option.map_some, Option.getD_some]

/-- The hosts do not change with the clients bound to them. -/
theorem hostAt_sameLinks (h : SameLinks r r') : hostAt r' = hostAt r := by
  funext q
  have hsame := congrArg (Option.map fun links => links.1.host) (h.hosts q)
  simp only [Option.map_map] at hsame
  exact congrArg (Option.getD · {}) hsame

theorem serverAt_some (hs : r.servers.get? p = some s) (h : s.hostMap.entries ≠ []) :
    serverAt default_error_pages r p = some (serverOf default_error_pages r s h) := by
  unfold serverAt
  rw [hs]
  exact dif_pos h

theorem serverAt_eq_some_iff {server : ListenServer} :
    serverAt default_error_pages r p = some server ↔ ∃ s h, r.servers.get? p = some s ∧
      server = serverOf default_error_pages r s h := by
  constructor
  · intro hserver
    unfold serverAt at hserver
    cases hs : r.servers.get? p with
    | none =>
      rw [hs] at hserver
      cases hserver
    | some s =>
      rw [hs] at hserver
      by_cases h : s.hostMap.entries ≠ []
      · simp only [dif_pos h] at hserver
        exact ⟨s, h, rfl, (Option.some.inj hserver).symm⟩
      · simp only [dif_neg h] at hserver
        cases hserver
  · rintro ⟨s, h, hs, rfl⟩
    exact serverAt_some hs h

theorem serverAt_sameLinks (h : SameLinks r r') (p : Address) :
    serverAt default_error_pages r' p = serverAt default_error_pages r p := by
  have hincluded : ∀ {r r' : Registry}, SameLinks r r' → ∀ server,
      serverAt default_error_pages r p = some server →
        serverAt default_error_pages r' p = some server := by
    intro r r' h server hserver
    obtain ⟨s, hne, hs, rfl⟩ := serverAt_eq_some_iff.mp hserver
    obtain ⟨t, ht, -, -, hmap, -⟩ := h.symm.server hs
    have hne' : t.hostMap.entries ≠ [] := by rwa [hmap]
    rw [serverAt_some ht hne']
    unfold serverOf
    simp only [hmap, hostAt_sameLinks h]
  ext server
  exact ⟨hincluded h.symm server, hincluded h server⟩

/-- The client's own lookup gives the host that the registry chooses. -/
theorem serverOf_bindClient {h : s.hostMap.entries ≠ []} {name : Bytes}
    (hchosen : chosen s name = some q) :
    (serverOf default_error_pages r s h).bindClient name = hostAt r q := by
  unfold ListenServer.bindClient
  show ((mapValues (hostAt r) s.hostMap).find? name).getD
    (List.head (s.hostMap.entries.map (Prod.map id (hostAt r))) _).2 = _
  rw [find?_mapValues]
  unfold chosen at hchosen
  cases hfind : s.hostMap.find? name with
  | some q' =>
    rw [hfind, Option.some_or, Option.some.injEq] at hchosen
    rw [hchosen]
    rfl
  | none =>
    rw [hfind, Option.none_or] at hchosen
    rw [List.head?_eq_some_head h, Option.map_some, Option.some.injEq] at hchosen
    rw [← hchosen]
    exact congrArg Prod.snd (List.head_map _)

/-- A lookup in the registry and the client's own lead to one host. -/
theorem setHost_agrees (hr : Serving r) (hc : r.clients.get? c = some n)
    (hagrees : Agrees default_error_pages r n client) (name : Bytes) :
    ∃ r' m, r.setHost c name = .ok r' ∧ Serving r' ∧ SameLinks r r' ∧
      r'.clients.get? c = some m ∧ Agrees default_error_pages r' m (client.setHost name) := by
  obtain ⟨s, hne, hs, hserver⟩ := serverAt_eq_some_iff.mp hagrees.server
  obtain ⟨r', q, hrun, hserving, hlinks, hchosen, hclient⟩ := hr.setHost hc hs name
  refine ⟨r', _, hrun, hserving, hlinks, hclient, ?_, ?_⟩
  · rw [serverAt_sameLinks hlinks, hagrees.server]
    unfold Client.setHost
    split
    · rfl
    · rfl
  · rw [hostAt_sameLinks hlinks]
    unfold Client.setHost
    split
    · -- The host that has the name is the one its server knows under it.
      rename_i hknown
      rw [hagrees.host] at hknown ⊢
      cases hhost : n.host with
      | none =>
        rw [hhost] at hknown
        cases hknown
      | some y =>
        obtain ⟨g, hg, hlisted⟩ := hr.sound.attached.bound c n y hc hhost
        obtain ⟨t, ht, hknows⟩ := hr.sound.linked.listed y g n.server hg hlisted
        rw [hs, Option.some.injEq] at ht
        rw [hhost, Option.map_some, Option.any_some, hostAt_some hg] at hknown
        have hname : name ∈ g.host.server_names := by simpa [Host.checkServerName] using hknown
        have hfound := hknows name hname
        unfold chosen at hchosen
        rw [ht, hfound, Option.some_or] at hchosen
        rw [Option.some.inj hchosen]
    · show some (client.listenServer.bindClient name) = some (hostAt r q)
      rw [hserver, serverOf_bindClient hchosen]

theorem setHosts_agrees (names : List Bytes) (hr : Serving r) (hc : r.clients.get? c = some n)
    (hagrees : Agrees default_error_pages r n client) :
    ∃ r' m, setHosts r c names = .ok r' ∧ Serving r' ∧ SameLinks r r' ∧ Beside c r r' ∧
      r'.clients.get? c = some m ∧
        Agrees default_error_pages r' m (names.foldl Client.setHost client) := by
  induction names generalizing r n client with
  | nil => exact ⟨r, n, rfl, hr, SameLinks.refl r, ⟨rfl, fun _ _ => rfl⟩, hc, hagrees⟩
  | cons name names ih =>
    obtain ⟨r₁, m₁, hfirst, hr₁, hlinks₁, hc₁, hagrees₁⟩ := setHost_agrees hr hc hagrees name
    obtain ⟨r₂, m₂, hrest, hr₂, hlinks₂, hbeside, hc₂, hagrees₂⟩ := ih hr₁ hc₁ hagrees₁
    have hnext : r₁.clients.next = r.clients.next := setHost_makesNone r name r₁ hfirst
    refine ⟨r₂, m₂, ?_, hr₂, hlinks₁.trans hlinks₂, ⟨hbeside.next.trans hnext, ?_⟩, hc₂, hagrees₂⟩
    · unfold setHosts at hrest ⊢
      rw [List.foldlM_cons, hfirst, ok_bind, hrest]
    · intro d hd
      exact (hbeside.others d hd).trans (MainLoop.setHost_others hc hfirst hd)

theorem Agrees.sameHost (h : Agrees default_error_pages r n client)
    (hsame : SameHost client client') : Agrees default_error_pages r n client' :=
  ⟨h.server.trans (congrArg some hsame.server.symm), hsame.host.trans h.host⟩

theorem Agrees.sameLinks (h : Agrees default_error_pages r n client) (hlinks : SameLinks r r') :
    Agrees default_error_pages r' n client :=
  ⟨(serverAt_sameLinks hlinks _).trans h.server, by rw [hostAt_sameLinks hlinks, h.host]⟩

end Views

section Steps

variable {default_error_pages : Bytes} {past : List Happening} {σ σ' : System} {start r : Registry}
  {c p : Address} {n : ClientNode} {client client' : Client} {event : EventLoop.Event}
  {names : List Bytes}

theorem own_self (past : List Happening) (c : Address) (event : EventLoop.Event)
    (names : List Bytes) :
    own c (past ++ [Happening.client c event names]) = own c past ++ [event] := by
  unfold own
  rw [List.filterMap_append]
  simp [eventsOf]

theorem own_other (past : List Happening) {c d : Address} (event : EventLoop.Event)
    (names : List Bytes) (h : c ≠ d) :
    own d (past ++ [Happening.client c event names]) = own d past := by
  unfold own
  rw [List.filterMap_append]
  simp [eventsOf, h]

theorem own_listen (past : List Happening) (d p : Address) (accepts : Bool) :
    own d (past ++ [Happening.listen p accepts]) = own d past := by
  unfold own
  rw [List.filterMap_append]
  simp [eventsOf]

theorem Isolated.node (h : Isolated default_error_pages start past σ)
    (hclient : σ.clients c = some client) :
    ∃ n, σ.registry.clients.get? c = some n := by
  cases hc : σ.registry.clients.get? c with
  | none =>
    rw [h.absent c hc] at hclient
    cases hclient
  | some n => exact ⟨n, rfl⟩

theorem lt_next {a : Arena ClientNode} (hc : a.get? c = some n) : c < a.next :=
  a.below _ (Arena.get?_eq_some_iff.mp hc)

/-- What the others keep when one client has had an event. -/
theorem Isolated.beside (h : Isolated default_error_pages start past σ)
    (hc : σ.registry.clients.get? c = some n) (hserving : Serving r)
    (hlinks : SameLinks σ.registry r) (hbeside : Beside c σ.registry r) (kept : Option Client)
    (hpresent : ∀ m, r.clients.get? c = some m → ∃ client, kept = some client ∧
      client.alive = true ∧ Agrees default_error_pages r m client ∧ Alone client.listenServer
        (own c past ++ [event]) client)
    (habsent : r.clients.get? c = none → kept = none) :
    Isolated default_error_pages start (past ++ [Happening.client c event names])
      { registry := r, clients := Function.update σ.clients c kept } := by
  have hself : Function.update σ.clients c kept c = kept := Function.update_self ..
  have hothers : ∀ d, d ≠ c → Function.update σ.clients c kept d = σ.clients d :=
    fun d hd => Function.update_of_ne hd ..
  constructor
  · exact hserving
  · exact h.links.trans hlinks
  · intro d m hd
    by_cases hdc : d = c
    · subst hdc
      obtain ⟨client, hkept, hrest⟩ := hpresent m hd
      rw [own_self]
      exact ⟨client, hself.trans hkept, hrest⟩
    · obtain ⟨other, hother, halive, hagrees, halone⟩ :=
        h.present d m ((hbeside.others d hdc).symm.trans hd)
      rw [own_other _ _ _ (Ne.symm hdc)]
      exact ⟨other, (hothers d hdc).trans hother, halive, hagrees.sameLinks hlinks, halone⟩
  · intro d hd
    by_cases hdc : d = c
    · subst hdc
      exact hself.trans (habsent hd)
    · exact (hothers d hdc).trans (h.absent d ((hbeside.others d hdc).symm.trans hd))
  · intro d hd
    have hnext : σ.registry.clients.next ≤ d := hbeside.next ▸ hd
    have hlt : c < σ.registry.clients.next := lt_next hc
    have hother : c ≠ d := Nat.ne_of_lt (Nat.lt_of_lt_of_le hlt hnext)
    rw [own_other _ _ _ hother]
    exact h.unborn d hnext

/-- An event of a client is handled without a fault, and the clients stay isolated. -/
theorem Isolated.handled (h : Isolated default_error_pages start past σ)
    (hclient : σ.clients c = some client) (hstep : EventLoop.step client event = .ok client')
    (hnames : SameHost (names.foldl Client.setHost client) client') :
    ∃ σ', step default_error_pages σ (.client c event names) = .ok σ' ∧
      Isolated default_error_pages start (past ++ [Happening.client c event names]) σ' := by
  obtain ⟨n, hc⟩ := h.node hclient
  obtain ⟨_, hsame, -, hagrees, halone⟩ := h.present c n hc
  obtain rfl := Option.some.inj (hclient.symm.trans hsame)
  obtain ⟨r₁, m, hrun, hr₁, hlinks, hbeside, hm, hagrees₁⟩ :=
    setHosts_agrees names h.serving hc hagrees
  have hserver : client'.listenServer = client.listenServer :=
    hnames.server.trans (setHosts_listenServer names client)
  have halone' : Alone client'.listenServer (own c past ++ [event]) client' := by
    rw [hserver]
    exact .snoc halone True.intro hstep
  unfold step
  simp only [hclient, deref_some, ok_bind, hstep, thrown, Except.mapError, MainLoop.handleEvent,
    MainLoop.handleClientEvent, hc, hrun]
  unfold leaving keep
  cases halive : client'.alive with
  | true =>
    refine ⟨_, rfl, h.beside hc hr₁ hlinks hbeside _ ?_ ?_⟩
    · intro m' hm'
      rw [hm, Option.some.injEq] at hm'
      subst hm'
      exact ⟨client', rfl, halive, hagrees₁.sameHost hnames, halone'⟩
    · intro hnone
      rw [hm] at hnone
      cases hnone
  | false =>
    obtain ⟨r₂, hterm, hr₂, hlinks₂⟩ := hr₁.connection default_error_pages (.terminate c)
    simp only [Connection.command, Registries.step, hm] at hterm
    obtain ⟨r₃, hterm', -, -, hleft⟩ := terminate_ok hr₁.sound hm
    obtain rfl := Except.ok.inj (hterm.symm.trans hterm')
    have hnext : r₂.clients.next = r₁.clients.next := terminate_makesNone r₁ c r₂ hterm
    have hgone : r₂.clients.get? c = none := by
      rw [Option.eq_none_iff_forall_ne_some]
      intro k hk
      exact ((hleft c k).mp hk).1 rfl
    simp only [Bool.false_eq_true, if_false, hterm, ok_bind]
    refine ⟨_, rfl, h.beside hc hr₂ (hlinks.trans hlinks₂) ⟨hnext.trans hbeside.next, ?_⟩ _ ?_ ?_⟩
    · intro d hd
      rw [← hbeside.others d hd]
      ext k
      rw [hleft]
      exact and_iff_right hd
    · intro k hk
      rw [hgone] at hk
      cases hk
    · exact fun _ => rfl

/-- A connection that is taken up starts a client at a new address. -/
theorem Isolated.listened (h : Isolated default_error_pages start past σ) {s : ServerNode}
    (hs : σ.registry.servers.get? p = some s) (accepts : Bool) :
    ∃ σ', step default_error_pages σ (.listen p accepts) = .ok σ' ∧
      Isolated default_error_pages start (past ++ [Happening.listen p accepts]) σ' := by
  obtain ⟨r, hrun, hserving, hlinks⟩ :=
    h.serving.connection default_error_pages (.accept s.ip s.port accepts)
  have hfound := findServer_of_get? h.serving.sound.linked hs
  simp only [Connection.command, Registries.step, hfound] at hrun
  have hcases := hrun
  rw [acceptConnection_eq hs] at hcases
  simp only [step, MainLoop.handleEvent, hrun, ok_bind, pure_eq_ok]
  split at hcases
  · cases hcases
    refine ⟨σ, by simp, h.serving, h.links, ?_, h.absent, ?_⟩
    · intro c n hc
      rw [own_listen]
      exact h.present c n hc
    · intro c hc
      rw [own_listen]
      exact h.unborn c hc
  · have hclients : r.clients = σ.registry.clients.alloc { server := p } := by
      cases hcases
      rfl
    have hnext : r.clients.next = σ.registry.clients.next + 1 := by
      rw [hclients]
      rfl
    have hnew : serverAt default_error_pages σ.registry p = some _ :=
      serverAt_some hs (h.serving.filled p s hs)
    have hne : ¬ r.clients.next = σ.registry.clients.next := by rw [hnext]; exact Nat.succ_ne_self _
    rw [if_neg hne]
    refine ⟨_, rfl, hserving, h.links.trans hlinks, ?_, ?_, ?_⟩
    · intro c n hc
      rw [own_listen]
      rw [hclients] at hc
      rcases Arena.of_get?_alloc hc with ⟨rfl, rfl⟩ | ⟨hold, hc⟩
      · refine ⟨_, (Function.update_self ..).trans (congrArg (Option.map _) hnew), rfl,
          ⟨?_, rfl⟩, ?_⟩
        · exact (serverAt_sameLinks hlinks p).trans hnew
        · rw [h.unborn _ le_rfl]
          exact .nil
      · obtain ⟨client, hclient, halive, hagrees, halone⟩ := h.present c n hc
        exact ⟨client, (Function.update_of_ne hold ..).trans hclient, halive,
          hagrees.sameLinks hlinks, halone⟩
    · intro c hc
      rw [hclients, Arena.get?_alloc] at hc
      split at hc
      · cases hc
      · rename_i hold
        exact (Function.update_of_ne hold ..).trans (h.absent c hc)
    · intro c hc
      rw [hnext] at hc
      rw [own_listen]
      exact h.unborn c (Nat.le_of_succ_le hc)

/-- Every happening that is allowed keeps the clients isolated. -/
theorem Isolated.step {happening : Happening} (h : Isolated default_error_pages start past σ)
    (hallowed : Allowed σ happening) (hstep : step default_error_pages σ happening = .ok σ') :
    Isolated default_error_pages start (past ++ [happening]) σ' := by
  cases happening with
  | listen p accepts =>
    obtain ⟨s, hs⟩ := hallowed
    obtain ⟨σ₁, hrun, hσ₁⟩ := h.listened hs accepts
    obtain rfl := Except.ok.inj (hstep.symm.trans hrun)
    exact hσ₁
  | client c event names =>
    have hcases := hstep
    obtain ⟨client, hderef, hcases⟩ := ran_bind_eq_ok_iff.mp hcases
    obtain ⟨client', hthrown, -⟩ := ran_bind_eq_ok_iff.mp hcases
    have hclient : σ.clients c = some client := by
      cases hc : σ.clients c with
      | none =>
        rw [hc] at hderef
        cases hderef
      | some other =>
        rw [hc] at hderef
        exact congrArg some (Except.ok.inj hderef)
    have hevent : EventLoop.step client event = .ok client' := by
      cases hrun : EventLoop.step client event with
      | error e =>
        rw [hrun] at hthrown
        cases hthrown
      | ok other =>
        rw [hrun] at hthrown
        exact congrArg Except.ok (Except.ok.inj hthrown)
    obtain ⟨σ₁, hrun, hσ₁⟩ := h.handled hclient hevent (hallowed client client' hclient hevent)
    obtain rfl := Except.ok.inj (hstep.symm.trans hrun)
    exact hσ₁

theorem Isolated.initial (hr : Serving r) (hnone : ∀ c, r.clients.get? c = none) :
    Isolated default_error_pages r [] { registry := r, clients := fun _ => none } where
  serving := hr
  links := SameLinks.refl r
  present c n hc := by
    rw [hnone c] at hc
    cases hc
  absent _ _ := rfl
  unborn _ _ := rfl

theorem Isolated.reached {σ₀ : System} {happenings : List Happening}
    (hstart : Isolated default_error_pages start [] σ₀)
    (hrun : Reaches (Connections.step default_error_pages) Allowed σ₀ happenings σ) :
    Isolated default_error_pages start happenings σ := by
  induction hrun with
  | nil => exact hstart
  | snoc _ hallowed hstep ih => exact ih.step hallowed hstep

/-- The names that an event looks up are those by which its client comes to its host. -/
theorem Isolated.looksUp (h : Isolated default_error_pages start past σ)
    (hclient : σ.clients c = some client) (hstep : EventLoop.step client event = .ok client') :
    ∃ names, Allowed σ (.client c event names) := by
  obtain ⟨n, hc⟩ := h.node hclient
  obtain ⟨other, hother, -, -, halone⟩ := h.present c n hc
  obtain rfl := Option.some.inj (hclient.symm.trans hother)
  obtain ⟨hsound, -⟩ := (asks_rules (Client.newClient client.listenServer)).reached
    (Asks.refl _) halone
  obtain ⟨names, hnames⟩ := step_asks event hsound hstep
  refine ⟨names, ?_⟩
  intro d d' hd hd'
  obtain rfl := Option.some.inj (hclient.symm.trans hd)
  obtain rfl := Except.ok.inj (hstep.symm.trans hd')
  exact hnames

/-- Whatever an event does to a client, the registry follows it without a fault. -/
theorem Isolated.followed (h : Isolated default_error_pages start past σ)
    (hclient : σ.clients c = some client) (hstep : EventLoop.step client event = .ok client')
    (hallowed : Allowed σ (.client c event names)) :
    ∃ σ', Connections.step default_error_pages σ (.client c event names) = .ok σ' ∧
      σ'.clients c = keep client' := by
  obtain ⟨σ', hrun, -⟩ := h.handled hclient hstep (hallowed client client' hclient hstep)
  refine ⟨σ', hrun, ?_⟩
  simp only [Connections.step, hclient, deref_some, ok_bind, hstep, thrown, Except.mapError] at hrun
  obtain ⟨out, -, hdone⟩ := ran_bind_eq_ok_iff.mp hrun
  cases hdone
  exact Function.update_self ..

end Steps

/-- Registering hosts brings no clients. -/
theorem registered_no_clients {default_error_pages : Bytes} {r r' : Registry} (hr : Serving r)
    (hnone : ∀ c, r.clients.get? c = none) (hosts : List (HostConfig × (Bytes → Bool)))
    (h : run default_error_pages r (hosts.map fun host => .addHost host.1 host.2) = .ok r') :
    ∀ c, r'.clients.get? c = none := by
  induction hosts generalizing r with
  | nil =>
    cases h
    exact hnone
  | cons host hosts ih =>
    obtain ⟨r₁, hstep, hserving⟩ := hr.addHost default_error_pages host
    obtain ⟨r₂, hstep₂, -, -, hnew⟩ :=
      @step_ok default_error_pages _ hr.sound hr.filled (.addHost host.1 host.2) True.intro
    obtain rfl := Except.ok.inj (hstep.symm.trans hstep₂)
    unfold run at h
    rw [List.map_cons, List.foldlM_cons, hstep, ok_bind] at h
    refine ih hserving ?_ h
    intro c
    rw [Option.eq_none_iff_forall_ne_some]
    intro n hc
    have hold := hnew True.intro c n hc
    rw [hnone c] at hold
    cases hold

/-- In every interleaving of connections, each client that is there is where its own events
alone lead from the hosts of its server, the registry has it with the host it takes itself to
have, and whatever its next event does to it, the registry follows by all names that are looked
up for it, without a fault. -/
theorem connections_isolated (default_error_pages : Bytes)
    (hosts : List (HostConfig × (Bytes → Bool))) :
    ∃ r, served default_error_pages hosts [] = .ok r ∧ ∀ happenings σ,
      Reaches (step default_error_pages) Allowed { registry := r, clients := fun _ => none }
        happenings σ →
      (∀ c n, σ.registry.clients.get? c = some n → ∃ server client,
        serverAt default_error_pages r n.server = some server ∧ σ.clients c = some client ∧
          client.alive = true ∧ Alone server (own c happenings) client ∧
            client.host = n.host.map (hostAt r)) ∧
      (∀ c, σ.registry.clients.get? c = none → σ.clients c = none) ∧
      ∀ c client event client', σ.clients c = some client →
        EventLoop.step client event = .ok client' →
          (∃ names, Allowed σ (.client c event names)) ∧
            ∀ names, Allowed σ (.client c event names) → ∃ σ',
              step default_error_pages σ (.client c event names) = .ok σ' ∧
                σ'.clients c = keep client' := by
  obtain ⟨r, hserved, hserving⟩ := served_ok default_error_pages hosts []
  have hnone : ∀ c, r.clients.get? c = none := by
    have hregistered := hserved
    unfold served at hregistered
    rw [List.map_nil, List.append_nil] at hregistered
    exact registered_no_clients serving_empty (fun c => Arena.get?_empty c) hosts hregistered
  refine ⟨r, hserved, ?_⟩
  intro happenings σ hrun
  have hσ := (Isolated.initial hserving hnone).reached hrun
  refine ⟨?_, hσ.absent, ?_⟩
  · intro c n hc
    obtain ⟨client, hclient, halive, hagrees, halone⟩ := hσ.present c n hc
    have hserver := hagrees.server
    have hhost := hagrees.host
    rw [serverAt_sameLinks hσ.links] at hserver
    rw [hostAt_sameLinks hσ.links] at hhost
    exact ⟨_, client, hserver, hclient, halive, halone, hhost⟩
  · intro c client event client' hclient hstep
    exact ⟨hσ.looksUp hclient hstep, fun names => hσ.followed hclient hstep⟩

end Webserveau.Connections
