import Webserveau.Registrations

/-!
The host of a connection.
Once the hosts are registered, a client goes to the host of the name asked for last, or to
the default one of its server, whatever was asked for before. A client that stays with its
host because the host has the name is where a new lookup would send it.
-/
namespace Webserveau.Registries

open ByteStrings OrderedMaps Formats Requests Arenas

/-- What happens to connections while the hosts stay the same. -/
inductive Connection
  | accept (ip port : Bytes) (accepts : Bool)
  | setHost (client : Address) (name : Bytes)
  | terminate (client : Address)

def Connection.command : Connection → Command
  | .accept ip port accepts => .accept ip port accepts
  | .setHost client name => .setHost client name
  | .terminate client => .terminate client

/-- The registry after hosts have been registered in their order, each with the ports that
could be opened for it, and connections have come, asked for hosts and gone. -/
def served (default_error_pages : Bytes) (hosts : List (HostConfig × (Bytes → Bool)))
    (connections : List Connection) : Ran Registry :=
  run default_error_pages .empty
    ((hosts.map fun host => .addHost host.1 host.2) ++ connections.map Connection.command)

/-- The host that a server knows under a name, or the one of its first name. -/
def chosen (s : ServerNode) (name : Bytes) : Option Address :=
  (s.hostMap.find? name).or (s.hostMap.entries.head?.map Prod.snd)

/-- A client is bound to a host: it is listed there once and nowhere else. -/
structure BoundTo (r : Registry) (c q : Address) : Prop where
  client : ∃ n, r.clients.get? c = some n ∧ n.host = some q
  listed : ∃ h, r.hosts.get? q = some h ∧ h.clients.count c = 1
  unlisted : ∀ y h, r.hosts.get? y = some h → y ≠ q → c ∉ h.clients
  adopted : ∀ p s, r.servers.get? p = some s → c ∉ s.orphanClients

/-- No host lists a client twice. -/
def ListsOnce (r : Registry) : Prop := ∀ q h, r.hosts.get? q = some h → h.clients.Nodup

/-- What holds of a registry that serves connections. -/
structure Serving (r : Registry) : Prop where
  sound : Sound r
  filled : Filled r
  listsOnce : ListsOnce r

section Choice

variable {r r' : Registry} {c q : Address} {n : ClientNode} {s : ServerNode}

theorem bindTarget_eq_ok_iff (name : Bytes) :
    Registry.bindTarget s name = .ok q ↔ chosen s name = some q := by
  unfold Registry.bindTarget chosen
  cases s.hostMap.find? name with
  | some host => simp
  | none =>
    cases s.hostMap.entries with
    | nil => simp
    | cons e es => simp

theorem ran_bind_eq_ok_iff {α β : Type} {x : Ran α} {f : α → Ran β} {b : β} :
    (x >>= f) = .ok b ↔ ∃ a, x = .ok a ∧ f a = .ok b := by
  cases x with
  | error e => exact ⟨nofun, fun ⟨_, h, _⟩ => nomatch h⟩
  | ok a => exact ⟨fun h => ⟨a, rfl, h⟩, fun ⟨_, ha, h⟩ => by rwa [Except.ok.inj ha]⟩

/-- The registry after a client has been put on the list of a host. -/
def bound (r : Registry) (c server q : Address) : Registry :=
  { r with
    servers := r.servers.update server fun s => s.adopt c
    hosts := r.hosts.update q fun h => h.addClient c
    clients := r.clients.update c fun c => { c with host := some q } }

/-- A client stays with a host that has the name, or leaves its host and is bound anew. -/
theorem setHost_cases (hc : r.clients.get? c = some n) {name : Bytes}
    (h : r.setHost c name = .ok r') :
    (∃ q g, n.host = some q ∧ r.hosts.get? q = some g ∧ name ∈ g.server_names ∧ r' = r) ∨
      ∃ r₁ t q, r.leaveHost c n.host = .ok r₁ ∧ r₁.servers.get? n.server = some t ∧
        chosen t name = some q ∧ r' = bound r₁ c n.server q := by
  have hanew : (do let r ← r.leaveHost c n.host; r.bindClient c n.server name) = .ok r' →
      ∃ r₁ t q, r.leaveHost c n.host = .ok r₁ ∧ r₁.servers.get? n.server = some t ∧
        chosen t name = some q ∧ r' = bound r₁ c n.server q := by
    intro hrun
    obtain ⟨r₁, hleave, hbind⟩ := ran_bind_eq_ok_iff.mp hrun
    unfold Registry.bindClient at hbind
    obtain ⟨t, ht, hfound⟩ := ran_bind_eq_ok_iff.mp hbind
    obtain ⟨q, hq, hchosen⟩ := ran_bind_eq_ok_iff.mp hfound
    obtain ⟨g, -, hdone⟩ := ran_bind_eq_ok_iff.mp hchosen
    cases hs : r₁.servers.get? n.server with
    | none =>
      rw [hs] at ht
      cases ht
    | some u =>
      rw [hs] at ht
      obtain rfl := Except.ok.inj ht
      exact ⟨r₁, u, q, hleave, hs, (bindTarget_eq_ok_iff name).mp hq, (Except.ok.inj hdone).symm⟩
  unfold Registry.setHost at h
  rw [hc, deref_some, ok_bind] at h
  cases hhost : n.host with
  | none =>
    rw [hhost] at h hanew
    exact Or.inr (hanew h)
  | some q =>
    rw [hhost] at h hanew
    cases hg : r.hosts.get? q with
    | none =>
      simp only [hg] at h
      cases h
    | some g =>
      simp only [hg, deref_some, ok_bind, pure_eq_ok] at h
      split at h
      · rename_i hknown
        have hname : name ∈ g.host.server_names := by
          simpa [Host.checkServerName] using hknown
        exact Or.inl ⟨q, g, rfl, hg, hname, (Except.ok.inj h).symm⟩
      · exact Or.inr (hanew h)

/-- Whether a client stays or is bound anew, it is with the chosen host. -/
theorem setHost_chosen (hr : Sound r) (hc : r.clients.get? c = some n)
    (hs : r.servers.get? n.server = some s) {name : Bytes} (h : r.setHost c name = .ok r') :
    ∃ q, chosen s name = some q ∧ r'.clients.get? c = some { n with host := some q } := by
  rcases setHost_cases hc h with ⟨q, g, hhost, hg, hname, rfl⟩ | ⟨r₁, t, q, hleave, ht, hq, rfl⟩
  · -- The host that has the name is the one its server knows under it.
    obtain ⟨k, hk, hlisted⟩ := hr.attached.bound c n q hc hhost
    rw [hg, Option.some.injEq] at hk
    subst hk
    obtain ⟨t, ht, hknows⟩ := hr.linked.listed q g n.server hg hlisted
    rw [hs, Option.some.injEq] at ht
    subst ht
    refine ⟨q, ?_, ?_⟩
    · unfold chosen
      rw [hknows name hname, Option.some_or]
    · rw [hc, ← hhost]
  · obtain ⟨r₂, hleave₂, -, hservers, hclients, -⟩ := leaveHost_ok hr hc
    rw [hleave, Except.ok.injEq] at hleave₂
    subst hleave₂
    rw [hservers, hs, Option.some.injEq] at ht
    subst ht
    refine ⟨q, hq, ?_⟩
    show (r₁.clients.update c _).get? c = _
    rw [hclients]
    exact Arena.get?_update_self _ hc

theorem leaveHost_listsOnce (hr : ListsOnce r) {host : Option Address}
    (h : r.leaveHost c host = .ok r') : ListsOnce r' := by
  unfold Registry.leaveHost at h
  cases host with
  | none =>
    cases h
    exact hr
  | some q =>
    obtain ⟨g, -, h⟩ := ran_bind_eq_ok_iff.mp h
    cases h
    intro y k hk
    rcases Arena.of_get?_update hk with ⟨-, k₀, hk₀, rfl⟩ | ⟨-, hk₀⟩
    · exact (hr _ k₀ hk₀).filter _
    · exact hr y k hk₀

theorem setHost_listsOnce (hr : Sound r) (hlists : ListsOnce r) (hc : r.clients.get? c = some n)
    {name : Bytes} (h : r.setHost c name = .ok r') : ListsOnce r' := by
  rcases setHost_cases hc h with ⟨q, g, -, -, -, rfl⟩ | ⟨r₁, t, q, hleave, -, -, rfl⟩
  · exact hlists
  · obtain ⟨r₂, hleave₂, -, -, -, hnotin⟩ := leaveHost_ok hr hc
    rw [hleave, Except.ok.injEq] at hleave₂
    subst hleave₂
    have honce := leaveHost_listsOnce hlists hleave
    intro y k hk
    rcases Arena.of_get?_update hk with ⟨-, k₀, hk₀, rfl⟩ | ⟨-, hk₀⟩
    · refine nodup_append_singleton (honce _ k₀ hk₀) ?_
      intro hmem
      exact ((hnotin _ k₀ hk₀ c).mp hmem).1 rfl
    · exact honce y k hk₀

/-- In a registry that serves connections, where a client is says where it is listed. -/
theorem Serving.boundTo (hr : Serving r) (hc : r.clients.get? c = some n)
    (hhost : n.host = some q) : BoundTo r c q := by
  obtain ⟨h, hh, -⟩ := hr.sound.attached.bound c n q hc hhost
  have hmem : c ∈ h.clients := (hr.sound.attached.holds q h hh c).mpr ⟨n, hc, hhost⟩
  refine ⟨⟨n, hc, hhost⟩, ⟨h, hh, List.count_eq_one_of_mem (hr.listsOnce q h hh) hmem⟩, ?_, ?_⟩
  · intro y g hg hy hlisted
    obtain ⟨m, hm, hmy⟩ := (hr.sound.attached.holds y g hg c).mp hlisted
    rw [hc, Option.some.injEq] at hm
    rw [← hm, hhost, Option.some.injEq] at hmy
    exact hy hmy.symm
  · intro p t ht horphan
    obtain ⟨m, hm, -, hnone⟩ := ((hr.sound.attached.serves p t ht).orphans c).mp horphan
    rw [hc, Option.some.injEq] at hm
    rw [← hm, hhost] at hnone
    cases hnone

/-- One call of `setHost`. -/
theorem Serving.setHost (hr : Serving r) (hc : r.clients.get? c = some n)
    (hs : r.servers.get? n.server = some s) (name : Bytes) :
    ∃ r' q, r.setHost c name = .ok r' ∧ Serving r' ∧ SameLinks r r' ∧ chosen s name = some q ∧
      r'.clients.get? c = some { n with host := some q } := by
  obtain ⟨r', hrun, hsound, hlinks⟩ := setHost_ok hr.sound hr.filled hc name
  obtain ⟨q, hchosen, hclient⟩ := setHost_chosen hr.sound hc hs hrun
  exact ⟨r', q, hrun, ⟨hsound, hlinks.filled hr.filled,
    setHost_listsOnce hr.sound hr.listsOnce hc hrun⟩, hlinks, hchosen, hclient⟩

end Choice

section Runs

variable (default_error_pages : Bytes) {r : Registry}

theorem listsOnce_link (hr : ListsOnce r) (p q : Address) (names : List Bytes) :
    ListsOnce (r.link p q names) := by
  intro y h hh
  rcases Arena.of_get?_update hh with ⟨-, h₀, hh₀, rfl⟩ | ⟨-, hh₀⟩
  · exact hr _ h₀ hh₀
  · exact hr y h hh₀

theorem addHost_listsOnce (hr : ListsOnce r) (config : HostConfig) (opens : Bytes → Bool) :
    ListsOnce (r.addHost config opens).2 := by
  have hports : ∀ (q : Address) (ports : List Bytes) (out : ℤ × Registry), ListsOnce out.2 →
      ListsOnce (ports.foldl (registerNext q config opens) out).2 := by
    intro q ports
    induction ports with
    | nil => exact fun out hout => hout
    | cons port ports ih =>
      intro out hout
      refine ih _ ?_
      show ListsOnce (out.2.registerPort q config port (opens port)).2
      unfold Registry.registerPort
      split
      · exact listsOnce_link hout _ _ _
      · split
        · exact listsOnce_link (r := out.2.allocServer config.addr port) hout _ _ _
        · exact hout
  rw [addHost_eq]
  refine hports _ _ _ ?_
  intro y h hh
  rcases Arena.of_get?_alloc hh with ⟨-, rfl⟩ | ⟨-, hold⟩
  · exact List.nodup_nil
  · exact hr y h hold

theorem Serving.addHost (hr : Serving r) (host : HostConfig × (Bytes → Bool)) :
    ∃ r', step default_error_pages r (.addHost host.1 host.2) = .ok r' ∧ Serving r' := by
  obtain ⟨r', hrun, hsound, hfilled, -⟩ :=
    @step_ok default_error_pages _ hr.sound hr.filled (.addHost host.1 host.2) True.intro
  refine ⟨r', hrun, hsound, hfilled, ?_⟩
  simp only [step] at hrun
  split at hrun
  · cases hrun
    exact hr.listsOnce
  · cases hrun
    apply addHost_listsOnce hr.listsOnce

/-- What happens to connections leaves servers and hosts linked as they are. -/
theorem Serving.connection (hr : Serving r) (connection : Connection) :
    ∃ r', step default_error_pages r connection.command = .ok r' ∧ Serving r' ∧
      SameLinks r r' := by
  cases connection with
  | accept ip port accepts =>
    simp only [Connection.command, step]
    cases hfind : r.findServer ip port with
    | none => exact ⟨r, rfl, hr, SameLinks.refl r⟩
    | some p =>
      obtain ⟨s, hs, -⟩ := findServer_some hfind
      obtain ⟨r', hrun, hsound, hlinks⟩ := acceptConnection_ok hr.sound hs accepts
      refine ⟨r', hrun, ⟨hsound, hlinks.filled hr.filled, ?_⟩, hlinks⟩
      rw [acceptConnection_eq hs] at hrun
      split at hrun
      · cases hrun
        exact hr.listsOnce
      · cases hrun
        exact hr.listsOnce
  | setHost c name =>
    simp only [Connection.command, step]
    cases hc : r.clients.get? c with
    | none => exact ⟨r, rfl, hr, SameLinks.refl r⟩
    | some n =>
      obtain ⟨s, hs⟩ := hr.sound.attached.served c n hc
      obtain ⟨r', q, hrun, hserving, hlinks, -⟩ := hr.setHost hc hs name
      exact ⟨r', hrun, hserving, hlinks⟩
  | terminate c =>
    simp only [Connection.command, step]
    cases hc : r.clients.get? c with
    | none => exact ⟨r, rfl, hr, SameLinks.refl r⟩
    | some n =>
      obtain ⟨r', hrun, hlinks, hattached, -⟩ := terminate_ok hr.sound hc
      refine ⟨r', hrun, ⟨⟨hlinks.linked hr.sound.linked, hattached⟩, hlinks.filled hr.filled, ?_⟩,
        hlinks⟩
      unfold Registry.terminate at hrun
      obtain ⟨m, -, hleaves⟩ := ran_bind_eq_ok_iff.mp hrun
      obtain ⟨r₁, hleave, hserved⟩ := ran_bind_eq_ok_iff.mp hleaves
      obtain ⟨t, -, hdone⟩ := ran_bind_eq_ok_iff.mp hserved
      cases hdone
      have honce : ListsOnce r₁ := leaveHost_listsOnce hr.listsOnce hleave
      exact honce

theorem serving_empty : Serving .empty := by
  refine ⟨sound_empty, filled_empty, ?_⟩
  intro q h hh
  cases hh

theorem run_append (cmds cmds' : List Command) :
    run default_error_pages r (cmds ++ cmds') =
      run default_error_pages r cmds >>= fun r => run default_error_pages r cmds' :=
  List.foldlM_append

theorem Serving.hosts (hosts : List (HostConfig × (Bytes → Bool))) (hr : Serving r) :
    ∃ r', run default_error_pages r (hosts.map fun host => .addHost host.1 host.2) = .ok r' ∧
      Serving r' := by
  induction hosts generalizing r with
  | nil => exact ⟨r, rfl, hr⟩
  | cons host hosts ih =>
    obtain ⟨r₁, hstep, hserving⟩ := hr.addHost default_error_pages host
    obtain ⟨r₂, hrun, hserving₂⟩ := ih hserving
    refine ⟨r₂, ?_, hserving₂⟩
    unfold run at hrun ⊢
    rw [List.map_cons, List.foldlM_cons, hstep, ok_bind, hrun]

theorem Serving.connections (connections : List Connection) (hr : Serving r) :
    ∃ r', run default_error_pages r (connections.map Connection.command) = .ok r' ∧ Serving r' ∧
      SameLinks r r' := by
  induction connections generalizing r with
  | nil => exact ⟨r, rfl, hr, SameLinks.refl r⟩
  | cons connection connections ih =>
    obtain ⟨r₁, hstep, hserving, hlinks⟩ := hr.connection default_error_pages connection
    obtain ⟨r₂, hrun, hserving₂, hlinks₂⟩ := ih hserving
    refine ⟨r₂, ?_, hserving₂, hlinks.trans hlinks₂⟩
    unfold run at hrun ⊢
    rw [List.map_cons, List.foldlM_cons, hstep, ok_bind, hrun]

/-- Every history of registered hosts and connections runs without a fault. -/
theorem served_ok (default_error_pages : Bytes) (hosts : List (HostConfig × (Bytes → Bool)))
    (connections : List Connection) :
    ∃ r, served default_error_pages hosts connections = .ok r ∧ Serving r := by
  obtain ⟨r₁, hhosts, hserving⟩ := serving_empty.hosts default_error_pages hosts
  obtain ⟨r₂, hrun, hserving₂, -⟩ := hserving.connections default_error_pages connections
  refine ⟨r₂, ?_, hserving₂⟩
  unfold served
  rw [run_append, hhosts, ok_bind, hrun]

/-- The calls of `setHost` for a client, one after another. -/
def setHosts (r : Registry) (c : Address) (names : List Bytes) : Ran Registry :=
  names.foldlM (fun r name => r.setHost c name) r

/-- After any calls the client is still there, with the same server. -/
theorem Serving.setHosts (names : List Bytes) {c : Address} {n : ClientNode} (hr : Serving r)
    (hc : r.clients.get? c = some n) :
    ∃ r' m, setHosts r c names = .ok r' ∧ Serving r' ∧ SameLinks r r' ∧
      r'.clients.get? c = some m ∧ m.server = n.server := by
  induction names generalizing r n with
  | nil => exact ⟨r, n, rfl, hr, SameLinks.refl r, hc, rfl⟩
  | cons name names ih =>
    obtain ⟨s, hs⟩ := hr.sound.attached.served c n hc
    obtain ⟨r₁, q, hrun, hserving, hlinks, -, hclient⟩ := hr.setHost hc hs name
    obtain ⟨r₂, m, hruns, hserving₂, hlinks₂, hm, hserver⟩ := ih hserving hclient
    refine ⟨r₂, m, ?_, hserving₂, hlinks.trans hlinks₂, hm, hserver⟩
    unfold Registries.setHosts at hruns ⊢
    rw [List.foldlM_cons, hrun, ok_bind, hruns]

/-- The host of a client depends on the name asked for last alone. -/
theorem host_selection_history_free (default_error_pages : Bytes)
    (hosts : List (HostConfig × (Bytes → Bool))) (connections : List Connection) :
    ∃ r, served default_error_pages hosts connections = .ok r ∧
      ∀ c n s, r.clients.get? c = some n → r.servers.get? n.server = some s →
        ∀ name, ∃ q, chosen s name = some q ∧ ∀ names, ∃ r',
          setHosts r c (names ++ [name]) = .ok r' ∧ BoundTo r' c q := by
  obtain ⟨r, hrun, hr⟩ := served_ok default_error_pages hosts connections
  refine ⟨r, hrun, ?_⟩
  intro c n s hc hs name
  obtain ⟨_, q, -, -, -, hq, -⟩ := hr.setHost hc hs name
  refine ⟨q, hq, ?_⟩
  intro names
  obtain ⟨r₁, m, hnames, hserving, hlinks, hm, hserver⟩ := hr.setHosts names hc
  obtain ⟨t, ht, -, -, hmap, -⟩ := hlinks.symm.server hs
  rw [← hserver] at ht
  obtain ⟨r₂, q₂, hlast, hserving₂, -, hq₂, hclient⟩ := hserving.setHost hm ht name
  have hsame : q₂ = q := by
    unfold chosen at hq hq₂
    rw [hmap, hq, Option.some.injEq] at hq₂
    exact hq₂.symm
  refine ⟨r₂, ?_, ?_⟩
  · unfold setHosts at hnames ⊢
    rw [List.foldlM_append, hnames, ok_bind, List.foldlM_cons, hlast, ok_bind]
    rfl
  · rw [← hsame]
    exact hserving₂.boundTo hclient rfl

end Runs

end Webserveau.Registries
