import Webserveau.RegistryRuns

/-!
Hosts that stay registered.
Adding hosts takes nothing away: a server keeps the names it has, and a host its place. A
host whose servers can all be opened is found under each of its names at each of its ports.
-/
namespace Webserveau.Registries

open ByteStrings OrderedMaps Formats Requests Arenas

/-- Servers keep their names, and hosts what their blocks gave them. -/
structure Grows (r r' : Registry) : Prop where
  server : ∀ p s, r.servers.get? p = some s → ∃ s', r'.servers.get? p = some s' ∧
    s'.ip = s.ip ∧ s'.port = s.port ∧
      ∀ n q, s.hostMap.find? n = some q → s'.hostMap.find? n = some q
  host : ∀ q h, r.hosts.get? q = some h →
    ∃ h', r'.hosts.get? q = some h' ∧ h'.toHostConfig = h.toHostConfig

/-- A server has a host under each of its names. -/
def HoldsAt (r : Registry) (q : Address) (config : HostConfig) (port : Bytes) : Prop :=
  ∃ p s, r.servers.get? p = some s ∧ s.ip = config.addr ∧ s.port = port ∧
    ∀ name ∈ config.host.server_names, s.hostMap.find? name = some q

/-- A host is found under each of its names at each of its ports. -/
def Registered (r : Registry) (config : HostConfig) : Prop :=
  ∃ q h, r.hosts.get? q = some h ∧ h.toHostConfig = config ∧ ∀ port ∈ config.ports,
    ∃ s, (r.findServer config.addr port).bind r.servers.get? = some s ∧
      ∀ name ∈ config.host.server_names, s.hostMap.find? name = some q

section Growth

variable {r r' r'' : Registry} {p q : Address} {config : HostConfig} {port : Bytes}

namespace Grows

theorem refl (r : Registry) : Grows r r :=
  ⟨fun _ s hs => ⟨s, hs, rfl, rfl, fun _ _ h => h⟩, fun _ h hh => ⟨h, hh, rfl⟩⟩

theorem trans (h : Grows r r') (h' : Grows r' r'') : Grows r r'' := by
  constructor
  · intro p s hs
    obtain ⟨s', hs', hip, hport, hnames⟩ := h.server p s hs
    obtain ⟨s'', hs'', hip', hport', hnames'⟩ := h'.server p s' hs'
    exact ⟨s'', hs'', hip'.trans hip, hport'.trans hport, fun n q hn => hnames' n q (hnames n q hn)⟩
  · intro q g hg
    obtain ⟨g', hg', hsame⟩ := h.host q g hg
    obtain ⟨g'', hg'', hsame'⟩ := h'.host q g' hg'
    exact ⟨g'', hg'', hsame'.trans hsame⟩

theorem link (r : Registry) (p q : Address) (names : List Bytes) :
    Grows r (r.link p q names) := by
  constructor
  · intro x s hs
    by_cases hx : x = p
    · rw [hx] at hs ⊢
      refine ⟨_, Arena.get?_update_self _ hs, rfl, rfl, ?_⟩
      intro n y hn
      exact (find?_assign n).trans (by rw [hn, Option.some_or])
    · exact ⟨s, (Arena.get?_update_ne _ hx).trans hs, rfl, rfl, fun _ _ h => h⟩
  · intro y h hh
    by_cases hy : y = q
    · rw [hy] at hh ⊢
      exact ⟨_, Arena.get?_update_self _ hh, rfl⟩
    · exact ⟨h, (Arena.get?_update_ne _ hy).trans hh, rfl⟩

theorem allocServer (r : Registry) (ip port : Bytes) : Grows r (r.allocServer ip port) :=
  ⟨fun _ s hs => ⟨s, Arena.get?_alloc_of_some hs, rfl, rfl, fun _ _ h => h⟩,
    fun _ h hh => ⟨h, hh, rfl⟩⟩

theorem allocHost (r : Registry) (node : HostNode) :
    Grows r { r with hosts := r.hosts.alloc node } :=
  ⟨fun _ s hs => ⟨s, hs, rfl, rfl, fun _ _ h => h⟩,
    fun _ h hh => ⟨h, Arena.get?_alloc_of_some hh, rfl⟩⟩

theorem registerPort (r : Registry) (q : Address) (config : HostConfig) (port : Bytes)
    (opens : Bool) : Grows r (r.registerPort q config port opens).2 := by
  unfold Registry.registerPort
  split
  · exact link ..
  · cases opens with
    | true => exact (allocServer ..).trans (link ..)
    | false => exact refl r

end Grows

/-- One turn of the loop over the ports. -/
def registerNext (q : Address) (config : HostConfig) (opens : Bytes → Bool) (out : ℤ × Registry)
    (port : Bytes) : ℤ × Registry :=
  let (res, r) := out.2.registerPort q config port (opens port)
  (if res ≠ 0 then 1 else out.1, r)

theorem addHost_eq (r : Registry) (config : HostConfig) (opens : Bytes → Bool) :
    r.addHost config opens = config.ports.foldl (registerNext r.hosts.next config opens)
      (0, { r with hosts := r.hosts.alloc { config with } }) := rfl

theorem registerPorts_grows (opens : Bytes → Bool) (ports : List Bytes) (out : ℤ × Registry) :
    Grows out.2 (ports.foldl (registerNext q config opens) out).2 := by
  induction ports generalizing out with
  | nil => exact Grows.refl _
  | cons port ports ih =>
    have hstep : Grows out.2 (registerNext q config opens out port).2 :=
      Grows.registerPort out.2 q config port (opens port)
    exact hstep.trans (ih _)

theorem addHost_grows (r : Registry) (config : HostConfig) (opens : Bytes → Bool) :
    Grows r (r.addHost config opens).2 :=
  (Grows.allocHost r { config with }).trans (registerPorts_grows opens config.ports
    (0, { r with hosts := r.hosts.alloc { config with } }))

theorem HoldsAt.grows (h : HoldsAt r q config port) (hr : Grows r r') :
    HoldsAt r' q config port := by
  obtain ⟨p, s, hs, hip, hport, hnames⟩ := h
  obtain ⟨s', hs', hip', hport', hkept⟩ := hr.server p s hs
  exact ⟨p, s', hs', hip'.trans hip, hport'.trans hport,
    fun name hname => hkept name q (hnames name hname)⟩

/-- A port whose server can be opened gets the host under all its names. -/
theorem registerPort_holds {ports : List Bytes} (hr : Registering r q config (port :: ports)) :
    HoldsAt (r.registerPort q config port true).2 q config port := by
  have hlink : ∀ (r₁ : Registry) (p : Address) (s : ServerNode),
      r₁.servers.get? p = some s → s.ip = config.addr → s.port = port →
      (∀ n ∈ config.host.server_names, s.hostMap.find? n = none) →
      HoldsAt (r₁.link p q config.host.server_names) q config port := by
    intro r₁ p s hs hip hport hfree
    refine ⟨p, _, Arena.get?_update_self _ hs, hip, hport, ?_⟩
    intro name hname
    exact (find?_assign name).trans (by rw [hfree name hname, Option.none_or, if_pos hname])
  unfold Registry.registerPort
  cases hfind : r.findServer config.addr port with
  | some p =>
    obtain ⟨s, hs, hip, hport⟩ := findServer_some hfind
    exact hlink r p s hs hip hport (hr.free port (List.mem_cons_self ..) p s hs hip hport)
  | none =>
    have hserver : (r.allocServer config.addr port).servers.get? r.servers.next =
        some { ip := config.addr, port := port } := by
      show (r.servers.alloc _).get? r.servers.next = _
      rw [Arena.get?_alloc, if_pos rfl]
    exact hlink _ r.servers.next _ hserver rfl rfl fun _ _ => rfl

theorem registerPorts_holds {opens : Bytes → Bool} (ports : List Bytes) (out : ℤ × Registry)
    (hr : Registering out.2 q config ports) (hports : ∀ port ∈ ports, port ∈ config.ports)
    (hnodup : ports.Nodup) (hopens : ∀ port ∈ ports, opens port = true) :
    ∀ port ∈ ports, HoldsAt (ports.foldl (registerNext q config opens) out).2 q config port := by
  induction ports generalizing out with
  | nil => exact nofun
  | cons port ports ih =>
    obtain ⟨hnew, hrest⟩ := List.nodup_cons.mp hnodup
    have hnext := (registerPort_ok (opens port) hr (hports port (List.mem_cons_self ..)) hnew).1
    have hopen := hopens port (List.mem_cons_self ..)
    intro port' hport'
    rcases List.mem_cons.mp hport' with rfl | hport'
    · have hhold := registerPort_holds hr
      rw [← hopen] at hhold
      exact HoldsAt.grows hhold
        (registerPorts_grows opens ports (registerNext q config opens out port'))
    · exact ih (registerNext q config opens out port) hnext
        (fun x hx => hports x (List.mem_cons_of_mem _ hx)) hrest
        (fun x hx => hopens x (List.mem_cons_of_mem _ hx)) port' hport'

/-- A host that is added is found under its names from then on. -/
theorem addHost_registered {opens : Bytes → Bool} (hr : Sound r) (hfilled : Filled r)
    (hnamed : config.host.server_names ≠ [])
    (hnames : r.checkServerNames config.addr config.ports config.host.server_names = true)
    (hopens : ∀ port ∈ config.ports, opens port = true) :
    ∃ q h, (r.addHost config opens).2.hosts.get? q = some h ∧ h.toHostConfig = config ∧
      ∀ port ∈ config.ports, HoldsAt (r.addHost config opens).2 q config port := by
  have hstart := addHost_registering hr hfilled hnamed hnames
  obtain ⟨h, hh, hconfig⟩ := hstart.host
  rw [addHost_eq]
  have hgrows := @registerPorts_grows r.hosts.next config opens config.ports
    (0, { r with hosts := r.hosts.alloc { config with } })
  obtain ⟨h', hh', hsame⟩ := hgrows.host _ h hh
  exact ⟨r.hosts.next, h', hh', hsame.trans hconfig,
    registerPorts_holds config.ports _ hstart (fun _ hx => hx) config.ports_nodup hopens⟩

theorem registered_of_holds (hr : Linked r) {h : HostNode} (hh : r.hosts.get? q = some h)
    (hconfig : h.toHostConfig = config) (hports : ∀ port ∈ config.ports, HoldsAt r q config port) :
    Registered r config := by
  refine ⟨q, h, hh, hconfig, ?_⟩
  intro port hport
  obtain ⟨p, s, hs, hip, hsport, hnames⟩ := hports port hport
  refine ⟨s, ?_, hnames⟩
  rw [← hip, ← hsport, findServer_of_get? hr hs, Option.bind_some, hs]

end Growth

end Webserveau.Registries
