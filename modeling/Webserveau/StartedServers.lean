import Webserveau.Registrations

/-!
The start of the servers.
A server that cannot listen is erased from the server list alone: the hosts registered on it
keep their pointers to it, and every server has such a host.
-/
namespace Webserveau.Registries

open ByteStrings OrderedMaps Formats Requests Arenas

/-- What the system calls answer for a server: whether its socket is added to epoll, and
whether it listens. -/
structure Listening where
  added : Bool
  listens : Bool
  deriving DecidableEq

def registerToEpoll (answer : Listening) : ℤ :=
  if answer.added = false then -1 else if answer.listens = false then -1 else 0

namespace Registry

/-- One turn of the loop of `startServers`. -/
def startServer (answers : Address → Listening) (out : ℤ × Registry) (server : Address) :
    ℤ × Registry :=
  if registerToEpoll (answers server) ≠ 0 then
    (1, { out.2 with servers := out.2.servers.free server })
  else out

/-- All servers of the list are started; 1 when at least one could not listen. -/
def startServers (answers : Address → Listening) (r : Registry) : ℤ × Registry :=
  (r.servers.objects.map Prod.fst).foldl (startServer answers) (0, r)

/-- The registry after hosts have been added, with the ports that could be opened. -/
def built (hosts : List (HostConfig × (Bytes → Bool))) : Registry :=
  hosts.foldl (fun r host => (r.addHost host.1 host.2).2) .empty

end Registry

/-- Every server that a host refers to is in the server list. -/
def NoDangling (r : Registry) : Prop :=
  ∀ q h, r.hosts.get? q = some h → ∀ p ∈ h.listenServers, ∃ s, r.servers.get? p = some s

/-- A host refers to each server. -/
def Occupied (r : Registry) : Prop :=
  ∀ p s, r.servers.get? p = some s → ∃ q h, r.hosts.get? q = some h ∧ p ∈ h.listenServers

section Start

variable {answers : Address → Listening}

theorem startServers_run (ps : List Address) (out : ℤ × Registry) :
    (ps.foldl (Registry.startServer answers) out).2.hosts = out.2.hosts ∧
      ∀ p, (ps.foldl (Registry.startServer answers) out).2.servers.get? p =
        if p ∈ ps ∧ registerToEpoll (answers p) ≠ 0 then none else out.2.servers.get? p := by
  induction ps generalizing out with
  | nil => exact ⟨rfl, fun p => (if_neg fun h => List.not_mem_nil h.1).symm⟩
  | cons x ps ih =>
    rw [List.foldl_cons]
    obtain ⟨hhosts, hservers⟩ := ih (Registry.startServer answers out x)
    have hstep : (Registry.startServer answers out x).2.hosts = out.2.hosts ∧
        ∀ p, (Registry.startServer answers out x).2.servers.get? p =
          if p = x ∧ registerToEpoll (answers p) ≠ 0 then none else out.2.servers.get? p := by
      unfold Registry.startServer
      split
      · rename_i hfails
        refine ⟨rfl, fun p => ?_⟩
        show (out.2.servers.free x).get? p = _
        rw [Arena.get?_free]
        by_cases hp : p = x
        · rw [if_pos hp, if_pos ⟨hp, by rwa [hp]⟩]
        · rw [if_neg hp, if_neg fun h => hp h.1]
      · rename_i hlistens
        refine ⟨rfl, fun p => (if_neg ?_).symm⟩
        intro ⟨hp, hfails⟩
        rw [hp] at hfails
        exact hlistens hfails
    refine ⟨hhosts.trans hstep.1, fun p => ?_⟩
    rw [hservers, hstep.2]
    by_cases hfails : registerToEpoll (answers p) ≠ 0
    · by_cases hmem : p ∈ ps
      · rw [if_pos ⟨hmem, hfails⟩, if_pos ⟨List.mem_cons_of_mem _ hmem, hfails⟩]
      · rw [if_neg fun h => hmem h.1]
        by_cases hp : p = x
        · rw [if_pos ⟨hp, hfails⟩, if_pos ⟨List.mem_cons.mpr (Or.inl hp), hfails⟩]
        · rw [if_neg fun h => hp h.1, if_neg fun h => (List.mem_cons.mp h.1).elim hp hmem]
    · rw [if_neg fun h => hfails h.2, if_neg fun h => hfails h.2, if_neg fun h => hfails h.2]

/-- A server is in the list afterwards when it was before and can listen. -/
theorem startServers_server (r : Registry) (p : Address) :
    (r.startServers answers).2.servers.get? p =
      if registerToEpoll (answers p) ≠ 0 then none else r.servers.get? p := by
  unfold Registry.startServers
  rw [(startServers_run _ (0, r)).2]
  by_cases hfails : registerToEpoll (answers p) ≠ 0
  · rw [if_pos hfails]
    split
    · rfl
    · rename_i habsent
      rw [Option.eq_none_iff_forall_ne_some]
      intro s hs
      refine habsent ⟨List.mem_map.mpr ⟨(p, s), Arena.get?_eq_some_iff.mp hs, rfl⟩, hfails⟩
  · rw [if_neg hfails, if_neg fun h => hfails h.2]

theorem startServers_hosts (r : Registry) : (r.startServers answers).2.hosts = r.hosts :=
  (startServers_run _ (0, r)).1

/-- No pointer dangles after the start exactly when every server can listen, provided that
none dangled before and no server was without a host. -/
theorem startServers_noDangling {r : Registry} (hr : NoDangling r) (hoccupied : Occupied r) :
    NoDangling (r.startServers answers).2 ↔
      ∀ p s, r.servers.get? p = some s → registerToEpoll (answers p) = 0 := by
  constructor
  · intro h p s hs
    obtain ⟨q, g, hg, hlisted⟩ := hoccupied p s hs
    obtain ⟨t, ht⟩ := h q g (by rw [startServers_hosts, hg]) p hlisted
    by_contra hfails
    rw [startServers_server, if_pos hfails] at ht
    cases ht
  · intro h q g hg p hlisted
    rw [startServers_hosts] at hg
    obtain ⟨s, hs⟩ := hr q g hg p hlisted
    refine ⟨s, ?_⟩
    rw [startServers_server, if_neg (not_not_intro (h p s hs)), hs]

end Start

section Building

variable {r : Registry} {p q : Address} {h : HostNode}

/-- What holds of the pointers while a host at `q` is registered at its ports. -/
structure Pointing (r : Registry) (q : Address) : Prop where
  host : ∃ h, r.hosts.get? q = some h
  noDangling : NoDangling r
  occupied : Occupied r

/-- A host that is registered on a server points to it. The other servers have hosts. -/
theorem Pointing.link (hh : r.hosts.get? q = some h) (hr : NoDangling r) {s : ServerNode}
    (hs : r.servers.get? p = some s)
    (hothers : ∀ x t, r.servers.get? x = some t → x ≠ p →
      ∃ y g, r.hosts.get? y = some g ∧ x ∈ g.listenServers) (names : List Bytes) :
    Pointing (r.link p q names) q := by
  have hthere : ∀ x t, r.servers.get? x = some t →
      ∃ t', (r.link p q names).servers.get? x = some t' := by
    intro x t ht
    obtain ⟨t', ht', -⟩ := (Grows.link r p q names).server x t ht
    exact ⟨t', ht'⟩
  have hself : (r.link p q names).hosts.get? q = some (h.addListenServer p) :=
    Arena.get?_update_self _ hh
  refine ⟨⟨_, hself⟩, ?_, ?_⟩
  · intro y g hg x hx
    rcases Arena.of_get?_update hg with ⟨-, g₀, hg₀, rfl⟩ | ⟨-, hg₀⟩
    · rcases (mem_addListenServer ..).mp hx with rfl | hold
      · exact hthere x s hs
      · obtain ⟨t, ht⟩ := hr q g₀ hg₀ x hold
        exact hthere x t ht
    · obtain ⟨t, ht⟩ := hr y g hg₀ x hx
      exact hthere x t ht
  · intro x t ht
    by_cases hx : x = p
    · exact ⟨q, _, hself, (mem_addListenServer ..).mpr (Or.inl hx)⟩
    · rcases Arena.of_get?_update ht with ⟨hxp, -⟩ | ⟨-, hold⟩
      · exact absurd hxp hx
      · obtain ⟨y, g, hg, hlisted⟩ := hothers x t hold hx
        by_cases hy : y = q
        · rw [hy, hh, Option.some.injEq] at hg
          rw [← hg] at hlisted
          exact ⟨q, _, hself, (mem_addListenServer ..).mpr (Or.inr hlisted)⟩
        · exact ⟨y, g, (Arena.get?_update_ne _ hy).trans hg, hlisted⟩

theorem Pointing.registerPort (hr : Pointing r q) (config : HostConfig) (port : Bytes)
    (opens : Bool) : Pointing (r.registerPort q config port opens).2 q := by
  obtain ⟨h, hh⟩ := hr.host
  unfold Registry.registerPort
  cases hfind : r.findServer config.addr port with
  | some p =>
    obtain ⟨s, hs, -⟩ := findServer_some hfind
    exact Pointing.link hh hr.noDangling hs (fun x t ht _ => hr.occupied x t ht) _
  | none =>
    cases opens with
    | false => exact hr
    | true =>
      have hserver : (r.allocServer config.addr port).servers.get? r.servers.next =
          some { ip := config.addr, port := port } := by
        show (r.servers.alloc _).get? r.servers.next = _
        rw [Arena.get?_alloc, if_pos rfl]
      refine Pointing.link (r := r.allocServer config.addr port) hh ?_ hserver ?_ _
      · intro y g hg x hx
        obtain ⟨t, ht⟩ := hr.noDangling y g hg x hx
        exact ⟨t, Arena.get?_alloc_of_some ht⟩
      · intro x t ht hx
        rcases Arena.of_get?_alloc ht with ⟨hnext, -⟩ | ⟨-, hold⟩
        · exact absurd hnext hx
        · exact hr.occupied x t hold

theorem Pointing.registerPorts (opens : Bytes → Bool) (config : HostConfig) (ports : List Bytes)
    (out : ℤ × Registry) (hr : Pointing out.2 q) :
    Pointing (ports.foldl (registerNext q config opens) out).2 q := by
  induction ports generalizing out with
  | nil => exact hr
  | cons port ports ih => exact ih _ (hr.registerPort config port (opens port))

theorem addHost_pointing (hr : NoDangling r) (hoccupied : Occupied r) (config : HostConfig)
    (opens : Bytes → Bool) :
    NoDangling (r.addHost config opens).2 ∧ Occupied (r.addHost config opens).2 := by
  have hstart : Pointing { r with hosts := r.hosts.alloc { config with } } r.hosts.next := by
    refine ⟨⟨{ config with }, ?_⟩, ?_, ?_⟩
    · show (r.hosts.alloc _).get? r.hosts.next = _
      rw [Arena.get?_alloc, if_pos rfl]
    · intro y g hg x hx
      rcases Arena.of_get?_alloc hg with ⟨-, rfl⟩ | ⟨-, hold⟩
      · cases hx
      · exact hr y g hold x hx
    · intro x t ht
      obtain ⟨y, g, hg, hlisted⟩ := hoccupied x t ht
      exact ⟨y, g, Arena.get?_alloc_of_some hg, hlisted⟩
  rw [addHost_eq]
  have hdone := hstart.registerPorts opens config config.ports (0, _)
  exact ⟨hdone.noDangling, hdone.occupied⟩

theorem built_pointing (hosts : List (HostConfig × (Bytes → Bool))) :
    NoDangling (Registry.built hosts) ∧ Occupied (Registry.built hosts) := by
  induction hosts using List.reverseRecOn with
  | nil =>
    constructor
    · intro q h hh
      cases hh
    · intro p s hs
      cases hs
  | append_singleton hosts host ih =>
    unfold Registry.built at ih ⊢
    rw [List.foldl_concat]
    exact addHost_pointing ih.1 ih.2 host.1 host.2

/-- After the start no host refers to a server that is gone exactly when all servers listen. -/
theorem started_noDangling_iff (hosts : List (HostConfig × (Bytes → Bool)))
    (answers : Address → Listening) :
    NoDangling ((Registry.built hosts).startServers answers).2 ↔
      ∀ p s, (Registry.built hosts).servers.get? p = some s → registerToEpoll (answers p) = 0 :=
  startServers_noDangling (built_pointing hosts).1 (built_pointing hosts).2

/-- A host on two ports of which the second cannot be listened on. -/
theorem failed_server_dangles :
    ¬ ∀ (hosts : List (HostConfig × (Bytes → Bool))) (answers : Address → Listening),
      NoDangling ((Registry.built hosts).startServers answers).2 := by
  intro hclaim
  obtain ⟨hkept, hoccupied⟩ := built_pointing [(twoPorts, fun _ => true)]
  have hall := (startServers_noDangling hkept hoccupied).mp
    (hclaim _ fun p => { added := true, listens := p = 0 })
  have hserver : ((Registry.built [(twoPorts, fun _ => true)]).servers.get? 1).isSome = true := by
    decide +kernel
  obtain ⟨s, hs⟩ := Option.isSome_iff_exists.mp hserver
  exact absurd (hall 1 s hs) (by decide)

end Building

end Webserveau.Registries
