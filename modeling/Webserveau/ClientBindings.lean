import Webserveau.RegistryLinks
import Webserveau.UniqueIterators

/-!
Clients, the servers that accepted them and the hosts they are bound to.
The lists of a server and of a host hold exactly the clients that refer to it. An
operation that is asked for while this holds has no fault.
-/
namespace Webserveau.Registries

open ByteStrings OrderedMaps Formats Requests Arenas

/-- The lists of a server at `p` hold the clients that refer to it. -/
structure ServerNode.Serves (s : ServerNode) (clients : Arena ClientNode) (p : Address) :
    Prop where
  connected_nodup : s.connectedClients.Nodup
  orphans_nodup : s.orphanClients.Nodup
  connected : ∀ c, c ∈ s.connectedClients ↔ ∃ n, clients.get? c = some n ∧ n.server = p
  orphans : ∀ c, c ∈ s.orphanClients ↔
    ∃ n, clients.get? c = some n ∧ n.server = p ∧ n.host = none

/-- The list of a host at `q` holds the clients bound to it. -/
def HostNode.Holds (h : HostNode) (clients : Arena ClientNode) (q : Address) : Prop :=
  ∀ c, c ∈ h.clients ↔ ∃ n, clients.get? c = some n ∧ n.host = some q

/-- Clients refer to what is there, and are listed by it. -/
structure Attached (r : Registry) : Prop where
  served : ∀ c n, r.clients.get? c = some n → ∃ s, r.servers.get? n.server = some s
  bound : ∀ c n q, r.clients.get? c = some n → n.host = some q →
    ∃ h, r.hosts.get? q = some h ∧ n.server ∈ h.listenServers
  serves : ∀ p s, r.servers.get? p = some s → s.Serves r.clients p
  holds : ∀ q h, r.hosts.get? q = some h → h.Holds r.clients q

structure Sound (r : Registry) : Prop where
  linked : Linked r
  attached : Attached r

/-- What an operation on the server at `p` leaves alone. -/
structure Kept (p : Address) (r r' : Registry) : Prop where
  clients : ∀ c n, r'.clients.get? c = some n → r.clients.get? c = some n
  servers : ∀ x, x ≠ p →
    (r'.servers.get? x).map ServerNode.links = (r.servers.get? x).map ServerNode.links
  hosts : ∀ q h, r.hosts.get? q = some h → ∃ h', r'.hosts.get? q = some h'

namespace Kept

variable {p : Address} {r r' r'' : Registry}

theorem trans (h : Kept p r r') (h' : Kept p r' r'') : Kept p r r'' := by
  constructor
  · exact fun c n hc => h.clients c n (h'.clients c n hc)
  · exact fun x hx => (h'.servers x hx).trans (h.servers x hx)
  · intro q g hg
    obtain ⟨g', hg'⟩ := h.hosts q g hg
    exact h'.hosts q g' hg'

theorem of_sameLinks (h : SameLinks r r')
    (hclients : ∀ c n, r'.clients.get? c = some n → r.clients.get? c = some n) :
    Kept p r r' := by
  constructor
  · exact hclients
  · exact fun x _ => h.servers x
  · intro q g hg
    obtain ⟨g', hg', -⟩ := h.symm.host hg
    exact ⟨g', hg'⟩

theorem filledBut (h : Kept p r r') (hr : FilledBut r p) : FilledBut r' p := by
  intro x t ht hx
  have hlinks := h.servers x hx
  rw [ht, Option.map_some, eq_comm, Option.map_eq_some_iff] at hlinks
  obtain ⟨u, hu, heq⟩ := hlinks
  simp only [ServerNode.links, Prod.mk.injEq] at heq
  rw [← heq.2.2.1]
  exact hr x u hu hx

end Kept

section Clients

variable {r : Registry} {c : Address} {n : ClientNode}

/-- A client that leaves its host is in no host's list. -/
theorem leaveHost_ok (hr : Sound r) (hc : r.clients.get? c = some n) :
    ∃ r', r.leaveHost c n.host = .ok r' ∧ SameLinks r r' ∧ r'.servers = r.servers ∧
      r'.clients = r.clients ∧
      ∀ y g, r'.hosts.get? y = some g → ∀ d, d ∈ g.clients ↔
        d ≠ c ∧ ∃ m, r.clients.get? d = some m ∧ m.host = some y := by
  unfold Registry.leaveHost
  cases hhost : n.host with
  | none =>
    refine ⟨r, rfl, SameLinks.refl r, rfl, rfl, ?_⟩
    intro y g hg d
    rw [hr.attached.holds y g hg d]
    constructor
    · intro ⟨m, hm, hy⟩
      refine ⟨?_, m, hm, hy⟩
      intro hd
      rw [hd, hc, Option.some.injEq] at hm
      rw [← hm, hhost] at hy
      cases hy
    · exact fun h => h.2
  | some q =>
    obtain ⟨h, hh, -⟩ := hr.attached.bound c n q hc hhost
    simp only [hh, deref_some, ok_bind, pure_eq_ok]
    refine ⟨_, rfl, SameLinks.update_host fun _ => rfl, rfl, rfl, ?_⟩
    intro y g hg d
    rcases Arena.of_get?_update hg with ⟨rfl, g₀, hg₀, rfl⟩ | ⟨hy, hg₀⟩
    · rw [← hr.attached.holds y g₀ hg₀ d]
      simp [HostNode.removeClient, and_comm]
    · rw [hr.attached.holds y g hg₀ d]
      constructor
      · intro ⟨m, hm, hmy⟩
        refine ⟨?_, m, hm, hmy⟩
        intro hd
        rw [hd, hc, Option.some.injEq] at hm
        rw [← hm, hhost, Option.some.injEq] at hmy
        exact hy hmy.symm
      · exact fun h => h.2

theorem get?_free_iff (c d : Address) (m : ClientNode) (a : Arena ClientNode) :
    (a.free c).get? d = some m ↔ d ≠ c ∧ a.get? d = some m := by
  constructor
  · exact Arena.of_get?_free
  · intro ⟨hd, hm⟩
    rw [Arena.get?_free_ne hd, hm]

theorem terminate_ok (hr : Sound r) (hc : r.clients.get? c = some n) :
    ∃ r', r.terminate c = .ok r' ∧ SameLinks r r' ∧ Attached r' ∧
      ∀ d m, r'.clients.get? d = some m ↔ d ≠ c ∧ r.clients.get? d = some m := by
  obtain ⟨r₁, hleave, hlinks, hservers, hclients, hlists⟩ := leaveHost_ok hr hc
  obtain ⟨s, hs⟩ := hr.attached.served c n hc
  unfold Registry.terminate
  simp only [hc, deref_some, ok_bind, hleave, hservers, hs, hclients, pure_eq_ok]
  have hsame : SameLinks r
      { r₁ with
        servers := r.servers.update n.server fun s => s.removeClient c
        clients := r.clients.free c } := by
    have hupdate : SameLinks r₁
        { r₁ with servers := r₁.servers.update n.server fun s => s.removeClient c } :=
      SameLinks.update_server fun _ => rfl
    rw [hservers] at hupdate
    exact (hlinks.trans hupdate).trans (SameLinks.with_clients _)
  refine ⟨_, rfl, hsame, ?_, ?_⟩
  · constructor
    · intro d m hm
      obtain ⟨-, hm⟩ := (get?_free_iff ..).mp hm
      obtain ⟨t, ht⟩ := hr.attached.served d m hm
      obtain ⟨t', ht', -⟩ := hsame.symm.server ht
      exact ⟨t', ht'⟩
    · intro d m q hm hq
      obtain ⟨-, hm⟩ := (get?_free_iff ..).mp hm
      obtain ⟨h, hh, hlisted⟩ := hr.attached.bound d m q hm hq
      obtain ⟨h', hh', -, hlist⟩ := hsame.symm.host hh
      refine ⟨h', hh', ?_⟩
      rw [hlist]
      exact hlisted
    · intro p t ht
      rcases Arena.of_get?_update ht with ⟨rfl, u, hu, rfl⟩ | ⟨hp, hu⟩
      · have hold := hr.attached.serves _ u hu
        constructor
        · exact hold.connected_nodup.filter _
        · exact hold.orphans_nodup.filter _
        · intro d
          simp only [ServerNode.removeClient, List.mem_filter, decide_eq_true_eq, get?_free_iff,
            hold.connected d, and_assoc, exists_and_left]
          rw [and_comm]
        · intro d
          simp only [ServerNode.removeClient, List.mem_filter, decide_eq_true_eq, get?_free_iff,
            hold.orphans d, and_assoc, exists_and_left]
          rw [and_comm]
      · have hold := hr.attached.serves p t hu
        have hother : ∀ d m, r.clients.get? d = some m → m.server = p → d ≠ c := by
          intro d m hm hmp hd
          rw [hd, hc, Option.some.injEq] at hm
          rw [← hmp, ← hm] at hp
          exact hp rfl
        refine ⟨hold.connected_nodup, hold.orphans_nodup, ?_, ?_⟩
        · intro d
          rw [hold.connected d]
          simp only [get?_free_iff]
          constructor
          · intro ⟨m, hm, hmp⟩
            exact ⟨m, ⟨hother d m hm hmp, hm⟩, hmp⟩
          · intro ⟨m, ⟨_, hm⟩, hmp⟩
            exact ⟨m, hm, hmp⟩
        · intro d
          rw [hold.orphans d]
          simp only [get?_free_iff]
          constructor
          · intro ⟨m, hm, hmp, hhost⟩
            exact ⟨m, ⟨hother d m hm hmp, hm⟩, hmp, hhost⟩
          · intro ⟨m, ⟨_, hm⟩, hmp, hhost⟩
            exact ⟨m, hm, hmp, hhost⟩
    · intro y g hg d
      rw [hlists y g hg d]
      simp only [get?_free_iff, and_assoc, exists_and_left]
  · intro d m
    exact get?_free_iff ..

theorem terminateAll_ok (cs : List Address) (hr : Sound r) (hnodup : cs.Nodup)
    (hcs : ∀ d ∈ cs, ∃ m, r.clients.get? d = some m) :
    ∃ r', r.terminateAll cs = .ok r' ∧ SameLinks r r' ∧ Attached r' ∧
      ∀ d m, r'.clients.get? d = some m ↔ d ∉ cs ∧ r.clients.get? d = some m := by
  induction cs generalizing r with
  | nil => exact ⟨r, rfl, SameLinks.refl r, hr.attached, by simp⟩
  | cons c cs ih =>
    obtain ⟨hnew, hrest⟩ := List.nodup_cons.mp hnodup
    obtain ⟨n, hc⟩ := hcs c (List.mem_cons_self ..)
    obtain ⟨r₁, hterm, hlinks, hattached, hleft⟩ := terminate_ok hr hc
    have hthere : ∀ d ∈ cs, ∃ m, r₁.clients.get? d = some m := by
      intro d hd
      obtain ⟨m, hm⟩ := hcs d (List.mem_cons_of_mem _ hd)
      refine ⟨m, (hleft d m).mpr ⟨?_, hm⟩⟩
      rintro rfl
      exact hnew hd
    obtain ⟨r₂, hall, hlinks₂, hattached₂, hleft₂⟩ :=
      ih ⟨hlinks.linked hr.linked, hattached⟩ hrest hthere
    refine ⟨r₂, ?_, hlinks.trans hlinks₂, hattached₂, ?_⟩
    · show (r.terminate c >>= fun r => r.terminateAll cs) = _
      rw [hterm, ok_bind, hall]
    · intro d m
      rw [hleft₂, hleft, List.mem_cons, not_or]
      constructor
      · intro ⟨hd, hdc, hm⟩
        exact ⟨⟨hdc, hd⟩, hm⟩
      · intro ⟨⟨hdc, hd⟩, hm⟩
        exact ⟨hd, hdc, hm⟩

end Clients

section Servers

variable {r : Registry} {p q : Address} {s : ServerNode} {h : HostNode}

/-- No client came through the server and is bound to the host. -/
def Spared (r : Registry) (p q : Address) : Prop :=
  ∀ c n, r.clients.get? c = some n → ¬ (n.server = p ∧ n.host = some q)

theorem unlinked_attached (hr : Attached r) (hs : r.servers.get? p = some s)
    (hh : r.hosts.get? q = some h) (hspared : Spared r p q) : Attached (unlinked r p q h) := by
  constructor
  · intro c n hc
    obtain ⟨t, ht⟩ := hr.served c n hc
    by_cases hp : n.server = p
    · rw [hp]
      exact ⟨_, Arena.get?_update_self _ hs⟩
    · exact ⟨t, (Arena.get?_update_ne _ hp).trans ht⟩
  · intro c n y hc hy
    obtain ⟨g, hg, hlisted⟩ := hr.bound c n y hc hy
    by_cases hyq : y = q
    · rw [hyq] at hg hy ⊢
      refine ⟨_, Arena.get?_update_self _ hg, (mem_removeListenServer ..).mpr ⟨hlisted, ?_⟩⟩
      intro hp
      exact hspared c n hc ⟨hp, hy⟩
    · exact ⟨g, (Arena.get?_update_ne _ hyq).trans hg, hlisted⟩
  · intro x t ht
    rcases Arena.of_get?_update ht with ⟨rfl, u, hu, rfl⟩ | ⟨hx, hu⟩
    · have hold := hr.serves x u hu
      refine ⟨hold.connected_nodup.filter _, hold.orphans_nodup, ?_, hold.orphans⟩
      intro c
      refine Iff.trans ?_ (hold.connected c)
      simp only [ServerNode.unassignHost, List.mem_filter, decide_eq_true_eq, and_iff_left_iff_imp]
      intro hconnected hheld
      obtain ⟨n, hn, hserver⟩ := (hold.connected c).mp hconnected
      obtain ⟨m, hm, hhost⟩ := (hr.holds q h hh c).mp hheld
      rw [hn, Option.some.injEq] at hm
      subst hm
      exact hspared c n hn ⟨hserver, hhost⟩
    · exact hr.serves x t hu
  · intro y g hg
    rcases Arena.of_get?_update hg with ⟨rfl, g₀, hg₀, rfl⟩ | ⟨hy, hg₀⟩
    · exact hr.holds y g₀ hg₀
    · exact hr.holds y g hg₀

theorem Kept.unlinked (r : Registry) (p q : Address) (h : HostNode) :
    Kept p r (unlinked r p q h) := by
  constructor
  · exact fun c n hc => hc
  · intro x hx
    show ((r.servers.update p _).get? x).map _ = _
    rw [Arena.get?_update_ne _ hx]
  · intro y g hg
    by_cases hy : y = q
    · rw [hy] at hg ⊢
      exact ⟨_, Arena.get?_update_self _ hg⟩
    · exact ⟨g, (Arena.get?_update_ne _ hy).trans hg⟩

/-- A server knows every host it has a name for under all names of the host. -/
theorem knows_of_find? (hr : Linked r) (hs : r.servers.get? p = some s) {n : Bytes}
    (hn : s.hostMap.find? n = some q) :
    ∃ h, r.hosts.get? q = some h ∧ p ∈ h.listenServers ∧ s.Knows q h := by
  obtain ⟨h, hh, -, -, -, hlisted⟩ := hr.mapped p s n q hs hn
  obtain ⟨t, ht, hknows⟩ := hr.listed q h p hh hlisted
  rw [hs, Option.some.injEq] at ht
  subst ht
  exact ⟨h, hh, hlisted, hknows⟩

theorem uniqueValues_eq (seen : List Address) (es : List (Bytes × Address)) :
    uniqueValues seen es = UniqueIterators.firsts seen es := by
  induction es generalizing seen with
  | nil => rfl
  | cons e es ih => rw [uniqueValues, UniqueIterators.firsts, ih, ih]

theorem uniqueValues_values (seen : List Address) (es : List (Bytes × Address)) :
    ((uniqueValues seen es).map Prod.snd).Nodup ∧
      ∀ v, v ∈ (uniqueValues seen es).map Prod.snd ↔ v ∉ seen ∧ v ∈ es.map Prod.snd := by
  rw [uniqueValues_eq]
  exact UniqueIterators.firsts_values seen es

theorem uniqueValues_subset (seen : List Address) (es : List (Bytes × Address)) :
    ∀ e ∈ uniqueValues seen es, e ∈ es := by
  rw [uniqueValues_eq]
  exact UniqueIterators.firsts_subset seen es

/-- One round of the loop over the hosts of a server takes the host off the server. -/
theorem unassignEntry_ok (hr : Sound r) (hs : r.servers.get? p = some s)
    (e : Bytes × Address) (he : s.hostMap.find? e.1 = some e.2) (hspared : Spared r p e.2) :
    ∃ r' s', Registry.unassignEntry p r e = .ok r' ∧ Sound r' ∧ Kept p r r' ∧
      r'.clients = r.clients ∧ r'.servers.get? p = some s' ∧ s'.ip = s.ip ∧ s'.port = s.port ∧
      ∀ n y, s'.hostMap.find? n = some y ↔ s.hostMap.find? n = some y ∧ y ≠ e.2 := by
  obtain ⟨h, hh, -, hknows⟩ := knows_of_find? hr.linked hs he
  refine ⟨unlinked r p e.2 h, s.unassignHost h.clients h.server_names, ?_, ⟨?_, ?_⟩,
    Kept.unlinked r p e.2 h, rfl, Arena.get?_update_self _ hs, rfl, rfl, ?_⟩
  · unfold Registry.unassignEntry
    simp only [hs, deref_some, ok_bind, he, if_true]
    exact unassignHost_ok hr.linked hs hh hknows
  · exact hr.linked.unlinked hs hh hknows
  · exact unlinked_attached hr.attached hs hh hspared
  · exact unassignHost_find?_iff hr.linked hs hh hknows h.clients

theorem unassignEntries_ok (es : List (Bytes × Address)) (hr : Sound r)
    (hs : r.servers.get? p = some s) (hdistinct : (es.map Prod.snd).Nodup)
    (hes : ∀ e ∈ es, s.hostMap.find? e.1 = some e.2) (hspared : ∀ q, Spared r p q) :
    ∃ r' s', es.foldlM (Registry.unassignEntry p) r = .ok r' ∧ Sound r' ∧ Kept p r r' ∧
      r'.clients = r.clients ∧ r'.servers.get? p = some s' ∧ s'.ip = s.ip ∧ s'.port = s.port ∧
      ∀ n y, s'.hostMap.find? n = some y ↔
        s.hostMap.find? n = some y ∧ y ∉ es.map Prod.snd := by
  induction es generalizing r s with
  | nil =>
    refine ⟨r, s, rfl, hr, Kept.of_sameLinks (SameLinks.refl r) fun _ _ hc => hc, rfl, hs, rfl,
      rfl, ?_⟩
    simp
  | cons e es ih =>
    obtain ⟨hnew, hrest⟩ := List.nodup_cons.mp hdistinct
    obtain ⟨r₁, s₁, hone, hr₁, hkept₁, hclients₁, hs₁, hip₁, hport₁, hfind₁⟩ :=
      unassignEntry_ok hr hs e (hes e (List.mem_cons_self ..)) (hspared e.2)
    have hes₁ : ∀ d ∈ es, s₁.hostMap.find? d.1 = some d.2 := by
      intro d hd
      rw [hfind₁]
      refine ⟨hes d (List.mem_cons_of_mem _ hd), ?_⟩
      intro heq
      exact hnew (heq ▸ List.mem_map_of_mem hd)
    have hspared₁ : ∀ q, Spared r₁ p q := by
      intro q c n hc
      rw [hclients₁] at hc
      exact hspared q c n hc
    obtain ⟨r₂, s₂, hall, hr₂, hkept₂, hclients₂, hs₂, hip₂, hport₂, hfind₂⟩ :=
      ih hr₁ hs₁ hrest hes₁ hspared₁
    refine ⟨r₂, s₂, ?_, hr₂, hkept₁.trans hkept₂, hclients₂.trans hclients₁, hs₂,
      hip₂.trans hip₁, hport₂.trans hport₁, ?_⟩
    · rw [List.foldlM_cons, hone, ok_bind, hall]
    · intro n y
      rw [hfind₂, hfind₁, List.map_cons, List.mem_cons, not_or, and_assoc]

/-- All clients of a server are terminated before its hosts are unassigned. -/
theorem terminateClients_ok (hr : Sound r) (hs : r.servers.get? p = some s) :
    ∃ r₁ s₁ r₂ s₂, r.terminateAll s.orphanClients = .ok r₁ ∧ r₁.servers.get? p = some s₁ ∧
      r₁.terminateAll s₁.connectedClients = .ok r₂ ∧ r₂.servers.get? p = some s₂ ∧
      Sound r₂ ∧ Kept p r r₂ ∧ s₂.hostMap = s.hostMap ∧
      ∀ c n, r₂.clients.get? c = some n → n.server ≠ p := by
  have hserves := hr.attached.serves p s hs
  obtain ⟨r₁, hfirst, hlinks₁, hattached₁, hleft₁⟩ := terminateAll_ok s.orphanClients hr
    hserves.orphans_nodup (fun d hd => by
      obtain ⟨m, hm, -⟩ := (hserves.orphans d).mp hd
      exact ⟨m, hm⟩)
  have hr₁ : Sound r₁ := ⟨hlinks₁.linked hr.linked, hattached₁⟩
  obtain ⟨s₁, hs₁, -, -, hmap₁, -⟩ := hlinks₁.symm.server hs
  have hserves₁ := hattached₁.serves p s₁ hs₁
  obtain ⟨r₂, hsecond, hlinks₂, hattached₂, hleft₂⟩ := terminateAll_ok s₁.connectedClients hr₁
    hserves₁.connected_nodup (fun d hd => by
      obtain ⟨m, hm, -⟩ := (hserves₁.connected d).mp hd
      exact ⟨m, hm⟩)
  obtain ⟨s₂, hs₂, -, -, hmap₂, -⟩ := hlinks₂.symm.server hs₁
  have hkept₁ : Kept p r r₁ := Kept.of_sameLinks hlinks₁ fun c n hc => ((hleft₁ c n).mp hc).2
  have hkept₂ : Kept p r₁ r₂ := Kept.of_sameLinks hlinks₂ fun c n hc => ((hleft₂ c n).mp hc).2
  refine ⟨r₁, s₁, r₂, s₂, hfirst, hs₁, hsecond, hs₂,
    ⟨hlinks₂.linked hr₁.linked, hattached₂⟩, hkept₁.trans hkept₂, hmap₂.trans hmap₁, ?_⟩
  intro c n hc hp
  obtain ⟨hnot, hc₁⟩ := (hleft₂ c n).mp hc
  exact hnot ((hserves₁.connected c).mpr ⟨n, hc₁, hp⟩)

/-- A server is removed with all its clients, and no host is registered on it any more. -/
theorem removeServer_ok (hr : Sound r) (hs : r.servers.get? p = some s) :
    ∃ r', r.removeServer p = .ok r' ∧ Sound r' ∧ Kept p r r' ∧
      (∀ x, r'.servers.get? x = none ↔ x = p ∨ r.servers.get? x = none) := by
  obtain ⟨r₁, s₁, r₂, s₂, hfirst, hs₁, hsecond, hs₂, hr₂, hkept₂, -, hgone⟩ :=
    terminateClients_ok hr hs
  have hvalues := uniqueValues_values [] s₂.hostMap.entries
  obtain ⟨r₃, s₃, hloop, hr₃, hkept₃, hclients₃, hs₃, -, -, hfind₃⟩ :=
    unassignEntries_ok (uniqueValues [] s₂.hostMap.entries) hr₂ hs₂ hvalues.1
      (fun e he => OrderedMap.find?_of_mem s₂.hostMap (uniqueValues_subset _ _ e he))
      (fun q c n hc hboth => hgone c n hc hboth.1)
  have hempty : s₃.hostMap.entries = [] := by
    rw [ServerNode.entries_eq_nil_iff]
    intro n y hn
    obtain ⟨hfind, hnot⟩ := (hfind₃ n y).mp hn
    obtain ⟨e, he, hey⟩ := OrderedMap.mem_of_find? hfind
    refine hnot ((hvalues.2 y).mpr ⟨List.not_mem_nil, ?_⟩)
    exact List.mem_map.mpr ⟨e, he, hey⟩
  have hkept : Kept p r r₃ := hkept₂.trans hkept₃
  refine ⟨{ r₃ with servers := r₃.servers.free p }, ?_, ⟨?_, ?_⟩, ⟨?_, ?_, ?_⟩, ?_⟩
  · unfold Registry.removeServer
    simp only [hs, deref_some, ok_bind, hfirst, hs₁, hsecond, hs₂, hloop, pure_eq_ok]
  · exact hr₃.linked.freeServer hs₃ hempty
  · constructor
    · intro c n hc
      obtain ⟨t, ht⟩ := hr₃.attached.served c n hc
      have hne : n.server ≠ p := hgone c n (hclients₃ ▸ hc)
      exact ⟨t, (Arena.get?_free_ne hne).trans ht⟩
    · exact hr₃.attached.bound
    · intro x t ht
      exact hr₃.attached.serves x t (Arena.of_get?_free ht).2
    · exact hr₃.attached.holds
  · exact hkept.clients
  · intro x hx
    show ((r₃.servers.free p).get? x).map _ = _
    rw [Arena.get?_free_ne hx]
    exact hkept.servers x hx
  · exact hkept.hosts
  · intro x
    show (r₃.servers.free p).get? x = none ↔ _
    rw [Arena.get?_free]
    split
    · rename_i hx
      simp [hx]
    · rename_i hx
      rw [or_iff_right hx]
      have hlinks := hkept.servers x hx
      rw [← Option.map_eq_none_iff (f := ServerNode.links), hlinks, Option.map_eq_none_iff]

end Servers

end Webserveau.Registries
