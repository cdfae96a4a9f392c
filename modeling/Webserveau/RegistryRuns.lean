import Webserveau.ClientBindings

/-!
Runs of the registry.
Each command is described for a registry whose parts agree and whose servers all have
names; what is proved of runs is read off.
-/
namespace Webserveau.Registries

open ByteStrings OrderedMaps Formats Requests Arenas

/-- No client appears. -/
def NoNew (r r' : Registry) : Prop :=
  ∀ c n, r'.clients.get? c = some n → r.clients.get? c = some n

section Removal

variable {r : Registry} {p q : Address} {s : ServerNode} {h : HostNode}

theorem Attached.freeHost (hr : Attached r) (hh : r.hosts.get? q = some h)
    (hempty : h.listenServers = []) : Attached { r with hosts := r.hosts.free q } := by
  constructor
  · exact hr.served
  · intro c n y hc hy
    obtain ⟨g, hg, hlisted⟩ := hr.bound c n y hc hy
    have hne : y ≠ q := by
      intro hyq
      rw [hyq, hh, Option.some.injEq] at hg
      rw [← hg, hempty] at hlisted
      cases hlisted
    exact ⟨g, (Arena.get?_free_ne hne).trans hg, hlisted⟩
  · exact hr.serves
  · intro y g hg
    exact hr.holds y g (Arena.of_get?_free hg).2

/-- A host that is registered nowhere has no clients, and goes without a fault. -/
theorem shutdownHost_ok (hr : Sound r) (hh : r.hosts.get? q = some h)
    (hempty : h.listenServers = []) :
    r.shutdownHost q = .ok { r with hosts := r.hosts.free q } ∧
      Sound { r with hosts := r.hosts.free q } := by
  have hnone : h.clients = [] := by
    rw [List.eq_nil_iff_forall_not_mem]
    intro c hc
    obtain ⟨n, hn, hhost⟩ := (hr.attached.holds q h hh c).mp hc
    obtain ⟨g, hg, hlisted⟩ := hr.attached.bound c n q hn hhost
    rw [hh, Option.some.injEq] at hg
    rw [← hg, hempty] at hlisted
    cases hlisted
  constructor
  · unfold Registry.shutdownHost
    simp [hh, hnone]
  · exact ⟨hr.linked.freeHost hh hempty, hr.attached.freeHost hh hempty⟩

theorem filledBut_of_filled (hr : Filled r) : FilledBut r p :=
  fun x t ht _ => hr x t ht

/-- A host leaves a server; what is left without names or without servers goes too. -/
theorem unregisterAt_ok (hr : Sound r) (hfilled : Filled r) (hs : r.servers.get? p = some s)
    (hh : r.hosts.get? q = some h) (hknows : s.Knows q h) (hspared : Spared r p q) :
    ∃ r', r.unregisterAt q p = .ok r' ∧ Sound r' ∧ Filled r' ∧ NoNew r r' := by
  have hsound₁ : Sound (unlinked r p q h) :=
    ⟨hr.linked.unlinked hs hh hknows, unlinked_attached hr.attached hs hh hspared⟩
  have hkept₁ := Kept.unlinked r p q h
  have hbut₁ := hkept₁.filledBut (filledBut_of_filled hfilled)
  have hs₁ : (unlinked r p q h).servers.get? p =
      some (s.unassignHost h.clients h.server_names) := Arena.get?_update_self _ hs
  have hserver : ∃ r₂, (unlinked r p q h).removeEmpty p = .ok r₂ ∧
      Sound r₂ ∧ Filled r₂ ∧ Kept p r r₂ := by
    unfold Registry.removeEmpty
    simp only [hs₁, deref_some, ok_bind]
    split
    · obtain ⟨r₂, hremove, hsound₂, hkept₂, hgone⟩ := removeServer_ok hsound₁ hs₁
      refine ⟨r₂, hremove, hsound₂, ?_, hkept₁.trans hkept₂⟩
      intro x t ht
      refine hkept₂.filledBut hbut₁ x t ht ?_
      rintro rfl
      rw [(hgone x).mpr (Or.inl rfl)] at ht
      cases ht
    · rename_i hnonempty
      refine ⟨_, rfl, hsound₁, ?_, hkept₁⟩
      intro x t ht
      by_cases hx : x = p
      · rw [hx, hs₁, Option.some.injEq] at ht
        rw [← ht]
        exact hnonempty
      · exact hbut₁ x t ht hx
  obtain ⟨r₂, hrun, hsound₂, hfilled₂, hkept₂⟩ := hserver
  obtain ⟨h₂, hh₂⟩ := hkept₂.hosts q h hh
  unfold Registry.unregisterAt
  simp only [unassignHost_ok hr.linked hs hh hknows, ok_bind, hrun, hh₂, deref_some]
  split
  · rename_i hempty
    obtain ⟨hshutdown, hsound₃⟩ := shutdownHost_ok hsound₂ hh₂ hempty
    exact ⟨_, hshutdown, hsound₃, hfilled₂, hkept₂.clients⟩
  · exact ⟨r₂, rfl, hsound₂, hfilled₂, hkept₂.clients⟩

theorem findServer_of_get? (hr : Linked r) (hs : r.servers.get? p = some s) :
    r.findServer s.ip s.port = some p := by
  cases hfind : r.findServer s.ip s.port with
  | none => exact absurd ⟨rfl, rfl⟩ (findServer_none hfind hs)
  | some p' =>
    obtain ⟨s', hs', hip, hport⟩ := findServer_some hfind
    rw [hr.distinct p' p s' s hs' hs hip hport]

theorem checkServerNames_iff (hr : Linked r) {addr : Bytes} {ports names : List Bytes} :
    r.checkServerNames addr ports names = true ↔ ∀ port ∈ ports, ∀ p s,
      r.servers.get? p = some s → s.ip = addr → s.port = port →
        ∀ name ∈ names, s.hostMap.find? name = none := by
  unfold Registry.checkServerNames
  rw [List.all_eq_true]
  refine forall₂_congr fun port _ => ?_
  constructor
  · rintro hall p s hs rfl rfl name hname
    rw [findServer_of_get? hr hs, Option.bind_some, hs, Option.all_some, List.all_eq_true] at hall
    simpa using hall name hname
  · intro h
    cases hfind : r.findServer addr port with
    | none => rfl
    | some p =>
      obtain ⟨s, hs, hip, hport⟩ := findServer_some hfind
      rw [Option.bind_some, hs, Option.all_some, List.all_eq_true]
      intro name hname
      rw [h p s hs hip hport name hname]
      rfl

/-- `removeHost` ends at the server it was called on. -/
theorem removeHost_ok (hr : Sound r) (hfilled : Filled r) (hs : r.servers.get? p = some s)
    (name : Bytes) (hspared : ∀ q, s.hostMap.find? name = some q → Spared r p q) :
    ∃ res r', r.removeHost p name = .ok (res, r') ∧ Sound r' ∧ Filled r' ∧ NoNew r r' := by
  unfold Registry.removeHost
  simp only [hs, deref_some, ok_bind]
  cases hfind : s.hostMap.find? name with
  | none => exact ⟨1, r, rfl, hr, hfilled, fun _ _ hc => hc⟩
  | some q =>
    obtain ⟨h, hh, -, haddr, -, hlisted⟩ := hr.linked.mapped p s name q hs hfind
    obtain ⟨g, hg, -, hknows⟩ := knows_of_find? hr.linked hs hfind
    rw [hh, Option.some.injEq] at hg
    subst hg
    obtain ⟨r', hrun, hsound, hfilled', hnew⟩ :=
      unregisterAt_ok hr hfilled hs hh hknows (hspared q hfind)
    refine ⟨0, r', ?_, hsound, hfilled', hnew⟩
    have hserver : r.findServer h.addr s.port = some p := by
      rw [haddr]
      exact findServer_of_get? hr.linked hs
    simp only [Registry.unregisterHost, hh, deref_some, ok_bind, hserver, hrun, pure_eq_ok]

theorem removeServer_filled (hr : Sound r) (hfilled : Filled r)
    (hs : r.servers.get? p = some s) :
    ∃ r', r.removeServer p = .ok r' ∧ Sound r' ∧ Filled r' ∧ NoNew r r' ∧
      ∀ x, r'.servers.get? x = none ↔ x = p ∨ r.servers.get? x = none := by
  obtain ⟨r', hrun, hsound, hkept, hgone⟩ := removeServer_ok hr hs
  refine ⟨r', hrun, hsound, ?_, hkept.clients, hgone⟩
  intro x t ht
  refine hkept.filledBut (filledBut_of_filled hfilled) x t ht ?_
  rintro rfl
  rw [(hgone x).mpr (Or.inl rfl)] at ht
  cases ht

theorem removeServers_ok (ps : List Address) (hr : Sound r) (hfilled : Filled r)
    (hnodup : ps.Nodup) (hps : ∀ p ∈ ps, r.servers.get? p ≠ none) :
    ∃ r', ps.foldlM Registry.removeServer r = .ok r' ∧ Sound r' ∧ Filled r' ∧ NoNew r r' := by
  induction ps generalizing r with
  | nil => exact ⟨r, rfl, hr, hfilled, fun _ _ hc => hc⟩
  | cons p ps ih =>
    obtain ⟨hnew, hrest⟩ := List.nodup_cons.mp hnodup
    obtain ⟨s, hs⟩ := Option.ne_none_iff_exists'.mp (hps p (List.mem_cons_self ..))
    obtain ⟨r₁, hrun₁, hsound₁, hfilled₁, hnew₁, hgone⟩ := removeServer_filled hr hfilled hs
    have hthere : ∀ x ∈ ps, r₁.servers.get? x ≠ none := by
      intro x hx hnone
      rcases (hgone x).mp hnone with rfl | hold
      · exact hnew hx
      · exact hps x (List.mem_cons_of_mem _ hx) hold
    obtain ⟨r₂, hrun₂, hsound₂, hfilled₂, hnew₂⟩ := ih hsound₁ hfilled₁ hrest hthere
    refine ⟨r₂, ?_, hsound₂, hfilled₂, fun c n hc => hnew₁ c n (hnew₂ c n hc)⟩
    rw [List.foldlM_cons, hrun₁, ok_bind, hrun₂]

end Removal

section Registration

variable {r : Registry} {p q : Address} {s : ServerNode} {h : HostNode}

theorem Attached.link (hr : Attached r) (names : List Bytes) : Attached (r.link p q names) := by
  constructor
  · intro c n hc
    obtain ⟨t, ht⟩ := hr.served c n hc
    by_cases hp : n.server = p
    · exact ⟨_, by rw [hp] at ht ⊢; exact Arena.get?_update_self _ ht⟩
    · exact ⟨t, (Arena.get?_update_ne _ hp).trans ht⟩
  · intro c n y hc hy
    obtain ⟨g, hg, hlisted⟩ := hr.bound c n y hc hy
    by_cases hyq : y = q
    · rw [hyq] at hg ⊢
      exact ⟨_, Arena.get?_update_self _ hg, (mem_addListenServer ..).mpr (Or.inr hlisted)⟩
    · exact ⟨g, (Arena.get?_update_ne _ hyq).trans hg, hlisted⟩
  · intro x t ht
    rcases Arena.of_get?_update ht with ⟨rfl, u, hu, rfl⟩ | ⟨hx, hu⟩
    · have hold := hr.serves x u hu
      exact ⟨hold.connected_nodup, hold.orphans_nodup, hold.connected, hold.orphans⟩
    · exact hr.serves x t hu
  · intro y g hg
    rcases Arena.of_get?_update hg with ⟨rfl, g₀, hg₀, rfl⟩ | ⟨hy, hg₀⟩
    · exact hr.holds y g₀ hg₀
    · exact hr.holds y g hg₀

theorem Attached.allocServer (hr : Attached r) (ip port : Bytes) :
    Attached (r.allocServer ip port) := by
  constructor
  · intro c n hc
    obtain ⟨t, ht⟩ := hr.served c n hc
    exact ⟨t, Arena.get?_alloc_of_some ht⟩
  · exact hr.bound
  · intro x t ht
    rcases Arena.of_get?_alloc ht with ⟨hx, rfl⟩ | ⟨hx, hu⟩
    · have hnone : ∀ c n, r.clients.get? c = some n → n.server ≠ x := by
        intro c n hc hserver
        obtain ⟨u, hu⟩ := hr.served c n hc
        rw [hserver, hx, Arena.get?_next] at hu
        cases hu
      refine ⟨List.nodup_nil, List.nodup_nil, ?_, ?_⟩
      · intro c
        constructor
        · intro hc
          cases hc
        · intro ⟨n, hn, hserver⟩
          exact absurd hserver (hnone c n hn)
      · intro c
        constructor
        · intro hc
          cases hc
        · intro ⟨n, hn, hserver, _⟩
          exact absurd hserver (hnone c n hn)
    · exact hr.serves x t hu
  · exact hr.holds

/-- A new host, which no server knows yet. -/
theorem Sound.allocHost (hr : Sound r) (config : HostConfig)
    (hnamed : config.host.server_names ≠ []) :
    Sound { r with hosts := r.hosts.alloc { config with } } := by
  constructor
  · constructor
    · exact hr.linked.distinct
    · intro x t n y ht hn
      obtain ⟨g, hg, hreg⟩ := hr.linked.mapped x t n y ht hn
      exact ⟨g, Arena.get?_alloc_of_some hg, hreg⟩
    · intro y g x hg hx
      rcases Arena.of_get?_alloc hg with ⟨-, rfl⟩ | ⟨-, hold⟩
      · cases hx
      · exact hr.linked.listed y g x hold hx
    · exact hr.linked.counted
    · intro y g hg
      rcases Arena.of_get?_alloc hg with ⟨-, rfl⟩ | ⟨-, hold⟩
      · exact hnamed
      · exact hr.linked.named y g hold
  · constructor
    · exact hr.attached.served
    · intro c n y hc hy
      obtain ⟨g, hg, hlisted⟩ := hr.attached.bound c n y hc hy
      exact ⟨g, Arena.get?_alloc_of_some hg, hlisted⟩
    · exact hr.attached.serves
    · intro y g hg
      rcases Arena.of_get?_alloc hg with ⟨hy, rfl⟩ | ⟨-, hold⟩
      · intro c
        constructor
        · intro hc
          cases hc
        · intro ⟨n, hn, hhost⟩
          obtain ⟨g', hg', -⟩ := hr.attached.bound c n y hn hhost
          rw [hy, Arena.get?_next] at hg'
          cases hg'
      · exact hr.attached.holds y g hold

/-- A host on its way through its ports: the servers of the ports left have none of its
names. -/
structure Registering (r : Registry) (q : Address) (config : HostConfig) (ports : List Bytes) :
    Prop where
  sound : Sound r
  filled : Filled r
  host : ∃ h, r.hosts.get? q = some h ∧ h.toHostConfig = config
  free : ∀ port ∈ ports, ∀ p s, r.servers.get? p = some s → s.ip = config.addr →
    s.port = port → ∀ n ∈ config.host.server_names, s.hostMap.find? n = none

theorem registerPort_ok {config : HostConfig} {port : Bytes} {ports : List Bytes} (opens : Bool)
    (hr : Registering r q config (port :: ports)) (hport : port ∈ config.ports)
    (hnew : port ∉ ports) :
    Registering (r.registerPort q config port opens).2 q config ports ∧
      (r.registerPort q config port opens).2.clients = r.clients := by
  obtain ⟨h, hh, hconfig⟩ := hr.host
  have hnames : config.host.server_names = h.server_names := by rw [HostNode.server_names, hconfig]
  have hlink : ∀ r₁ p s, Sound r₁ → FilledBut r₁ p → r₁.hosts = r.hosts →
      r₁.servers.get? p = some s → s.ip = config.addr → s.port = port →
      (∀ n ∈ config.host.server_names, s.hostMap.find? n = none) →
      (∀ port ∈ ports, ∀ p s, r₁.servers.get? p = some s → s.ip = config.addr →
        s.port = port → ∀ n ∈ config.host.server_names, s.hostMap.find? n = none) →
      Registering (r₁.link p q config.host.server_names) q config ports := by
    intro r₁ p s hsound hbut hhosts hs hip hsport hfree hothers
    have hh₁ : r₁.hosts.get? q = some h := by rw [hhosts, hh]
    have haddr : h.addr = s.ip := by rw [hip, hconfig]
    have hsports : s.port ∈ h.ports := by rw [hsport, hconfig]; exact hport
    rw [hnames] at hfree ⊢
    constructor
    · exact ⟨hsound.linked.link hs hh₁ haddr hsports hfree, hsound.attached.link _⟩
    · exact hbut.link hs (hsound.linked.named q h hh₁) hfree
    · exact ⟨_, Arena.get?_update_self _ hh₁, hconfig⟩
    · intro port' hport' x t ht htip htport n hn
      rcases Arena.of_get?_update ht with ⟨rfl, u, hu, rfl⟩ | ⟨hx, hu⟩
      · rw [hs, Option.some.injEq] at hu
        subst hu
        have heq : port = port' := hsport.symm.trans htport
        rw [heq] at hnew
        exact absurd hport' hnew
      · exact hothers port' hport' x t hu htip htport n hn
  unfold Registry.registerPort
  cases hfind : r.findServer config.addr port with
  | some p =>
    obtain ⟨s, hs, hip, hsport⟩ := findServer_some hfind
    refine ⟨?_, rfl⟩
    refine hlink r p s hr.sound (filledBut_of_filled hr.filled) rfl hs hip hsport ?_ ?_
    · exact hr.free port (List.mem_cons_self ..) p s hs hip hsport
    · exact fun port' hport' => hr.free port' (List.mem_cons_of_mem _ hport')
  | none =>
    cases opens with
    | false =>
      refine ⟨⟨hr.sound, hr.filled, hr.host, ?_⟩, rfl⟩
      exact fun port' hport' => hr.free port' (List.mem_cons_of_mem _ hport')
    | true =>
      have hserver : (r.allocServer config.addr port).servers.get? r.servers.next =
          some { ip := config.addr, port := port } := by
        show (r.servers.alloc _).get? r.servers.next = _
        rw [Arena.get?_alloc, if_pos rfl]
      refine ⟨?_, rfl⟩
      refine hlink (r.allocServer config.addr port) r.servers.next _
        ⟨hr.sound.linked.allocServer hfind, hr.sound.attached.allocServer ..⟩ ?_ rfl hserver rfl
        rfl ?_ ?_
      · intro x t ht hx
        rcases Arena.of_get?_alloc ht with ⟨hnext, -⟩ | ⟨-, hold⟩
        · exact absurd hnext hx
        · exact hr.filled x t hold
      · exact fun n _ => rfl
      · intro port' hport' x t ht htip htport n hn
        rcases Arena.of_get?_alloc ht with ⟨-, rfl⟩ | ⟨-, hold⟩
        · rfl
        · exact hr.free port' (List.mem_cons_of_mem _ hport') x t hold htip htport n hn

theorem registerPorts_ok {config : HostConfig} (opens : Bytes → Bool) (ports : List Bytes)
    (hr : Registering r q config ports) (hports : ∀ port ∈ ports, port ∈ config.ports)
    (hnodup : ports.Nodup) (res : ℤ) :
    let out := ports.foldl (fun out port =>
      let (res, r) := out.2.registerPort q config port (opens port)
      (if res ≠ 0 then 1 else out.1, r)) (res, r)
    Sound out.2 ∧ Filled out.2 ∧ out.2.clients = r.clients := by
  induction ports generalizing r res with
  | nil => exact ⟨hr.sound, hr.filled, rfl⟩
  | cons port ports ih =>
    obtain ⟨hnew, hrest⟩ := List.nodup_cons.mp hnodup
    obtain ⟨hnext, hclients⟩ := registerPort_ok (opens port) hr
      (hports port (List.mem_cons_self ..)) hnew
    obtain ⟨hsound, hfilled, hsame⟩ :=
      ih hnext (fun x hx => hports x (List.mem_cons_of_mem _ hx)) hrest
        (if (r.registerPort q config port (opens port)).1 ≠ 0 then 1 else res)
    exact ⟨hsound, hfilled, hsame.trans hclients⟩

theorem HostConfig.ports_nodup (config : HostConfig) : config.ports.Nodup := by
  refine config.ports_sorted.imp ?_
  intro a b hless heq
  have hself : byteLess b b = false := not_less_self b
  rw [heq, hself] at hless
  cases hless

/-- A host whose names no server of its ports has is on its way. -/
theorem addHost_registering (hr : Sound r) (hfilled : Filled r) {config : HostConfig}
    (hnamed : config.host.server_names ≠ [])
    (hnames : r.checkServerNames config.addr config.ports config.host.server_names = true) :
    Registering { r with hosts := r.hosts.alloc { config with } } r.hosts.next config
      config.ports := by
  refine ⟨hr.allocHost config hnamed, hfilled, ⟨{ config with }, ?_, rfl⟩, ?_⟩
  · show (r.hosts.alloc _).get? r.hosts.next = _
    rw [Arena.get?_alloc, if_pos rfl]
  · intro port hport p s hs hip hsport n hn
    exact (checkServerNames_iff hr.linked).mp hnames port hport p s hs hip hsport n hn

/-- A host whose names no server of its ports has is added. -/
theorem addHost_ok (hr : Sound r) (hfilled : Filled r) (config : HostConfig)
    (opens : Bytes → Bool) (hnamed : config.host.server_names ≠ [])
    (hnames : r.checkServerNames config.addr config.ports config.host.server_names = true) :
    Sound (r.addHost config opens).2 ∧ Filled (r.addHost config opens).2 ∧
      (r.addHost config opens).2.clients = r.clients :=
  registerPorts_ok opens config.ports (addHost_registering hr hfilled hnamed hnames)
    (fun _ hx => hx) config.ports_nodup 0

theorem checkHost_value {default_error_pages : Bytes} {config config' : HostConfig}
    (h : r.checkHost default_error_pages config = .ok config') :
    config' = Registry.withErrorPages default_error_pages config := by
  unfold Registry.checkHost at h
  grind

theorem checkHost_ok {default_error_pages : Bytes} {config config' : HostConfig}
    (h : r.checkHost default_error_pages config = .ok config') :
    config'.host.server_names ≠ [] ∧
      r.checkServerNames config'.addr config'.ports config'.host.server_names = true := by
  unfold Registry.checkHost at h
  split at h
  · cases h
  · split at h
    · cases h
    · dsimp only at h
      split at h
      · cases h
      · rename_i hnamed
        split at h
        · cases h
        · split at h
          · cases h
          · rename_i hnames
            cases h
            exact ⟨hnamed, by simpa using hnames⟩

end Registration

section Arrivals

variable {r : Registry} {p q c : Address} {s : ServerNode} {h : HostNode} {n : ClientNode}

theorem nodup_append_singleton {l : List Address} (hl : l.Nodup) (hc : c ∉ l) :
    (l ++ [c]).Nodup := by
  rw [← List.concat_eq_append]
  exact hl.concat hc

theorem acceptConnection_eq (hs : r.servers.get? p = some s) (accepts : Bool) :
    r.acceptConnection p accepts =
      if toInt s.connectedClients.length ≥ INT32_MAX ∨ accepts = false then pure r
      else pure { r with
        servers := r.servers.update p fun s => s.addClient r.clients.next
        clients := r.clients.alloc { server := p } } := by
  unfold Registry.acceptConnection
  rw [hs, deref_some, ok_bind]

theorem acceptConnection_ok (hr : Sound r) (hs : r.servers.get? p = some s) (accepts : Bool) :
    ∃ r', r.acceptConnection p accepts = .ok r' ∧ Sound r' ∧ SameLinks r r' := by
  rw [acceptConnection_eq hs]
  by_cases hrefused : toInt s.connectedClients.length ≥ INT32_MAX ∨ accepts = false
  · rw [if_pos hrefused]
    exact ⟨r, rfl, hr, SameLinks.refl r⟩
  · rw [if_neg hrefused]
    have hupdate : SameLinks r
        { r with servers := r.servers.update p fun s => s.addClient r.clients.next } :=
      SameLinks.update_server fun _ => rfl
    have hsame := hupdate.trans (SameLinks.with_clients (r.clients.alloc { server := p }))
    refine ⟨_, rfl, ⟨hsame.linked hr.linked, ?_⟩, hsame⟩
    have hfresh : ∀ x t, r.servers.get? x = some t →
        r.clients.next ∉ t.connectedClients ∧ r.clients.next ∉ t.orphanClients := by
      intro x t ht
      have hold := hr.attached.serves x t ht
      constructor
      · intro hmem
        obtain ⟨m, hm, -⟩ := (hold.connected _).mp hmem
        rw [Arena.get?_next] at hm
        cases hm
      · intro hmem
        obtain ⟨m, hm, -⟩ := (hold.orphans _).mp hmem
        rw [Arena.get?_next] at hm
        cases hm
    have hget : ∀ d m, (r.clients.alloc { server := p }).get? d = some m ↔
        d = r.clients.next ∧ m = { server := p } ∨ r.clients.get? d = some m := by
      intro d m
      constructor
      · intro hm
        rcases Arena.of_get?_alloc hm with hnew | ⟨-, hold⟩
        · exact Or.inl hnew
        · exact Or.inr hold
      · intro hm
        rcases hm with ⟨rfl, rfl⟩ | hold
        · rw [Arena.get?_alloc, if_pos rfl]
        · exact Arena.get?_alloc_of_some hold
    constructor
    · intro d m hm
      rcases (hget d m).mp hm with ⟨-, rfl⟩ | hold
      · exact ⟨_, Arena.get?_update_self _ hs⟩
      · obtain ⟨t, ht⟩ := hr.attached.served d m hold
        obtain ⟨t', ht', -⟩ := hsame.symm.server ht
        exact ⟨t', ht'⟩
    · intro d m y hm hy
      rcases (hget d m).mp hm with ⟨-, rfl⟩ | hold
      · cases hy
      · exact hr.attached.bound d m y hold hy
    · intro x t ht
      rcases Arena.of_get?_update ht with ⟨rfl, u, hu, rfl⟩ | ⟨hx, hu⟩
      · have hold := hr.attached.serves x u hu
        obtain ⟨hconnected, horphan⟩ := hfresh x u hu
        constructor
        · exact nodup_append_singleton hold.connected_nodup hconnected
        · exact nodup_append_singleton hold.orphans_nodup horphan
        · intro d
          simp only [ServerNode.addClient, List.mem_append, List.mem_singleton, hold.connected,
            hget]
          constructor
          · intro hd
            rcases hd with ⟨m, hm, hserver⟩ | rfl
            · exact ⟨m, Or.inr hm, hserver⟩
            · exact ⟨_, Or.inl ⟨rfl, rfl⟩, rfl⟩
          · intro ⟨m, hm, hserver⟩
            rcases hm with ⟨rfl, -⟩ | hm
            · exact Or.inr rfl
            · exact Or.inl ⟨m, hm, hserver⟩
        · intro d
          simp only [ServerNode.addClient, List.mem_append, List.mem_singleton, hold.orphans,
            hget]
          constructor
          · intro hd
            rcases hd with ⟨m, hm, hserver⟩ | rfl
            · exact ⟨m, Or.inr hm, hserver⟩
            · exact ⟨_, Or.inl ⟨rfl, rfl⟩, rfl, rfl⟩
          · intro ⟨m, hm, hserver⟩
            rcases hm with ⟨rfl, -⟩ | hm
            · exact Or.inr rfl
            · exact Or.inl ⟨m, hm, hserver⟩
      · have hold := hr.attached.serves x t hu
        refine ⟨hold.connected_nodup, hold.orphans_nodup, ?_, ?_⟩
        · intro d
          rw [hold.connected d]
          simp only [hget]
          constructor
          · intro ⟨m, hm, hserver⟩
            exact ⟨m, Or.inr hm, hserver⟩
          · intro ⟨m, hm, hserver⟩
            rcases hm with ⟨-, rfl⟩ | hm
            · exact absurd hserver.symm hx
            · exact ⟨m, hm, hserver⟩
        · intro d
          rw [hold.orphans d]
          simp only [hget]
          constructor
          · intro ⟨m, hm, hserver⟩
            exact ⟨m, Or.inr hm, hserver⟩
          · intro ⟨m, hm, hserver, hhost⟩
            rcases hm with ⟨-, rfl⟩ | hm
            · exact absurd hserver.symm hx
            · exact ⟨m, hm, hserver, hhost⟩
    · intro y g hg d
      rw [hr.attached.holds y g hg d]
      simp only [hget]
      constructor
      · intro ⟨m, hm, hhost⟩
        exact ⟨m, Or.inr hm, hhost⟩
      · intro ⟨m, hm, hhost⟩
        rcases hm with ⟨-, rfl⟩ | hm
        · cases hhost
        · exact ⟨m, hm, hhost⟩

/-- A server with names finds a host for every name asked for. -/
theorem bindTarget_ok (hr : Linked r) (hs : r.servers.get? p = some s)
    (hnonempty : s.hostMap.entries ≠ []) (name : Bytes) :
    ∃ q h, Registry.bindTarget s name = .ok q ∧ r.hosts.get? q = some h ∧ p ∈ h.listenServers := by
  have hfound : ∃ k q, Registry.bindTarget s name = .ok q ∧ s.hostMap.find? k = some q := by
    unfold Registry.bindTarget
    cases hfind : s.hostMap.find? name with
    | some q => exact ⟨name, q, rfl, hfind⟩
    | none =>
      cases hentries : s.hostMap.entries with
      | nil => exact absurd hentries hnonempty
      | cons e es =>
        have hmem : e ∈ s.hostMap.entries := by simp [hentries]
        exact ⟨e.1, e.2, rfl, OrderedMap.find?_of_mem s.hostMap hmem⟩
  obtain ⟨k, q, hbind, hk⟩ := hfound
  obtain ⟨h, hh, hlisted, -⟩ := knows_of_find? hr hs hk
  exact ⟨q, h, hbind, hh, hlisted⟩

/-- A client that is in no host's list is bound to a host of its server. -/
theorem bindClient_ok {r₁ : Registry} (hr : Sound r) (hfilled : Filled r)
    (hc : r.clients.get? c = some n) (hlinks : SameLinks r r₁) (hservers : r₁.servers = r.servers)
    (hclients : r₁.clients = r.clients)
    (hlists : ∀ y g, r₁.hosts.get? y = some g → ∀ d, d ∈ g.clients ↔
      d ≠ c ∧ ∃ m, r.clients.get? d = some m ∧ m.host = some y) (name : Bytes) :
    ∃ r', r₁.bindClient c n.server name = .ok r' ∧ Sound r' ∧ SameLinks r r' := by
  obtain ⟨s, hs⟩ := hr.attached.served c n hc
  have hs₁ : r₁.servers.get? n.server = some s := by rw [hservers, hs]
  obtain ⟨q, h, hbind, hh, hlisted⟩ :=
    bindTarget_ok (hlinks.linked hr.linked) hs₁ (hfilled _ s hs) name
  have hsame : SameLinks r
      { r₁ with
        servers := r₁.servers.update n.server fun s => s.adopt c
        hosts := r₁.hosts.update q fun h => h.addClient c
        clients := r₁.clients.update c fun c => { c with host := some q } } := by
    have hserver : SameLinks r₁ { r₁ with servers := r₁.servers.update n.server fun s => s.adopt c } :=
      SameLinks.update_server fun _ => rfl
    have hhost : SameLinks { r₁ with servers := r₁.servers.update n.server fun s => s.adopt c }
        { r₁ with
          servers := r₁.servers.update n.server fun s => s.adopt c
          hosts := r₁.hosts.update q fun h => h.addClient c } :=
      SameLinks.update_host fun _ => rfl
    exact (hlinks.trans (hserver.trans hhost)).trans (SameLinks.with_clients _)
  unfold Registry.bindClient
  simp only [hs₁, deref_some, ok_bind, hbind, hh, pure_eq_ok]
  refine ⟨_, rfl, ⟨hsame.linked hr.linked, ?_⟩, hsame⟩
  have hget : ∀ d m, (r₁.clients.update c fun c => { c with host := some q }).get? d = some m ↔
      d = c ∧ m = { n with host := some q } ∨ d ≠ c ∧ r.clients.get? d = some m := by
    intro d m
    rw [hclients]
    constructor
    · intro hm
      rcases Arena.of_get?_update hm with ⟨hd, v, hv, hmv⟩ | ⟨hd, hm⟩
      · rw [hc, Option.some.injEq] at hv
        rw [← hv] at hmv
        exact Or.inl ⟨hd, hmv⟩
      · exact Or.inr ⟨hd, hm⟩
    · intro hm
      rcases hm with ⟨rfl, rfl⟩ | ⟨hd, hm⟩
      · exact Arena.get?_update_self _ hc
      · rw [Arena.get?_update_ne _ hd, hm]
  constructor
  · intro d m hm
    have hserver : ∃ m', r.clients.get? d = some m' ∧ m'.server = m.server := by
      rcases (hget d m).mp hm with ⟨rfl, rfl⟩ | ⟨-, hold⟩
      · exact ⟨n, hc, rfl⟩
      · exact ⟨m, hold, rfl⟩
    obtain ⟨m', hm', heq⟩ := hserver
    obtain ⟨t, ht⟩ := hr.attached.served d m' hm'
    obtain ⟨t', ht', -⟩ := hsame.symm.server ht
    rw [← heq]
    exact ⟨t', ht'⟩
  · intro d m y hm hy
    rcases (hget d m).mp hm with ⟨rfl, rfl⟩ | ⟨-, hold⟩
    · rw [← Option.some.inj hy]
      exact ⟨_, Arena.get?_update_self _ hh, hlisted⟩
    · obtain ⟨g, hg, hmem⟩ := hr.attached.bound d m y hold hy
      obtain ⟨g', hg', -, hlist⟩ := hsame.symm.host hg
      refine ⟨g', hg', ?_⟩
      rw [hlist]
      exact hmem
  · intro x t ht
    have hserver : ∀ d, (∃ m, (r₁.clients.update c fun c => { c with host := some q }).get? d =
        some m ∧ m.server = x) ↔ ∃ m, r.clients.get? d = some m ∧ m.server = x := by
      intro d
      simp only [hget]
      constructor
      · intro ⟨m, hm, hx⟩
        rcases hm with ⟨rfl, rfl⟩ | ⟨-, hm⟩
        · exact ⟨n, hc, hx⟩
        · exact ⟨m, hm, hx⟩
      · intro ⟨m, hm, hx⟩
        by_cases hd : d = c
        · subst hd
          rw [hc, Option.some.injEq] at hm
          subst hm
          exact ⟨_, Or.inl ⟨rfl, rfl⟩, hx⟩
        · exact ⟨m, Or.inr ⟨hd, hm⟩, hx⟩
    have horphan : ∀ d, (∃ m, (r₁.clients.update c fun c => { c with host := some q }).get? d =
        some m ∧ m.server = x ∧ m.host = none) ↔
        d ≠ c ∧ ∃ m, r.clients.get? d = some m ∧ m.server = x ∧ m.host = none := by
      intro d
      simp only [hget]
      constructor
      · intro ⟨m, hm, hx, hhost⟩
        rcases hm with ⟨-, rfl⟩ | ⟨hd, hm⟩
        · cases hhost
        · exact ⟨hd, m, hm, hx, hhost⟩
      · intro ⟨hd, m, hm, hx, hhost⟩
        exact ⟨m, Or.inr ⟨hd, hm⟩, hx, hhost⟩
    rcases Arena.of_get?_update ht with ⟨rfl, u, hu, rfl⟩ | ⟨hx, hu⟩
    · rw [hservers] at hu
      have hold := hr.attached.serves _ u hu
      refine ⟨hold.connected_nodup, hold.orphans_nodup.filter _, ?_, ?_⟩
      · intro d
        exact (hold.connected d).trans (hserver d).symm
      · intro d
        refine Iff.trans ?_ (horphan d).symm
        rw [← hold.orphans d]
        simp [ServerNode.adopt, and_comm]
    · rw [hservers] at hu
      have hold := hr.attached.serves x t hu
      refine ⟨hold.connected_nodup, hold.orphans_nodup, ?_, ?_⟩
      · intro d
        exact (hold.connected d).trans (hserver d).symm
      · intro d
        refine Iff.trans (hold.orphans d) (Iff.trans ?_ (horphan d).symm)
        constructor
        · intro ⟨m, hm, hmx, hhost⟩
          refine ⟨?_, m, hm, hmx, hhost⟩
          intro hd
          rw [hd, hc, Option.some.injEq] at hm
          rw [hm] at hx
          exact hx hmx.symm
        · exact fun hd => hd.2
  · intro y g hg d
    have hothers : ∀ g₁, r₁.hosts.get? y = some g₁ → d ≠ c →
        (d ∈ g₁.clients ↔ ∃ m, (r₁.clients.update c fun c => { c with host := some q }).get? d =
          some m ∧ m.host = some y) := by
      intro g₁ hg₁ hd
      rw [hlists y g₁ hg₁ d]
      simp only [hget, hd, ne_eq, not_false_eq_true, true_and, false_and, false_or]
    rcases Arena.of_get?_update hg with ⟨rfl, g₁, hg₁, rfl⟩ | ⟨hy, hg₁⟩
    · by_cases hd : d = c
      · subst hd
        constructor
        · exact fun _ => ⟨_, (hget d _).mpr (Or.inl ⟨rfl, rfl⟩), rfl⟩
        · exact fun _ => List.mem_append.mpr (Or.inr (List.mem_singleton.mpr rfl))
      · rw [← hothers g₁ hg₁ hd]
        simp [HostNode.addClient, hd]
    · by_cases hd : d = c
      · subst hd
        constructor
        · intro hmem
          exact absurd rfl ((hlists y g hg₁ d).mp hmem).1
        · intro ⟨m, hm, hhost⟩
          rcases (hget d m).mp hm with ⟨-, rfl⟩ | ⟨hd, -⟩
          · exact absurd (Option.some.inj hhost).symm hy
          · exact absurd rfl hd
      · exact hothers g hg₁ hd

theorem setHost_ok (hr : Sound r) (hfilled : Filled r) (hc : r.clients.get? c = some n)
    (name : Bytes) : ∃ r', r.setHost c name = .ok r' ∧ Sound r' ∧ SameLinks r r' := by
  obtain ⟨r₁, hleave, hlinks, hservers, hclients, hlists⟩ := leaveHost_ok hr hc
  obtain ⟨r₂, hbind, hsound, hsame⟩ :=
    bindClient_ok hr hfilled hc hlinks hservers hclients hlists name
  unfold Registry.setHost
  simp only [hc, deref_some, ok_bind]
  cases hhost : n.host with
  | none =>
    rw [hhost] at hleave
    simp only [pure_eq_ok, ok_bind, hleave, hbind]
    exact ⟨r₂, rfl, hsound, hsame⟩
  | some q =>
    obtain ⟨h, hh, -⟩ := hr.attached.bound c n q hc hhost
    rw [hhost] at hleave
    simp only [hh, deref_some, pure_eq_ok, ok_bind]
    split
    · exact ⟨r, rfl, hr, SameLinks.refl r⟩
    · simp only [hleave, ok_bind, hbind]
      exact ⟨r₂, rfl, hsound, hsame⟩

end Arrivals

section Commands

variable {default_error_pages : Bytes} {r : Registry}

/-- A host is not taken off a server through which one of its clients came. -/
def Spares (r : Registry) : Command → Prop
  | .removeHost ip port name => ∀ p s q, r.findServer ip port = some p →
      r.servers.get? p = some s → s.hostMap.find? name = some q → Spared r p q
  | _ => True

/-- The commands about hosts and servers. -/
def Command.OfHosts : Command → Prop
  | .addHost _ _ | .removeHost _ _ _ | .removeServer _ _ | .removeServers => True
  | _ => False

theorem noNew_refl (r : Registry) : NoNew r r := fun _ _ hc => hc

/-- A command that spares the clients has no fault, and what holds keeps holding. -/
theorem step_ok (hr : Sound r) (hfilled : Filled r) (cmd : Command) (hspares : Spares r cmd) :
    ∃ r', step default_error_pages r cmd = .ok r' ∧ Sound r' ∧ Filled r' ∧
      (cmd.OfHosts → NoNew r r') := by
  cases cmd with
  | addHost config opens =>
    simp only [step]
    cases hcheck : r.checkHost default_error_pages config with
    | error e => exact ⟨r, rfl, hr, hfilled, fun _ => noNew_refl r⟩
    | ok config' =>
      obtain ⟨hnamed, hnames⟩ := checkHost_ok hcheck
      obtain ⟨hsound, hfilled', hclients⟩ := addHost_ok hr hfilled config' opens hnamed hnames
      refine ⟨_, rfl, hsound, hfilled', fun _ c n hc => ?_⟩
      rw [hclients] at hc
      exact hc
  | removeHost ip port name =>
    simp only [step]
    cases hfind : r.findServer ip port with
    | none => exact ⟨r, rfl, hr, hfilled, fun _ => noNew_refl r⟩
    | some p =>
      obtain ⟨s, hs, -⟩ := findServer_some hfind
      obtain ⟨res, r', hrun, hsound, hfilled', hnew⟩ :=
        removeHost_ok hr hfilled hs name fun q hq => hspares p s q hfind hs hq
      refine ⟨r', ?_, hsound, hfilled', fun _ => hnew⟩
      simp only [hrun, ok_bind, pure_eq_ok]
  | removeServer ip port =>
    simp only [step]
    cases hfind : r.findServer ip port with
    | none => exact ⟨r, rfl, hr, hfilled, fun _ => noNew_refl r⟩
    | some p =>
      obtain ⟨s, hs, -⟩ := findServer_some hfind
      obtain ⟨r', hrun, hsound, hfilled', hnew, -⟩ := removeServer_filled hr hfilled hs
      exact ⟨r', hrun, hsound, hfilled', fun _ => hnew⟩
  | removeServers =>
    have hthere : ∀ p ∈ r.servers.objects.map Prod.fst, r.servers.get? p ≠ none := by
      intro p hp hnone
      obtain ⟨o, ho, rfl⟩ := List.mem_map.mp hp
      have hget := Arena.get?_eq_some_iff.mpr ho
      rw [hnone] at hget
      cases hget
    obtain ⟨r', hrun, hsound, hfilled', hnew⟩ :=
      removeServers_ok (r.servers.objects.map Prod.fst) hr hfilled r.servers.distinct hthere
    exact ⟨r', hrun, hsound, hfilled', fun _ => hnew⟩
  | accept ip port accepts =>
    simp only [step]
    cases hfind : r.findServer ip port with
    | none => exact ⟨r, rfl, hr, hfilled, fun h => h.elim⟩
    | some p =>
      obtain ⟨s, hs, -⟩ := findServer_some hfind
      obtain ⟨r', hrun, hsound, hsame⟩ := acceptConnection_ok hr hs accepts
      exact ⟨r', hrun, hsound, hsame.filled hfilled, fun h => h.elim⟩
  | setHost c name =>
    simp only [step]
    cases hc : r.clients.get? c with
    | none => exact ⟨r, rfl, hr, hfilled, fun h => h.elim⟩
    | some n =>
      obtain ⟨r', hrun, hsound, hsame⟩ := setHost_ok hr hfilled hc name
      exact ⟨r', hrun, hsound, hsame.filled hfilled, fun h => h.elim⟩
  | terminate c =>
    simp only [step]
    cases hc : r.clients.get? c with
    | none => exact ⟨r, rfl, hr, hfilled, fun h => h.elim⟩
    | some n =>
      obtain ⟨r', hrun, hsame, hattached, -⟩ := terminate_ok hr hc
      exact ⟨r', hrun, ⟨hsame.linked hr.linked, hattached⟩, hsame.filled hfilled,
        fun h => h.elim⟩

theorem sound_empty : Sound .empty := by
  constructor
  · constructor
    · intro p p' s s' hs
      cases hs
    · intro p s n q hs
      cases hs
    · intro q h p hh
      cases hh
    · intro p s hs
      cases hs
    · intro q h hh
      cases hh
  · constructor
    · intro c n hc
      cases hc
    · intro c n q hc
      cases hc
    · intro p s hs
      cases hs
    · intro q h hh
      cases hh

theorem filled_empty : Filled .empty := by
  intro p s hs
  cases hs

/-- The commands of a sequence, one after another. -/
def run (default_error_pages : Bytes) (r : Registry) (cmds : List Command) : Ran Registry :=
  cmds.foldlM (step default_error_pages) r

/-- While no client comes in, commands about hosts and servers spare all clients. -/
theorem run_ofHosts (cmds : List Command) (hr : Sound r) (hfilled : Filled r)
    (hnone : ∀ c n, r.clients.get? c ≠ some n) (hcmds : ∀ cmd ∈ cmds, cmd.OfHosts) :
    ∃ r', run default_error_pages r cmds = .ok r' ∧ Sound r' ∧ Filled r' := by
  induction cmds generalizing r with
  | nil => exact ⟨r, rfl, hr, hfilled⟩
  | cons cmd cmds ih =>
    have hspares : Spares r cmd := by
      cases cmd with
      | removeHost ip port name => exact fun p s q _ _ _ c n hc => absurd hc (hnone c n)
      | _ => exact True.intro
    obtain ⟨r₁, hstep, hsound, hfilled₁, hnew⟩ :=
      @step_ok default_error_pages _ hr hfilled cmd hspares
    have hnone₁ : ∀ c n, r₁.clients.get? c ≠ some n :=
      fun c n hc => hnone c n (hnew (hcmds cmd (List.mem_cons_self ..)) c n hc)
    obtain ⟨r₂, hrun, hsound₂, hfilled₂⟩ :=
      ih hsound hfilled₁ hnone₁ fun cmd' hmem => hcmds cmd' (List.mem_cons_of_mem _ hmem)
    refine ⟨r₂, ?_, hsound₂, hfilled₂⟩
    unfold run at hrun ⊢
    rw [List.foldlM_cons, hstep, ok_bind, hrun]

/-- Servers and hosts agree after every sequence of commands about them, none of which has
a fault, and every name leads to a host. -/
theorem registry_agrees (default_error_pages : Bytes) (cmds : List Command)
    (hcmds : ∀ cmd ∈ cmds, cmd.OfHosts) :
    ∃ r, run default_error_pages .empty cmds = .ok r ∧ Linked r ∧ Filled r ∧
      ∀ p s name, r.servers.get? p = some s → ∃ q, Registry.bindTarget s name = .ok q := by
  have hnone : ∀ c n, Registry.empty.clients.get? c ≠ some n := by
    intro c n hc
    cases hc
  obtain ⟨r, hrun, hsound, hfilled⟩ := run_ofHosts cmds sound_empty filled_empty hnone hcmds
  refine ⟨r, hrun, hsound.linked, hfilled, ?_⟩
  intro p s name hs
  obtain ⟨q, -, hq, -⟩ := bindTarget_ok hsound.linked hs (hfilled p s hs) name
  exact ⟨q, hq⟩

/-- A host under one name, with a default location. -/
def plainHost (name : Bytes) : Host where
  server_names := [name]
  locationMap := OrderedMap.empty.insert (ascii "*") {
    root := ascii "/"
    redir_valid := unredirected }

def twoPorts : HostConfig where
  host := plainHost (ascii "a")
  addr := ascii "127.0.0.1"
  ports := [ascii "80", ascii "81"]
  ports_sorted := by decide

theorem registry_agrees_two_ports :
    ∃ r, run [] .empty [.addHost twoPorts fun port => port = ascii "80",
      .removeHost (ascii "127.0.0.1") (ascii "80") (ascii "a"), .removeServers] = .ok r ∧
      Linked r ∧ Filled r ∧
      ∀ p s name, r.servers.get? p = some s → ∃ q, Registry.bindTarget s name = .ok q := by
  refine registry_agrees [] _ ?_
  intro cmd hcmd
  simp only [List.mem_cons, List.not_mem_nil, or_false] at hcmd
  rcases hcmd with rfl | rfl | rfl
  · exact True.intro
  · exact True.intro
  · exact True.intro

/-- Every client refers to a server that is there, and the server knows the client's host
under each of its names. -/
def Bound (r : Registry) : Prop :=
  ∀ c n, r.clients.get? c = some n → ∃ s, r.servers.get? n.server = some s ∧
    ∀ q, n.host = some q → ∃ h, r.hosts.get? q = some h ∧ s.Knows q h

/-- The registries that commands lead to which spare the clients. -/
inductive Reached (default_error_pages : Bytes) : Registry → Prop
  | empty : Reached default_error_pages .empty
  | step {r r' : Registry} {cmd : Command} (hr : Reached default_error_pages r)
      (hspares : Spares r cmd) (hstep : step default_error_pages r cmd = .ok r') :
      Reached default_error_pages r'

theorem reached_sound (hr : Reached default_error_pages r) : Sound r ∧ Filled r := by
  induction hr with
  | empty => exact ⟨sound_empty, filled_empty⟩
  | step hr hspares hstep ih =>
    obtain ⟨r₁, hstep₁, hsound, hfilled, -⟩ :=
      @step_ok default_error_pages _ ih.1 ih.2 _ hspares
    rw [hstep, Except.ok.injEq] at hstep₁
    rw [hstep₁]
    exact ⟨hsound, hfilled⟩

/-- Clients do not outlive their server or host as long as hosts with clients are not taken
off the server the clients came through. -/
theorem reached_bound (hr : Reached default_error_pages r) :
    Bound r ∧ ∀ cmd, Spares r cmd → ∃ r', step default_error_pages r cmd = .ok r' := by
  obtain ⟨hsound, hfilled⟩ := reached_sound hr
  constructor
  · intro c n hc
    obtain ⟨s, hs⟩ := hsound.attached.served c n hc
    refine ⟨s, hs, ?_⟩
    intro q hq
    obtain ⟨h, hh, hlisted⟩ := hsound.attached.bound c n q hc hq
    obtain ⟨t, ht, hknows⟩ := hsound.linked.listed q h n.server hh hlisted
    rw [hs, Option.some.injEq] at ht
    rw [← ht] at hknows
    exact ⟨h, hh, hknows⟩
  · intro cmd hspares
    obtain ⟨r', hstep, -⟩ := step_ok hsound hfilled cmd hspares
    exact ⟨r', hstep⟩

theorem reached_run (cmds : List Command) {r' : Registry} (hr : Reached default_error_pages r)
    (hspares : ∀ cmd ∈ cmds, ∀ r, Spares r cmd) (hrun : run default_error_pages r cmds = .ok r') :
    Reached default_error_pages r' := by
  induction cmds generalizing r with
  | nil =>
    cases hrun
    exact hr
  | cons cmd cmds ih =>
    unfold run at hrun
    rw [List.foldlM_cons] at hrun
    cases hstep : step default_error_pages r cmd with
    | error e =>
      rw [hstep] at hrun
      cases hrun
    | ok r₁ =>
      rw [hstep, ok_bind] at hrun
      have hspare := hspares cmd (List.mem_cons_self ..) r
      exact ih (.step hr hspare hstep) (fun cmd' hmem => hspares cmd' (List.mem_cons_of_mem _ hmem))
        hrun

/-- A client of a host on two ports. -/
def oneClient : List Command :=
  [.addHost twoPorts fun _ => true, .accept (ascii "127.0.0.1") (ascii "80") true,
    .setHost 0 (ascii "a")]

/-- The server and the host of a client, and whether the server is there. -/
def whereabouts (r : Registry) (c : Address) : Option (Address × Option Address × Bool) :=
  (r.clients.get? c).map fun n => (n.server, n.host, (r.servers.get? n.server).isSome)

theorem oneClient_bound :
    ∃ r, whereabouts r 0 = some (0, some 0, true) ∧ Bound r ∧
      ∀ cmd, Spares r cmd → ∃ r', step [] r cmd = .ok r' := by
  have hclient : (run [] .empty oneClient).toOption.bind (whereabouts · 0) =
      some (0, some 0, true) := by decide +kernel
  cases hrun : run [] .empty oneClient with
  | error e =>
    rw [hrun] at hclient
    cases hclient
  | ok r =>
    rw [hrun] at hclient
    refine ⟨r, hclient, reached_bound (reached_run oneClient .empty ?_ hrun)⟩
    intro cmd hcmd r
    simp only [oneClient, List.mem_cons, List.not_mem_nil, or_false] at hcmd
    rcases hcmd with rfl | rfl | rfl
    · exact True.intro
    · exact True.intro
    · exact True.intro

def oneClientKilled : List Command :=
  oneClient ++ [.removeHost (ascii "127.0.0.1") (ascii "80") (ascii "a")]

/-- Taken off the port its client came through, the host stays on the other port, and the
client with it. -/
theorem client_outlives_server :
    ∃ r, run [] .empty oneClientKilled = .ok r ∧ ¬ Bound r := by
  have hclient : (run [] .empty oneClientKilled).toOption.bind (whereabouts · 0) =
      some (0, some 0, false) := by decide +kernel
  cases hrun : run [] .empty oneClientKilled with
  | error e =>
    rw [hrun] at hclient
    cases hclient
  | ok r =>
    rw [hrun] at hclient
    refine ⟨r, rfl, ?_⟩
    intro hbound
    obtain ⟨n, hn, hwhere⟩ := Option.map_eq_some_iff.mp (hclient : whereabouts r 0 = _)
    obtain ⟨s, hs, -⟩ := hbound 0 n hn
    rw [hs] at hwhere
    simp at hwhere

end Commands

end Webserveau.Registries
