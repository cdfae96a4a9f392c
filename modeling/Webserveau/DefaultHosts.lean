import Webserveau.HostSelections

/-!
The default host of a server.
A name that no host of a server has sends a client to the host of the first name in byte
order. That is the host registered first exactly when one of its names comes before the
names of all other hosts that listen on the server.
-/
namespace Webserveau.Registries

open ByteStrings OrderedMaps Formats Requests Arenas

/-- The hosts of the host list as their blocks gave them, in the order of the list. -/
def Registry.configs (r : Registry) : List HostConfig :=
  r.hosts.objects.map fun o => o.2.toHostConfig

/-- The host registered first among those that listen on a server. -/
def Registry.firstHost (r : Registry) (server : Address) : Option Address :=
  r.hosts.search fun h => server ∈ h.listenServers

/-- A name of the host comes before all other names of the hosts listening on a server. -/
def LeastNamed (r : Registry) (server q : Address) : Prop :=
  ∃ h, r.hosts.get? q = some h ∧ ∃ n ∈ h.server_names,
    ∀ y g, r.hosts.get? y = some g → server ∈ g.listenServers →
      ∀ m ∈ g.server_names, m = n ∨ byteLess n m = true

section FirstEntry

variable {κ ν : Type*} {less : κ → κ → Bool} [IsStrictWeakOrder κ (less · ·)]

/-- The first entry is the one whose key comes before all others. -/
theorem head_iff_least (m : OrderedMap κ ν less) (e : κ × ν) :
    m.entries.head? = some e ↔
      e ∈ m.entries ∧ ∀ d ∈ m.entries, d.1 = e.1 ∨ less e.1 d.1 = true := by
  have hsorted := m.sorted
  cases hentries : m.entries with
  | nil => simp
  | cons first rest =>
    rw [hentries] at hsorted
    obtain ⟨hfirst, -⟩ := List.pairwise_cons.mp hsorted
    rw [List.head?_cons, Option.some.injEq]
    constructor
    · rintro rfl
      refine ⟨List.mem_cons_self .., ?_⟩
      intro d hd
      rcases List.mem_cons.mp hd with rfl | hd
      · exact Or.inl rfl
      · exact Or.inr (hfirst d hd)
    · intro ⟨hmem, hleast⟩
      rcases List.mem_cons.mp hmem with rfl | hrest
      · rfl
      · -- A later entry cannot come before the first one.
        have hless := hfirst e hrest
        rcases hleast first (List.mem_cons_self ..) with hsame | hbefore
        · rw [hsame] at hless
          exact absurd hless (by simp [not_less_self])
        · exact absurd (trans_of (less · ·) hless hbefore) (irrefl_of (less · ·) _)

end FirstEntry

section Order

variable {default_error_pages : Bytes} {r r' : Registry}

theorem map_update {α β : Type} (a : Arena α) (p : Address) (f : α → α) (g : α → β)
    (hf : ∀ v, g (f v) = g v) :
    ((a.update p f).objects.map fun o => g o.2) = a.objects.map fun o => g o.2 := by
  show (a.objects.map fun o => if o.1 = p then (o.1, f o.2) else o).map (fun o => g o.2) = _
  rw [List.map_map]
  apply List.map_congr_left
  intro o _
  show g (if o.1 = p then (o.1, f o.2) else o).2 = g o.2
  split
  · exact hf o.2
  · rfl

theorem link_configs (p q : Address) (names : List Bytes) :
    (r.link p q names).configs = r.configs := by
  apply map_update
  intro h
  rfl

theorem addHost_configs (config : HostConfig) (opens : Bytes → Bool) :
    (r.addHost config opens).2.configs = r.configs ++ [config] := by
  have hports : ∀ (q : Address) (ports : List Bytes) (out : ℤ × Registry),
      (ports.foldl (registerNext q config opens) out).2.configs = out.2.configs := by
    intro q ports
    induction ports with
    | nil => exact fun _ => rfl
    | cons port ports ih =>
      intro out
      rw [List.foldl_cons, ih]
      show (out.2.registerPort q config port (opens port)).2.configs = _
      unfold Registry.registerPort
      split
      · apply link_configs
      · split
        · apply link_configs (r := out.2.allocServer config.addr port)
        · rfl
  rw [addHost_eq, hports]
  apply List.map_append

theorem leaveHost_configs {c : Address} {host : Option Address}
    (h : r.leaveHost c host = .ok r') : r'.configs = r.configs := by
  unfold Registry.leaveHost at h
  cases host with
  | none =>
    cases h
    rfl
  | some q =>
    obtain ⟨g, -, hdone⟩ := ran_bind_eq_ok_iff.mp h
    cases hdone
    apply map_update
    intro h
    rfl

theorem connection_configs (connection : Connection)
    (h : step default_error_pages r connection.command = .ok r') : r'.configs = r.configs := by
  cases connection with
  | accept ip port accepts =>
    simp only [Connection.command, step] at h
    split at h
    · cases h
      rfl
    · unfold Registry.acceptConnection at h
      obtain ⟨s, -, haccept⟩ := ran_bind_eq_ok_iff.mp h
      split at haccept
      · cases haccept
        rfl
      · cases haccept
        rfl
  | setHost c name =>
    simp only [Connection.command, step] at h
    split at h
    · cases h
      rfl
    · rename_i n hc
      rcases setHost_cases hc h with ⟨q, g, -, -, -, rfl⟩ | ⟨r₁, t, q, hleave, -, -, rfl⟩
      · rfl
      · rw [← leaveHost_configs hleave]
        apply map_update
        intro h
        rfl
  | terminate c =>
    simp only [Connection.command, step] at h
    split at h
    · cases h
      rfl
    · unfold Registry.terminate at h
      obtain ⟨m, -, hleaves⟩ := ran_bind_eq_ok_iff.mp h
      obtain ⟨r₁, hleave, hserved⟩ := ran_bind_eq_ok_iff.mp hleaves
      obtain ⟨t, -, hdone⟩ := ran_bind_eq_ok_iff.mp hserved
      cases hdone
      apply leaveHost_configs hleave

/-- The host list is in the order of the configuration, but for hosts that are refused. -/
theorem served_configs (hosts : List (HostConfig × (Bytes → Bool)))
    (connections : List Connection) (h : served default_error_pages hosts connections = .ok r) :
    r.configs.Sublist
      (hosts.map fun host => Registry.withErrorPages default_error_pages host.1) := by
  unfold served at h
  rw [run_append] at h
  obtain ⟨r₁, hhosts, hconnections⟩ := ran_bind_eq_ok_iff.mp h
  have hlater : r.configs = r₁.configs := by
    clear hhosts h
    induction connections generalizing r₁ with
    | nil =>
      cases hconnections
      rfl
    | cons connection connections ih =>
      unfold run at hconnections ih
      rw [List.map_cons, List.foldlM_cons] at hconnections
      obtain ⟨r₂, hstep, hrest⟩ := ran_bind_eq_ok_iff.mp hconnections
      rw [ih r₂ hrest, connection_configs connection hstep]
  have hfirst : ∀ r₀ : Registry, run default_error_pages r₀
      (hosts.map fun host => .addHost host.1 host.2) = .ok r₁ → ∃ added,
        r₁.configs = r₀.configs ++ added ∧ added.Sublist
          (hosts.map fun host => Registry.withErrorPages default_error_pages host.1) := by
    clear hhosts h hlater hconnections
    induction hosts with
    | nil =>
      intro r₀ hrun
      cases hrun
      exact ⟨[], (List.append_nil _).symm, List.Sublist.slnil⟩
    | cons host hosts ih =>
      intro r₀ hrun
      unfold run at hrun ih
      rw [List.map_cons, List.foldlM_cons] at hrun
      obtain ⟨r₂, hstep, hrest⟩ := ran_bind_eq_ok_iff.mp hrun
      obtain ⟨added, hadded, hsub⟩ := ih r₂ hrest
      simp only [step] at hstep
      split at hstep
      · cases hstep
        exact ⟨added, hadded, hsub.cons _⟩
      · rename_i config hcheck
        cases hstep
        refine ⟨config :: added, ?_, ?_⟩
        · rw [hadded, addHost_configs, List.append_assoc, List.singleton_append]
        · rw [List.map_cons, ← checkHost_value hcheck]
          exact hsub.cons_cons _
  obtain ⟨added, hadded, hsub⟩ := hfirst .empty hhosts
  rw [hlater, hadded]
  exact hsub

end Order

section Defaults

variable {r : Registry} {p first : Address} {s : ServerNode}

theorem entry_of_find? {ν : Type} {m : OrderedMap Bytes ν byteLess} {n : Bytes} {q : ν}
    (h : m.find? n = some q) : (n, q) ∈ m.entries := by
  obtain ⟨e, hfound, rfl⟩ := Option.map_eq_some_iff.mp h
  have hsame : Same byteLess e.1 n = true := by simpa using List.find?_some hfound
  rw [← (same_byteLess_iff e.1 n).mp hsame]
  exact List.mem_of_find?_eq_some hfound

/-- A server has names, and so a host that was registered first. -/
theorem exists_firstHost (hr : Linked r) (hfilled : Filled r) (hs : r.servers.get? p = some s) :
    ∃ first, r.firstHost p = some first := by
  cases hfirst : r.firstHost p with
  | some first => exact ⟨first, rfl⟩
  | none =>
    obtain ⟨e, he⟩ := List.exists_mem_of_ne_nil _ (hfilled p s hs)
    have hfind := OrderedMap.find?_of_mem s.hostMap he
    obtain ⟨h, hh, -, -, -, hlisted⟩ := hr.mapped p s e.1 e.2 hs hfind
    have hunlisted := Arena.search_none hfirst hh
    exact absurd hlisted (by simpa using hunlisted)

/-- The host that takes the names nobody has is the first one when it is least named. -/
theorem chosen_first_iff (hr : Linked r) (hs : r.servers.get? p = some s)
    (hfirst : r.firstHost p = some first) {name : Bytes} (hname : s.hostMap.find? name = none) :
    chosen s name = some first ↔ LeastNamed r p first := by
  obtain ⟨h, hh, hlisted⟩ := Arena.search_some hfirst
  have hnames : ∀ y g, r.hosts.get? y = some g → p ∈ g.listenServers →
      ∀ m ∈ g.server_names, (m, y) ∈ s.hostMap.entries := by
    intro y g hg hp m hm
    obtain ⟨t, ht, hknows⟩ := hr.listed y g p hg hp
    rw [hs, Option.some.injEq] at ht
    subst ht
    exact entry_of_find? (hknows m hm)
  have hhosts : ∀ e ∈ s.hostMap.entries, ∃ g, r.hosts.get? e.2 = some g ∧
      e.1 ∈ g.server_names ∧ p ∈ g.listenServers := by
    intro e he
    obtain ⟨g, hg, hm, -, -, hp⟩ :=
      hr.mapped p s e.1 e.2 hs (OrderedMap.find?_of_mem s.hostMap he)
    exact ⟨g, hg, hm, hp⟩
  unfold chosen
  rw [hname, Option.none_or, Option.map_eq_some_iff]
  constructor
  · rintro ⟨e, hhead, rfl⟩
    obtain ⟨hmem, hleast⟩ := (head_iff_least s.hostMap e).mp hhead
    obtain ⟨g, hg, hm, -⟩ := hhosts e hmem
    refine ⟨g, hg, e.1, hm, ?_⟩
    intro y k hk hp m hmk
    exact hleast (m, y) (hnames y k hk hp m hmk)
  · intro ⟨g, hg, n, hn, hleast⟩
    rw [hh, Option.some.injEq] at hg
    subst hg
    refine ⟨(n, first), ?_, rfl⟩
    apply (head_iff_least s.hostMap (n, first)).mpr
    refine ⟨hnames first h hh (by simpa using hlisted) n hn, ?_⟩
    intro d hd
    obtain ⟨k, hk, hm, hp⟩ := hhosts d hd
    exact hleast d.2 k hk hp d.1 hm

/-- A request for a name that its server does not have goes to the first host in the order
of the configuration exactly when that host is least named. -/
theorem default_host_first_iff (default_error_pages : Bytes)
    (hosts : List (HostConfig × (Bytes → Bool))) (connections : List Connection) :
    ∃ r, served default_error_pages hosts connections = .ok r ∧
      r.configs.Sublist
        (hosts.map fun host => Registry.withErrorPages default_error_pages host.1) ∧
      ∀ c n s name, r.clients.get? c = some n → r.servers.get? n.server = some s →
        s.hostMap.find? name = none → ∃ first r' m, r.firstHost n.server = some first ∧
          r.setHost c name = .ok r' ∧ r'.clients.get? c = some m ∧
            (m.host = some first ↔ LeastNamed r n.server first) := by
  obtain ⟨r, hrun, hr⟩ := served_ok default_error_pages hosts connections
  refine ⟨r, hrun, served_configs hosts connections hrun, ?_⟩
  intro c n s name hc hs hname
  obtain ⟨first, hfirst⟩ := exists_firstHost hr.sound.linked hr.filled hs
  obtain ⟨r', q, hset, -, -, hq, hclient⟩ := hr.setHost hc hs name
  refine ⟨first, r', _, hfirst, hset, hclient, ?_⟩
  rw [← chosen_first_iff hr.sound.linked hs hfirst hname, hq]

end Defaults

/-- A host on port 80 of the loopback address. -/
def loopback (name : Bytes) : HostConfig where
  host := plainHost name
  addr := ascii "127.0.0.1"
  ports := [ascii "80"]
  ports_sorted := List.pairwise_singleton _ _

/-- The hosts `b` and `a` are registered in this order; `c` goes to `a`. -/
theorem default_host_not_first :
    ¬ ∀ (default_error_pages : Bytes) (hosts : List (HostConfig × (Bytes → Bool)))
      (connections : List Connection) (r : Registry),
      served default_error_pages hosts connections = .ok r →
        ∀ c n s name, r.clients.get? c = some n → r.servers.get? n.server = some s →
          s.hostMap.find? name = none → ∃ first r' m, r.firstHost n.server = some first ∧
            r.setHost c name = .ok r' ∧ r'.clients.get? c = some m ∧ m.host = some first := by
  intro hclaim
  let hosts : List (HostConfig × (Bytes → Bool)) :=
    [(loopback (ascii "b"), fun _ => true), (loopback (ascii "a"), fun _ => true)]
  let connections := [Connection.accept (ascii "127.0.0.1") (ascii "80") true]
  obtain ⟨r, hrun, hr⟩ := served_ok [] hosts connections
  have hfirst : (served [] hosts connections).map (fun r => r.firstHost 0) = .ok (some 0) := by
    decide +kernel
  have hclient : (served [] hosts connections).map
      (fun r => (r.clients.get? 0).map fun n => n.server) = .ok (some 0) := by
    decide +kernel
  have hserver : (served [] hosts connections).map (fun r => (r.servers.get? 0).map fun s =>
      (s.hostMap.find? (ascii "c"), chosen s (ascii "c"))) = .ok (some (none, some 1)) := by
    decide +kernel
  rw [hrun] at hfirst hclient hserver
  obtain ⟨n, hn, hat⟩ := Option.map_eq_some_iff.mp (Except.ok.inj hclient)
  obtain ⟨s, hs, hnames⟩ := Option.map_eq_some_iff.mp (Except.ok.inj hserver)
  obtain ⟨hunknown, hchosen⟩ := Prod.mk.inj hnames
  rw [← hat] at hs
  obtain ⟨first, r', m, hfound, hset, hm, hhost⟩ := hclaim [] hosts connections r hrun 0 n s
    (ascii "c") hn hs hunknown
  obtain ⟨r₂, q, hset₂, -, -, hq, hq₂⟩ := hr.setHost hn hs (ascii "c")
  rw [hset, Except.ok.injEq] at hset₂
  subst hset₂
  rw [hm, Option.some.injEq] at hq₂
  have hfirst₀ : r.firstHost 0 = some 0 := Except.ok.inj hfirst
  rw [hat, hfirst₀, Option.some.injEq] at hfound
  rw [hchosen, Option.some.injEq] at hq
  rw [hq₂, ← hq, ← hfound] at hhost
  exact absurd (Option.some.inj hhost) (by decide)

end Webserveau.Registries
