import Mathlib
import Webserveau.Registries

/-!
What holds between servers and hosts.
A server knows a host by its names and a host knows the servers it is registered on; the
two agree. Every operation is described by what is found under a name after it.
-/
namespace Webserveau.Registries

open ByteStrings OrderedMaps Formats Requests Arenas

@[simp] theorem deref_some {α : Type} (v : α) : deref (some v) = .ok v := rfl

@[simp] theorem ok_bind {α β : Type} (v : α) (f : α → Ran β) :
    ((Except.ok v : Ran α) >>= f) = f v := rfl

@[simp] theorem pure_eq_ok {α : Type} (v : α) : (pure v : Ran α) = .ok v := rfl

section Names

variable {m : OrderedMap Bytes Address byteLess} {names : List Bytes} {host : Address}

theorem find?_insert_eq (j k : Bytes) :
    (m.insert j host).find? k = if j = k then some host else m.find? k := by
  rw [OrderedMap.find?_insert]
  simp only [same_byteLess_iff]

theorem find?_erase_eq (j k : Bytes) :
    (m.erase j).find? k = if j = k then none else m.find? k := by
  split
  · rename_i h
    exact OrderedMap.find?_erase_same m ((same_byteLess_iff j k).mpr h)
  · rename_i h
    refine OrderedMap.find?_erase_of_not_same m ?_
    rw [Bool.eq_false_iff, Ne, same_byteLess_iff]
    exact h

theorem find?_assign (n : Bytes) :
    (names.foldl (fun map name =>
      if (map.find? name).isNone then map.insert name host else map) m).find? n =
      (m.find? n).or (if n ∈ names then some host else none) := by
  induction names generalizing m with
  | nil => simp
  | cons name names ih =>
    rw [List.foldl_cons, ih]
    by_cases hn : name = n
    · subst hn
      cases hfind : m.find? name with
      | none => simp [find?_insert_eq]
      | some q => simp [hfind]
    · have hmem : (n ∈ name :: names) = (n ∈ names) := by simp [Ne.symm hn]
      simp only [hmem]
      split
      · rw [find?_insert_eq, if_neg hn]
      · rfl

theorem find?_unassign (n : Bytes) :
    (names.foldl OrderedMap.erase m).find? n = if n ∈ names then none else m.find? n := by
  induction names generalizing m with
  | nil => simp
  | cons name names ih =>
    rw [List.foldl_cons, ih, find?_erase_eq]
    by_cases hn : name = n
    · simp [hn]
    · simp [hn, Ne.symm hn]

end Names

namespace ServerNode

/-- The hosts that a server has a name for. -/
def mapped (s : ServerNode) : Finset Address := (s.hostMap.entries.map Prod.snd).toFinset

theorem mem_mapped_iff (s : ServerNode) (q : Address) :
    q ∈ s.mapped ↔ ∃ n, s.hostMap.find? n = some q := by
  unfold mapped
  rw [List.mem_toFinset, List.mem_map]
  constructor
  · intro ⟨e, he, hq⟩
    refine ⟨e.1, ?_⟩
    rw [OrderedMap.find?_of_mem s.hostMap he, hq]
  · intro ⟨n, hn⟩
    exact OrderedMap.mem_of_find? hn

theorem entries_eq_nil_iff (s : ServerNode) :
    s.hostMap.entries = [] ↔ ∀ n q, s.hostMap.find? n ≠ some q := by
  constructor
  · intro h n q
    simp [OrderedMap.find?, h]
  · intro h
    cases hentries : s.hostMap.entries with
    | nil => rfl
    | cons e es =>
      have hmem : e ∈ s.hostMap.entries := by simp [hentries]
      exact absurd (OrderedMap.find?_of_mem s.hostMap hmem) (h e.1 e.2)

/-- What stays the same while only clients come and go. -/
def links (s : ServerNode) : Bytes × Bytes × OrderedMap Bytes Address byteLess × ℤ :=
  (s.ip, s.port, s.hostMap, s.nbrHost)

end ServerNode

def HostNode.links (h : HostNode) : HostConfig × List Address :=
  (h.toHostConfig, h.listenServers)

/-- The server knows the host under each of its names. -/
def ServerNode.Knows (s : ServerNode) (q : Address) (h : HostNode) : Prop :=
  ∀ n ∈ h.server_names, s.hostMap.find? n = some q

/-- A name of a server at `p` belongs to a host that is registered on it. -/
def HostNode.RegisteredAt (h : HostNode) (n : Bytes) (s : ServerNode) (p : Address) : Prop :=
  n ∈ h.server_names ∧ h.addr = s.ip ∧ s.port ∈ h.ports ∧ p ∈ h.listenServers

/-- The agreement of servers and hosts. -/
structure Linked (r : Registry) : Prop where
  distinct : ∀ p p' s s', r.servers.get? p = some s → r.servers.get? p' = some s' →
    s.ip = s'.ip → s.port = s'.port → p = p'
  mapped : ∀ p s n q, r.servers.get? p = some s → s.hostMap.find? n = some q →
    ∃ h, r.hosts.get? q = some h ∧ h.RegisteredAt n s p
  listed : ∀ q h p, r.hosts.get? q = some h → p ∈ h.listenServers →
    ∃ s, r.servers.get? p = some s ∧ s.Knows q h
  counted : ∀ p s, r.servers.get? p = some s → s.nbrHost = s.mapped.card
  named : ∀ q h, r.hosts.get? q = some h → h.server_names ≠ []

/-- Every server has a name. -/
def Filled (r : Registry) : Prop :=
  ∀ p s, r.servers.get? p = some s → s.hostMap.entries ≠ []

/-- Servers and hosts are the same but for their clients. -/
structure SameLinks (r r' : Registry) : Prop where
  servers : ∀ p, (r'.servers.get? p).map ServerNode.links = (r.servers.get? p).map ServerNode.links
  hosts : ∀ q, (r'.hosts.get? q).map HostNode.links = (r.hosts.get? q).map HostNode.links

namespace SameLinks

variable {r r' r'' : Registry}

theorem refl (r : Registry) : SameLinks r r := ⟨fun _ => rfl, fun _ => rfl⟩

theorem symm (h : SameLinks r r') : SameLinks r' r :=
  ⟨fun p => (h.servers p).symm, fun q => (h.hosts q).symm⟩

theorem trans (h : SameLinks r r') (h' : SameLinks r' r'') : SameLinks r r'' :=
  ⟨fun p => (h'.servers p).trans (h.servers p), fun q => (h'.hosts q).trans (h.hosts q)⟩

theorem server (h : SameLinks r r') {p : Address} {s' : ServerNode}
    (hs' : r'.servers.get? p = some s') :
    ∃ s, r.servers.get? p = some s ∧ s.ip = s'.ip ∧ s.port = s'.port ∧
      s.hostMap = s'.hostMap ∧ s.nbrHost = s'.nbrHost := by
  have hlinks := h.servers p
  rw [hs', Option.map_some, eq_comm, Option.map_eq_some_iff] at hlinks
  obtain ⟨s, hs, heq⟩ := hlinks
  simp only [ServerNode.links, Prod.mk.injEq] at heq
  exact ⟨s, hs, heq⟩

theorem host (h : SameLinks r r') {q : Address} {h₁ : HostNode}
    (hh : r'.hosts.get? q = some h₁) :
    ∃ h₀, r.hosts.get? q = some h₀ ∧ h₀.toHostConfig = h₁.toHostConfig ∧
      h₀.listenServers = h₁.listenServers := by
  have hlinks := h.hosts q
  rw [hh, Option.map_some, eq_comm, Option.map_eq_some_iff] at hlinks
  obtain ⟨h₀, hh₀, heq⟩ := hlinks
  simp only [HostNode.links, Prod.mk.injEq] at heq
  exact ⟨h₀, hh₀, heq⟩

/-- Changes of the clients of one server. -/
theorem update_server {p : Address} {f : ServerNode → ServerNode}
    (hf : ∀ s, (f s).links = s.links) :
    SameLinks r { r with servers := r.servers.update p f } := by
  constructor
  · intro x
    show ((r.servers.update p f).get? x).map _ = _
    rw [Arena.get?_update]
    split
    · rw [Option.map_map]
      exact Option.map_congr fun s _ => hf s
    · rfl
  · exact fun _ => rfl

/-- Changes of the clients of one host. -/
theorem update_host {q : Address} {f : HostNode → HostNode}
    (hf : ∀ h, (f h).links = h.links) :
    SameLinks r { r with hosts := r.hosts.update q f } := by
  constructor
  · exact fun _ => rfl
  · intro x
    show ((r.hosts.update q f).get? x).map _ = _
    rw [Arena.get?_update]
    split
    · rw [Option.map_map]
      exact Option.map_congr fun h _ => hf h
    · rfl

theorem with_clients (a : Arena ClientNode) : SameLinks r { r with clients := a } :=
  ⟨fun _ => rfl, fun _ => rfl⟩

theorem filled (h : SameLinks r r') (hr : Filled r) : Filled r' := by
  intro p s' hs'
  obtain ⟨s, hs, -, -, hmap, -⟩ := h.server hs'
  rw [← hmap]
  exact hr p s hs

theorem linked (h : SameLinks r r') (hr : Linked r) : Linked r' := by
  constructor
  · intro p p' s s' hs hs' hip hport
    obtain ⟨t, ht, hip₁, hport₁, -⟩ := h.server hs
    obtain ⟨t', ht', hip₂, hport₂, -⟩ := h.server hs'
    exact hr.distinct p p' t t' ht ht' (by rw [hip₁, hip₂, hip]) (by rw [hport₁, hport₂, hport])
  · intro p s n q hs hn
    obtain ⟨t, ht, hip, hport, hmap, -⟩ := h.server hs
    obtain ⟨h₀, hh₀, hname, haddr, hports, hlisted⟩ := hr.mapped p t n q ht (by rw [hmap, hn])
    obtain ⟨h₁, hh₁, hconfig, hlist⟩ := h.symm.host hh₀
    refine ⟨h₁, hh₁, ?_, ?_, ?_, ?_⟩
    · rw [HostNode.server_names, hconfig]
      exact hname
    · rw [hconfig, haddr, hip]
    · rw [hconfig, ← hport]
      exact hports
    · rw [hlist]
      exact hlisted
  · intro q h₁ p hh₁ hp
    obtain ⟨h₀, hh₀, hconfig, hlist⟩ := h.host hh₁
    obtain ⟨s, hs, hknows⟩ := hr.listed q h₀ p hh₀ (by rw [hlist]; exact hp)
    obtain ⟨s', hs', -, -, hmap, -⟩ := h.symm.server hs
    refine ⟨s', hs', ?_⟩
    intro n hn
    rw [hmap]
    refine hknows n ?_
    rw [HostNode.server_names, hconfig]
    exact hn
  · intro p s' hs'
    obtain ⟨s, hs, -, -, hmap, hnbr⟩ := h.server hs'
    have hcount := hr.counted p s hs
    rw [hnbr, ServerNode.mapped, hmap] at hcount
    exact hcount
  · intro q h₁ hh₁
    obtain ⟨h₀, hh₀, hconfig, -⟩ := h.host hh₁
    have hnamed := hr.named q h₀ hh₀
    rw [HostNode.server_names, hconfig] at hnamed
    exact hnamed

end SameLinks

section Operations

variable {r : Registry} {p q : Address} {s : ServerNode} {h : HostNode}

theorem mem_addListenServer (h : HostNode) (p x : Address) :
    x ∈ (h.addListenServer p).listenServers ↔ x = p ∨ x ∈ h.listenServers :=
  List.mem_insert_iff

theorem mem_removeListenServer (h : HostNode) (p x : Address) :
    x ∈ (h.removeListenServer p).listenServers ↔ x ∈ h.listenServers ∧ x ≠ p := by
  simp [HostNode.removeListenServer]

theorem assignHost_find? (n : Bytes) :
    (s.assignHost q h.server_names).hostMap.find? n =
      (s.hostMap.find? n).or (if n ∈ h.server_names then some q else none) :=
  find?_assign n

theorem unassignHost_find? (cs : List Address) (n : Bytes) :
    (s.unassignHost cs h.server_names).hostMap.find? n =
      if n ∈ h.server_names then none else s.hostMap.find? n :=
  find?_unassign n

/-- A host that none of whose names is taken is one more host of the server. -/
theorem assignHost_mapped (hfree : ∀ n ∈ h.server_names, s.hostMap.find? n = none)
    (hnamed : h.server_names ≠ []) :
    (s.assignHost q h.server_names).mapped = insert q s.mapped := by
  ext x
  rw [ServerNode.mem_mapped_iff, Finset.mem_insert, ServerNode.mem_mapped_iff]
  constructor
  · intro ⟨n, hn⟩
    rw [assignHost_find?] at hn
    cases hold : s.hostMap.find? n with
    | some y =>
      rw [hold] at hn
      exact Or.inr ⟨n, hold.trans hn⟩
    | none =>
      rw [hold, Option.none_or] at hn
      split at hn
      · exact Or.inl (Option.some.inj hn).symm
      · cases hn
  · intro hx
    rcases hx with rfl | ⟨n, hn⟩
    · obtain ⟨n, hn⟩ := List.exists_mem_of_ne_nil _ hnamed
      refine ⟨n, ?_⟩
      rw [assignHost_find?, hfree n hn, Option.none_or, if_pos hn]
    · refine ⟨n, ?_⟩
      rw [assignHost_find?, hn, Option.some_or]

/-- A host is registered on a server that has none of its names. -/
theorem Linked.link (hr : Linked r) (hs : r.servers.get? p = some s)
    (hh : r.hosts.get? q = some h) (haddr : h.addr = s.ip) (hport : s.port ∈ h.ports)
    (hfree : ∀ n ∈ h.server_names, s.hostMap.find? n = none) :
    Linked (r.link p q h.server_names) := by
  have hnamed := hr.named q h hh
  have hnew : q ∉ s.mapped := by
    intro hmem
    obtain ⟨n, hn⟩ := (s.mem_mapped_iff q).mp hmem
    obtain ⟨h', hh', hreg⟩ := hr.mapped p s n q hs hn
    rw [hh, Option.some.injEq] at hh'
    subst hh'
    rw [hfree n hreg.1] at hn
    cases hn
  have hself : (r.link p q h.server_names).hosts.get? q = some (h.addListenServer p) :=
    Arena.get?_update_self _ hh
  constructor
  · intro x x' t t' ht ht' hip hport
    rcases Arena.of_get?_update ht with ⟨rfl, u, hu, rfl⟩ | ⟨hx, hu⟩
    · rcases Arena.of_get?_update ht' with ⟨rfl, u', hu', rfl⟩ | ⟨hx', hu'⟩
      · rfl
      · exact hr.distinct x x' u t' hu hu' hip hport
    · rcases Arena.of_get?_update ht' with ⟨rfl, u', hu', rfl⟩ | ⟨hx', hu'⟩
      · exact hr.distinct x x' t u' hu hu' hip hport
      · exact hr.distinct x x' t t' hu hu' hip hport
  · intro x t n y ht hn
    have hold : ∀ u, r.servers.get? x = some u → u.ip = t.ip → u.port = t.port →
        u.hostMap.find? n = some y →
        ∃ h', (r.link p q h.server_names).hosts.get? y = some h' ∧ h'.RegisteredAt n t x := by
      intro u hu hip hport hfind
      obtain ⟨h', hh', hname, haddr', hport', hlisted⟩ := hr.mapped x u n y hu hfind
      by_cases hy : y = q
      · rw [hy, hh, Option.some.injEq] at hh'
        subst hh'
        rw [hy]
        refine ⟨_, hself, hname, haddr'.trans hip, ?_, ?_⟩
        · rw [← hport]
          exact hport'
        · exact (mem_addListenServer ..).mpr (Or.inr hlisted)
      · refine ⟨h', (Arena.get?_update_ne _ hy).trans hh', hname, haddr'.trans hip, ?_, hlisted⟩
        rw [← hport]
        exact hport'
    rcases Arena.of_get?_update ht with ⟨rfl, u, hu, rfl⟩ | ⟨hx, hu⟩
    · rw [hs, Option.some.injEq] at hu
      subst hu
      rw [assignHost_find?] at hn
      cases hfind : s.hostMap.find? n with
      | some y' =>
        rw [hfind] at hn
        exact hold s hs rfl rfl (hfind.trans hn)
      | none =>
        rw [hfind, Option.none_or] at hn
        split at hn
        · rename_i hname
          rw [← Option.some.inj hn]
          exact ⟨_, hself, hname, haddr, hport, (mem_addListenServer ..).mpr (Or.inl rfl)⟩
        · cases hn
    · exact hold t hu rfl rfl hn
  · intro y h' x hh' hx
    have hold : ∀ g, r.hosts.get? y = some g → g.server_names = h'.server_names →
        x ∈ g.listenServers →
        ∃ t, (r.link p q h.server_names).servers.get? x = some t ∧ t.Knows y h' := by
      intro g hg hnames hmem
      obtain ⟨t, ht, hknows⟩ := hr.listed y g x hg hmem
      by_cases hxp : x = p
      · rw [hxp, hs, Option.some.injEq] at ht
        subst ht
        rw [hxp]
        refine ⟨_, Arena.get?_update_self _ hs, ?_⟩
        intro n hn
        rw [assignHost_find?, hknows n (by rw [hnames]; exact hn), Option.some_or]
      · refine ⟨t, (Arena.get?_update_ne _ hxp).trans ht, ?_⟩
        intro n hn
        exact hknows n (by rw [hnames]; exact hn)
    rcases Arena.of_get?_update hh' with ⟨rfl, g, hg, rfl⟩ | ⟨hy, hg⟩
    · rw [hh, Option.some.injEq] at hg
      subst hg
      rcases (mem_addListenServer ..).mp hx with rfl | hmem
      · refine ⟨_, Arena.get?_update_self _ hs, ?_⟩
        intro n hn
        have hname : n ∈ h.server_names := hn
        rw [assignHost_find?, hfree n hname, Option.none_or, if_pos hname]
      · exact hold h hh rfl hmem
    · exact hold h' hg rfl hx
  · intro x t ht
    rcases Arena.of_get?_update ht with ⟨rfl, u, hu, rfl⟩ | ⟨hx, hu⟩
    · rw [hs, Option.some.injEq] at hu
      subst hu
      rw [assignHost_mapped hfree hnamed, Finset.card_insert_of_notMem hnew]
      have hcount := hr.counted x s hs
      show s.nbrHost + 1 = _
      omega
    · exact hr.counted x t hu
  · intro y h' hh'
    rcases Arena.of_get?_update hh' with ⟨rfl, g, hg, rfl⟩ | ⟨hy, hg⟩
    · exact hr.named y g hg
    · exact hr.named y h' hg

/-- Every server but one has a name. -/
def FilledBut (r : Registry) (p : Address) : Prop :=
  ∀ x t, r.servers.get? x = some t → x ≠ p → t.hostMap.entries ≠ []

theorem FilledBut.link (hr : FilledBut r p) (hs : r.servers.get? p = some s)
    (hnamed : h.server_names ≠ []) (hfree : ∀ n ∈ h.server_names, s.hostMap.find? n = none) :
    Filled (r.link p q h.server_names) := by
  intro x t ht
  rcases Arena.of_get?_update ht with ⟨rfl, u, hu, rfl⟩ | ⟨hx, hu⟩
  · rw [hs, Option.some.injEq] at hu
    subst hu
    obtain ⟨n, hn⟩ := List.exists_mem_of_ne_nil _ hnamed
    intro hempty
    rw [ServerNode.entries_eq_nil_iff] at hempty
    refine hempty n q ?_
    rw [assignHost_find?, hfree n hn, Option.none_or, if_pos hn]
  · exact hr x t hu hx

theorem findServer_some {ip port : Bytes} (h : r.findServer ip port = some p) :
    ∃ s, r.servers.get? p = some s ∧ s.ip = ip ∧ s.port = port := by
  obtain ⟨s, hs, hmatch⟩ := Arena.search_some h
  exact ⟨s, hs, by simpa using hmatch⟩

theorem findServer_none {ip port : Bytes} (h : r.findServer ip port = none)
    (hs : r.servers.get? p = some s) : ¬ (s.ip = ip ∧ s.port = port) := by
  have hmatch := Arena.search_none h hs
  simpa using hmatch

/-- All names of a host are gone, and no others. -/
theorem unassignHost_find?_iff (hr : Linked r) (hs : r.servers.get? p = some s)
    (hh : r.hosts.get? q = some h) (hknows : s.Knows q h) (cs : List Address) (n : Bytes)
    (y : Address) :
    (s.unassignHost cs h.server_names).hostMap.find? n = some y ↔
      s.hostMap.find? n = some y ∧ y ≠ q := by
  rw [unassignHost_find?]
  constructor
  · intro hn
    split at hn
    · cases hn
    · rename_i hname
      refine ⟨hn, ?_⟩
      rintro rfl
      obtain ⟨h', hh', hreg⟩ := hr.mapped p s n y hs hn
      rw [hh, Option.some.injEq] at hh'
      subst hh'
      exact hname hreg.1
  · intro ⟨hn, hy⟩
    rw [if_neg, hn]
    intro hname
    rw [hknows n hname, Option.some.injEq] at hn
    exact hy hn.symm

theorem unassignHost_mapped (hr : Linked r) (hs : r.servers.get? p = some s)
    (hh : r.hosts.get? q = some h) (hknows : s.Knows q h) (cs : List Address) :
    (s.unassignHost cs h.server_names).mapped = s.mapped.erase q := by
  ext x
  rw [ServerNode.mem_mapped_iff, Finset.mem_erase, ServerNode.mem_mapped_iff]
  simp only [unassignHost_find?_iff hr hs hh hknows]
  constructor
  · intro ⟨n, hn, hx⟩
    exact ⟨hx, n, hn⟩
  · intro ⟨hx, n, hn⟩
    exact ⟨n, hn, hx⟩

/-- The registry after a host is taken off a server that knows it. -/
def unlinked (r : Registry) (p q : Address) (h : HostNode) : Registry :=
  { r with
    servers := r.servers.update p fun s => s.unassignHost h.clients h.server_names
    hosts := r.hosts.update q fun h => h.removeListenServer p }

theorem unassignHost_ok (hr : Linked r) (hs : r.servers.get? p = some s)
    (hh : r.hosts.get? q = some h) (hknows : s.Knows q h) :
    r.unassignHost p q = .ok (unlinked r p q h) := by
  unfold Registry.unassignHost
  simp only [hs, hh, deref_some, ok_bind]
  cases hnames : h.server_names with
  | nil => exact absurd hnames (hr.named q h hh)
  | cons first rest =>
    have hfirst := hknows first (by rw [hnames]; exact List.mem_cons_self ..)
    simp only [hfirst, hh, deref_some, ok_bind, pure_eq_ok, unlinked, hnames]

theorem Linked.unlinked (hr : Linked r) (hs : r.servers.get? p = some s)
    (hh : r.hosts.get? q = some h) (hknows : s.Knows q h) :
    Linked (unlinked r p q h) := by
  constructor
  · intro x x' t t' ht ht' hip hport
    rcases Arena.of_get?_update ht with ⟨rfl, u, hu, rfl⟩ | ⟨hx, hu⟩
    · rcases Arena.of_get?_update ht' with ⟨rfl, u', hu', rfl⟩ | ⟨hx', hu'⟩
      · rfl
      · exact hr.distinct x x' u t' hu hu' hip hport
    · rcases Arena.of_get?_update ht' with ⟨rfl, u', hu', rfl⟩ | ⟨hx', hu'⟩
      · exact hr.distinct x x' t u' hu hu' hip hport
      · exact hr.distinct x x' t t' hu hu' hip hport
  · intro x t n y ht hn
    rcases Arena.of_get?_update ht with ⟨rfl, u, hu, rfl⟩ | ⟨hx, hu⟩
    · rw [hs, Option.some.injEq] at hu
      subst hu
      obtain ⟨hfind, hy⟩ := (unassignHost_find?_iff hr hs hh hknows h.clients n y).mp hn
      obtain ⟨g, hg, hreg⟩ := hr.mapped x s n y hs hfind
      exact ⟨g, (Arena.get?_update_ne _ hy).trans hg, hreg⟩
    · obtain ⟨g, hg, hname, haddr, hport, hlisted⟩ := hr.mapped x t n y hu hn
      by_cases hy : y = q
      · rw [hy] at hg ⊢
        refine ⟨_, Arena.get?_update_self _ hg, hname, haddr, hport, ?_⟩
        exact (mem_removeListenServer ..).mpr ⟨hlisted, hx⟩
      · exact ⟨g, (Arena.get?_update_ne _ hy).trans hg, hname, haddr, hport, hlisted⟩
  · intro y g x hg hx
    rcases Arena.of_get?_update hg with ⟨rfl, g₀, hg₀, rfl⟩ | ⟨hy, hg₀⟩
    · obtain ⟨hmem, hxp⟩ := (mem_removeListenServer ..).mp hx
      obtain ⟨t, ht, hknown⟩ := hr.listed y g₀ x hg₀ hmem
      exact ⟨t, (Arena.get?_update_ne _ hxp).trans ht, hknown⟩
    · obtain ⟨t, ht, hknown⟩ := hr.listed y g x hg₀ hx
      by_cases hxp : x = p
      · rw [hxp, hs, Option.some.injEq] at ht
        subst ht
        rw [hxp]
        refine ⟨_, Arena.get?_update_self _ hs, ?_⟩
        intro n hn
        rw [unassignHost_find?_iff hr hs hh hknows]
        exact ⟨hknown n hn, hy⟩
      · exact ⟨t, (Arena.get?_update_ne _ hxp).trans ht, hknown⟩
  · intro x t ht
    rcases Arena.of_get?_update ht with ⟨rfl, u, hu, rfl⟩ | ⟨hx, hu⟩
    · rw [hs, Option.some.injEq] at hu
      subst hu
      obtain ⟨n, hn⟩ := List.exists_mem_of_ne_nil _ (hr.named q h hh)
      have hmem : q ∈ s.mapped := (s.mem_mapped_iff q).mpr ⟨n, hknows n hn⟩
      have hpos := Finset.card_pos.mpr ⟨q, hmem⟩
      have hcount := hr.counted x s hs
      rw [unassignHost_mapped hr hs hh hknows, Finset.card_erase_of_mem hmem]
      show s.nbrHost - 1 = _
      omega
    · exact hr.counted x t hu
  · intro y g hg
    rcases Arena.of_get?_update hg with ⟨rfl, g₀, hg₀, rfl⟩ | ⟨hy, hg₀⟩
    · exact hr.named y g₀ hg₀
    · exact hr.named y g hg₀

/-- A server that is not there yet is added without hosts. -/
theorem Linked.allocServer (hr : Linked r) {ip port : Bytes}
    (hnone : r.findServer ip port = none) : Linked (r.allocServer ip port) := by
  constructor
  · intro x x' t t' ht ht' hip hport
    rcases Arena.of_get?_alloc ht with ⟨hx, rfl⟩ | ⟨hx, hu⟩
    · rcases Arena.of_get?_alloc ht' with ⟨hx', rfl⟩ | ⟨hx', hu'⟩
      · rw [hx, hx']
      · exact absurd ⟨hip.symm, hport.symm⟩ (findServer_none hnone hu')
    · rcases Arena.of_get?_alloc ht' with ⟨hx', rfl⟩ | ⟨hx', hu'⟩
      · exact absurd ⟨hip, hport⟩ (findServer_none hnone hu)
      · exact hr.distinct x x' t t' hu hu' hip hport
  · intro x t n y ht hn
    rcases Arena.of_get?_alloc ht with ⟨hx, rfl⟩ | ⟨hx, hu⟩
    · cases hn
    · exact hr.mapped x t n y hu hn
  · intro y g x hg hx
    obtain ⟨t, ht, hknows⟩ := hr.listed y g x hg hx
    exact ⟨t, Arena.get?_alloc_of_some ht, hknows⟩
  · intro x t ht
    rcases Arena.of_get?_alloc ht with ⟨hx, rfl⟩ | ⟨hx, hu⟩
    · rfl
    · exact hr.counted x t hu
  · exact hr.named

/-- A server without names is removed. -/
theorem Linked.freeServer (hr : Linked r) (hs : r.servers.get? p = some s)
    (hempty : s.hostMap.entries = []) : Linked { r with servers := r.servers.free p } := by
  constructor
  · intro x x' t t' ht ht'
    exact hr.distinct x x' t t' (Arena.of_get?_free ht).2 (Arena.of_get?_free ht').2
  · intro x t n y ht hn
    exact hr.mapped x t n y (Arena.of_get?_free ht).2 hn
  · intro y g x hg hx
    obtain ⟨t, ht, hknows⟩ := hr.listed y g x hg hx
    have hne : x ≠ p := by
      intro hxp
      rw [hxp, hs, Option.some.injEq] at ht
      subst ht
      obtain ⟨n, hn⟩ := List.exists_mem_of_ne_nil _ (hr.named y g hg)
      exact (ServerNode.entries_eq_nil_iff s).mp hempty n y (hknows n hn)
    exact ⟨t, (Arena.get?_free_ne hne).trans ht, hknows⟩
  · intro x t ht
    exact hr.counted x t (Arena.of_get?_free ht).2
  · exact hr.named

/-- A host that is registered nowhere is removed. -/
theorem Linked.freeHost (hr : Linked r) (hh : r.hosts.get? q = some h)
    (hempty : h.listenServers = []) : Linked { r with hosts := r.hosts.free q } := by
  constructor
  · exact hr.distinct
  · intro x t n y ht hn
    obtain ⟨g, hg, hreg⟩ := hr.mapped x t n y ht hn
    have hne : y ≠ q := by
      intro hyq
      rw [hyq, hh, Option.some.injEq] at hg
      subst hg
      have hlisted := hreg.2.2.2
      rw [hempty] at hlisted
      cases hlisted
    exact ⟨g, (Arena.get?_free_ne hne).trans hg, hreg⟩
  · intro y g x hg hx
    exact hr.listed y g x (Arena.of_get?_free hg).2 hx
  · exact hr.counted
  · intro y g hg
    exact hr.named y g (Arena.of_get?_free hg).2

end Operations

end Webserveau.Registries
