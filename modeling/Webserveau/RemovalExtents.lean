import Webserveau.HostSelections

/-!
What a removal takes away.
A server goes with the clients it accepted and with nothing else, and a host takes its
server with it when the server knows no other host.
-/
namespace Webserveau.Registries

open ByteStrings OrderedMaps Formats Requests Arenas

/-- The servers of a set are gone with their clients, and nothing else is. -/
structure Loses (r r' : Registry) (gone : Address → Prop) : Prop where
  servers : ∀ x, (∃ s, r'.servers.get? x = some s) ↔
    (∃ s, r.servers.get? x = some s) ∧ ¬ gone x
  clients : ∀ c n, r'.clients.get? c = some n ↔ r.clients.get? c = some n ∧ ¬ gone n.server

namespace Loses

variable {r r' r'' : Registry} {gone gone' : Address → Prop}

theorem refl (r : Registry) : Loses r r fun _ => False := by
  constructor
  · intro x
    simp
  · intro c n
    simp

theorem trans (h : Loses r r' gone) (h' : Loses r' r'' gone') :
    Loses r r'' fun x => gone x ∨ gone' x := by
  constructor
  · intro x
    rw [h'.servers, h.servers, not_or, and_assoc]
  · intro c n
    rw [h'.clients, h.clients, not_or, and_assoc]

theorem congr (h : Loses r r' gone) (heq : ∀ x, gone x ↔ gone' x) : Loses r r' gone' := by
  have hsame : gone = gone' := funext fun x => propext (heq x)
  rwa [hsame] at h

/-- A change of the lists of servers and hosts loses nothing. -/
theorem of_same (hservers : ∀ x, (∃ s, r'.servers.get? x = some s) ↔ ∃ s, r.servers.get? x = some s)
    (hclients : r'.clients = r.clients) : Loses r r' fun _ => False := by
  constructor
  · intro x
    simp [hservers x]
  · intro c n
    simp [hclients]

end Loses

section Removals

variable {r : Registry} {p q : Address} {s : ServerNode} {h : HostNode}

theorem SameLinks.server_iff {r r' : Registry} (h : SameLinks r r') (x : Address) :
    (∃ s, r'.servers.get? x = some s) ↔ ∃ s, r.servers.get? x = some s := by
  constructor
  · intro ⟨s, hs⟩
    obtain ⟨t, ht, -⟩ := h.server hs
    exact ⟨t, ht⟩
  · intro ⟨s, hs⟩
    obtain ⟨t, ht, -⟩ := h.symm.server hs
    exact ⟨t, ht⟩

/-- Both lists of a server are terminated, which takes away the clients it accepted. -/
theorem terminateClients_left (hr : Sound r) (hs : r.servers.get? p = some s) :
    ∃ r₁ s₁ r₂ s₂, r.terminateAll s.orphanClients = .ok r₁ ∧ r₁.servers.get? p = some s₁ ∧
      r₁.terminateAll s₁.connectedClients = .ok r₂ ∧ r₂.servers.get? p = some s₂ ∧
      Sound r₂ ∧ SameLinks r r₂ ∧
      ∀ c n, r₂.clients.get? c = some n ↔ r.clients.get? c = some n ∧ n.server ≠ p := by
  have hserves := hr.attached.serves p s hs
  obtain ⟨r₁, hfirst, hlinks₁, hattached₁, hleft₁⟩ := terminateAll_ok s.orphanClients hr
    hserves.orphans_nodup (fun d hd => by
      obtain ⟨m, hm, -⟩ := (hserves.orphans d).mp hd
      exact ⟨m, hm⟩)
  have hr₁ : Sound r₁ := ⟨hlinks₁.linked hr.linked, hattached₁⟩
  obtain ⟨s₁, hs₁, -⟩ := hlinks₁.symm.server hs
  have hserves₁ := hattached₁.serves p s₁ hs₁
  obtain ⟨r₂, hsecond, hlinks₂, hattached₂, hleft₂⟩ := terminateAll_ok s₁.connectedClients hr₁
    hserves₁.connected_nodup (fun d hd => by
      obtain ⟨m, hm, -⟩ := (hserves₁.connected d).mp hd
      exact ⟨m, hm⟩)
  obtain ⟨s₂, hs₂, -⟩ := hlinks₂.symm.server hs₁
  refine ⟨r₁, s₁, r₂, s₂, hfirst, hs₁, hsecond, hs₂, ⟨hlinks₂.linked hr₁.linked, hattached₂⟩,
    hlinks₁.trans hlinks₂, ?_⟩
  intro c n
  rw [hleft₂]
  constructor
  · intro ⟨hnot, hc⟩
    refine ⟨((hleft₁ c n).mp hc).2, ?_⟩
    intro hp
    exact hnot ((hserves₁.connected c).mpr ⟨n, hc, hp⟩)
  · intro ⟨hc, hp⟩
    have hc₁ : r₁.clients.get? c = some n := by
      refine (hleft₁ c n).mpr ⟨?_, hc⟩
      intro horphan
      obtain ⟨m, hm, hmp, -⟩ := (hserves.orphans c).mp horphan
      rw [hc, Option.some.injEq] at hm
      exact hp (hm ▸ hmp)
    refine ⟨?_, hc₁⟩
    intro hconnected
    obtain ⟨m, hm, hmp⟩ := (hserves₁.connected c).mp hconnected
    rw [hc₁, Option.some.injEq] at hm
    exact hp (hm ▸ hmp)

/-- `removeServer` takes away the server and the clients it accepted. -/
theorem removeServer_loses (hr : Sound r) (hs : r.servers.get? p = some s) {r' : Registry}
    (hrun : r.removeServer p = .ok r') : Loses r r' fun x => x = p := by
  obtain ⟨r₁, s₁, r₂, s₂, hfirst, hs₁, hsecond, hs₂, hr₂, -, hleft⟩ :=
    terminateClients_left hr hs
  have hgone : ∀ q, Spared r₂ p q := fun q c n hc hboth => ((hleft c n).mp hc).2 hboth.1
  obtain ⟨r₃, s₃, hloop, -, -, hclients, -⟩ :=
    unassignEntries_ok (uniqueValues [] s₂.hostMap.entries) hr₂ hs₂
      (uniqueValues_values [] s₂.hostMap.entries).1
      (fun e he => OrderedMap.find?_of_mem s₂.hostMap (uniqueValues_subset _ _ e he)) hgone
  obtain ⟨r₄, hrun₄, -, -, hnone⟩ := removeServer_ok hr hs
  rw [hrun, Except.ok.injEq] at hrun₄
  subst hrun₄
  have hresult : r' = { r₃ with servers := r₃.servers.free p } := by
    unfold Registry.removeServer at hrun
    simp only [hs, deref_some, ok_bind, hfirst, hs₁, hsecond, hs₂, hloop, pure_eq_ok,
      Except.ok.injEq] at hrun
    exact hrun.symm
  constructor
  · intro x
    rw [← Option.ne_none_iff_exists', ← Option.ne_none_iff_exists', Ne, hnone, not_or, and_comm]
  · intro c n
    rw [hresult]
    show r₃.clients.get? c = some n ↔ _
    rw [hclients]
    exact hleft c n

/-- Every server of the list goes, and with them all clients. -/
theorem removeServers_loses (hr : Sound r) (hfilled : Filled r) {r' : Registry}
    (hrun : r.removeServers = .ok r') : Loses r r' fun _ => True := by
  have hfold : ∀ (ps : List Address) (r r' : Registry), Sound r → Filled r → ps.Nodup →
      (∀ p ∈ ps, ∃ s, r.servers.get? p = some s) →
      ps.foldlM Registry.removeServer r = .ok r' → Loses r r' fun x => x ∈ ps := by
    intro ps
    induction ps with
    | nil =>
      intro r r' hr _ _ _ hrun
      cases hrun
      exact (Loses.refl r).congr fun x => by simp
    | cons p ps ih =>
      intro r r' hr hfilled hnodup hps hrun
      obtain ⟨hnew, hrest⟩ := List.nodup_cons.mp hnodup
      obtain ⟨s, hs⟩ := hps p (List.mem_cons_self ..)
      obtain ⟨r₁, hfirst, hr₁, hfilled₁, -⟩ := removeServer_filled hr hfilled hs
      have hloses := removeServer_loses hr hs hfirst
      rw [List.foldlM_cons, hfirst, ok_bind] at hrun
      have hthere : ∀ x ∈ ps, ∃ s, r₁.servers.get? x = some s := by
        intro x hx
        refine (hloses.servers x).mpr ⟨hps x (List.mem_cons_of_mem _ hx), ?_⟩
        rintro rfl
        exact hnew hx
      refine (hloses.trans (ih r₁ r' hr₁ hfilled₁ hrest hthere hrun)).congr fun x => ?_
      rw [List.mem_cons]
  have hthere : ∀ p ∈ r.servers.objects.map Prod.fst, ∃ s, r.servers.get? p = some s := by
    intro p hp
    obtain ⟨o, ho, rfl⟩ := List.mem_map.mp hp
    exact ⟨o.2, Arena.get?_eq_some_iff.mpr ho⟩
  have hloses := hfold _ r r' hr hfilled r.servers.distinct hthere hrun
  have hlisted : ∀ x s, r.servers.get? x = some s → x ∈ r.servers.objects.map Prod.fst :=
    fun x s hs => List.mem_map.mpr ⟨(x, s), Arena.get?_eq_some_iff.mp hs, rfl⟩
  constructor
  · intro x
    rw [hloses.servers]
    constructor
    · intro ⟨⟨s, hs⟩, hnot⟩
      exact absurd (hlisted x s hs) hnot
    · intro ⟨_, hnot⟩
      exact absurd True.intro hnot
  · intro c n
    rw [hloses.clients]
    constructor
    · intro ⟨hc, hnot⟩
      obtain ⟨s, hs⟩ := hr.attached.served c n hc
      exact absurd (hlisted _ s hs) hnot
    · intro ⟨_, hnot⟩
      exact absurd True.intro hnot

/-- The server at an address knows the host and no other one. -/
def OnlyHost (s : ServerNode) (q : Address) : Prop :=
  ∀ n y, s.hostMap.find? n = some y → y = q

/-- A host that leaves a server takes it along when the server knows no other host. -/
theorem unregisterAt_loses (hr : Sound r) (hs : r.servers.get? p = some s)
    (hh : r.hosts.get? q = some h) (hknows : s.Knows q h) (hspared : Spared r p q)
    {r' : Registry} (hrun : r.unregisterAt q p = .ok r') :
    Loses r r' fun x => x = p ∧ OnlyHost s q := by
  have hsound₁ : Sound (unlinked r p q h) :=
    ⟨hr.linked.unlinked hs hh hknows, unlinked_attached hr.attached hs hh hspared⟩
  have hs₁ : (unlinked r p q h).servers.get? p =
      some (s.unassignHost h.clients h.server_names) := Arena.get?_update_self _ hs
  have hloses₁ : Loses r (unlinked r p q h) fun _ => False := by
    refine Loses.of_same (fun x => ?_) rfl
    by_cases hx : x = p
    · rw [hx]
      exact ⟨fun _ => ⟨s, hs⟩, fun _ => ⟨_, hs₁⟩⟩
    · show (∃ t, (r.servers.update p _).get? x = some t) ↔ _
      rw [Arena.get?_update_ne _ hx]
  have hempty : (s.unassignHost h.clients h.server_names).hostMap.entries = [] ↔
      OnlyHost s q := by
    rw [ServerNode.entries_eq_nil_iff]
    have hfind := unassignHost_find?_iff hr.linked hs hh hknows h.clients
    constructor
    · intro hnone n y hn
      by_contra hy
      exact hnone n y ((hfind n y).mpr ⟨hn, hy⟩)
    · intro honly n y hn
      obtain ⟨hold, hy⟩ := (hfind n y).mp hn
      exact hy (honly n y hold)
  have hserver : ∃ r₂, (unlinked r p q h).removeEmpty p = .ok r₂ ∧
      Loses r r₂ fun x => x = p ∧ OnlyHost s q := by
    unfold Registry.removeEmpty
    simp only [hs₁, deref_some, ok_bind]
    split
    · rename_i hnone
      obtain ⟨r₂, hremove, -⟩ := removeServer_ok hsound₁ hs₁
      refine ⟨r₂, hremove, ?_⟩
      refine (hloses₁.trans (removeServer_loses hsound₁ hs₁ hremove)).congr fun x => ?_
      simp [hempty.mp hnone]
    · rename_i hsome
      refine ⟨_, rfl, hloses₁.congr fun x => ?_⟩
      simp [mt hempty.mpr hsome]
  obtain ⟨r₂, hremove, hloses₂⟩ := hserver
  unfold Registry.unregisterAt at hrun
  rw [unassignHost_ok hr.linked hs hh hknows, ok_bind, hremove, ok_bind] at hrun
  obtain ⟨g, -, hrun⟩ := ran_bind_eq_ok_iff.mp hrun
  split at hrun
  · unfold Registry.shutdownHost at hrun
    obtain ⟨k, -, hrun⟩ := ran_bind_eq_ok_iff.mp hrun
    split at hrun
    · cases hrun
    · cases hrun
      have hall : Loses r { r₂ with hosts := r₂.hosts.free q }
          fun x => (x = p ∧ OnlyHost s q) ∨ False :=
        hloses₂.trans (Loses.of_same (fun _ => Iff.rfl) rfl)
      exact hall.congr fun x => or_iff_left id
  · cases hrun
    exact hloses₂

end Removals

/-- No client is made on the way from one registry to the other. -/
def MakesNone (r r' : Registry) : Prop := r'.clients.next = r.clients.next

section Made

variable {r r' : Registry}

theorem makesNone_foldlM {α : Type} {f : Registry → α → Ran Registry}
    (hf : ∀ r a r', f r a = .ok r' → MakesNone r r') (as : List α)
    (h : as.foldlM f r = .ok r') : MakesNone r r' := by
  induction as generalizing r with
  | nil =>
    cases h
    exact rfl
  | cons a as ih =>
    rw [List.foldlM_cons] at h
    obtain ⟨r₁, hfirst, hrest⟩ := ran_bind_eq_ok_iff.mp h
    exact (ih hrest).trans (hf r a r₁ hfirst)

theorem leaveHost_makesNone {c : Address} {host : Option Address}
    (h : r.leaveHost c host = .ok r') : MakesNone r r' := by
  cases host with
  | none =>
    cases h
    exact rfl
  | some q =>
    obtain ⟨g, -, h⟩ := ran_bind_eq_ok_iff.mp h
    cases h
    exact rfl

theorem terminate_makesNone (r : Registry) (c : Address) (r' : Registry)
    (h : r.terminate c = .ok r') : MakesNone r r' := by
  obtain ⟨n, -, h⟩ := ran_bind_eq_ok_iff.mp h
  obtain ⟨r₁, hleave, h⟩ := ran_bind_eq_ok_iff.mp h
  obtain ⟨s, -, h⟩ := ran_bind_eq_ok_iff.mp h
  cases h
  have hleft : MakesNone r r₁ := leaveHost_makesNone hleave
  exact hleft

theorem setHost_makesNone (r : Registry) {c : Address} (name : Bytes) (r' : Registry)
    (h : r.setHost c name = .ok r') : MakesNone r r' := by
  cases hc : r.clients.get? c with
  | none =>
    unfold Registry.setHost at h
    rw [hc] at h
    cases h
  | some n =>
    rcases setHost_cases hc h with ⟨q, g, -, -, -, rfl⟩ | ⟨r₁, t, q, hleave, -, -, rfl⟩
    · exact rfl
    · have hleft : MakesNone r r₁ := leaveHost_makesNone hleave
      exact hleft

theorem unassignHost_makesNone {p q : Address} (h : r.unassignHost p q = .ok r') :
    MakesNone r r' := by
  obtain ⟨s, -, h⟩ := ran_bind_eq_ok_iff.mp h
  obtain ⟨k, -, h⟩ := ran_bind_eq_ok_iff.mp h
  split at h
  · cases h
  · split at h
    · cases h
      exact rfl
    · obtain ⟨m, -, h⟩ := ran_bind_eq_ok_iff.mp h
      cases h
      exact rfl

theorem removeServer_makesNone (r : Registry) (p : Address) (r' : Registry)
    (h : r.removeServer p = .ok r') : MakesNone r r' := by
  obtain ⟨s, -, h⟩ := ran_bind_eq_ok_iff.mp h
  obtain ⟨r₁, hfirst, h⟩ := ran_bind_eq_ok_iff.mp h
  obtain ⟨s₁, -, h⟩ := ran_bind_eq_ok_iff.mp h
  obtain ⟨r₂, hsecond, h⟩ := ran_bind_eq_ok_iff.mp h
  obtain ⟨s₂, -, h⟩ := ran_bind_eq_ok_iff.mp h
  obtain ⟨r₃, hloop, h⟩ := ran_bind_eq_ok_iff.mp h
  cases h
  have hentry : ∀ r e r', Registry.unassignEntry p r e = .ok r' → MakesNone r r' := by
    intro r e r' h
    obtain ⟨t, -, h⟩ := ran_bind_eq_ok_iff.mp h
    split at h
    · exact unassignHost_makesNone h
    · cases h
  have hunassigned : MakesNone r₂ r₃ := makesNone_foldlM hentry _ hloop
  exact hunassigned.trans ((makesNone_foldlM terminate_makesNone _ hsecond).trans
    (makesNone_foldlM terminate_makesNone _ hfirst))

theorem unregisterAt_makesNone {p q : Address} (h : r.unregisterAt q p = .ok r') :
    MakesNone r r' := by
  obtain ⟨r₁, hunassign, h⟩ := ran_bind_eq_ok_iff.mp h
  obtain ⟨r₂, hempty, h⟩ := ran_bind_eq_ok_iff.mp h
  obtain ⟨k, -, h⟩ := ran_bind_eq_ok_iff.mp h
  have hfirst : MakesNone r r₁ := unassignHost_makesNone hunassign
  have hsecond : MakesNone r₁ r₂ := by
    obtain ⟨s, -, hempty⟩ := ran_bind_eq_ok_iff.mp hempty
    split at hempty
    · exact removeServer_makesNone _ _ _ hempty
    · cases hempty
      exact rfl
  split at h
  · obtain ⟨g, -, h⟩ := ran_bind_eq_ok_iff.mp h
    split at h
    · cases h
    · cases h
      exact hsecond.trans hfirst
  · cases h
    exact hsecond.trans hfirst

end Made

/-- The servers a command takes away. -/
def Command.Removes (r : Registry) : Command → Address → Prop
  | .removeServers, _ => True
  | .removeServer ip port, x => r.findServer ip port = some x
  | .removeHost ip port name, x => r.findServer ip port = some x ∧
    ∃ s q, r.servers.get? x = some s ∧ s.hostMap.find? name = some q ∧ OnlyHost s q
  | _, _ => False

/-- The commands that can be typed at the prompt. -/
def Command.Kills : Command → Prop
  | .removeServers | .removeServer _ _ | .removeHost _ _ _ => True
  | _ => False

/-- A command that kills takes away the servers it removes with their clients. -/
theorem kill_loses {default_error_pages : Bytes} {r r' : Registry} {cmd : Command} (hr : Sound r)
    (hfilled : Filled r) (hspares : Spares r cmd) (hkills : cmd.Kills)
    (hrun : step default_error_pages r cmd = .ok r') : Loses r r' (cmd.Removes r) := by
  cases cmd with
  | removeServers => exact removeServers_loses hr hfilled hrun
  | removeServer ip port =>
    simp only [step] at hrun
    cases hfind : r.findServer ip port with
    | none =>
      rw [hfind] at hrun
      cases hrun
      exact (Loses.refl r).congr fun x => by simp [Command.Removes, hfind]
    | some p =>
      rw [hfind] at hrun
      obtain ⟨s, hs, -⟩ := findServer_some hfind
      refine (removeServer_loses hr hs hrun).congr fun x => ?_
      simp [Command.Removes, hfind, eq_comm]
  | removeHost ip port name =>
    simp only [step] at hrun
    cases hfind : r.findServer ip port with
    | none =>
      rw [hfind] at hrun
      cases hrun
      exact (Loses.refl r).congr fun x => by simp [Command.Removes, hfind]
    | some p =>
      rw [hfind] at hrun
      obtain ⟨s, hs, -⟩ := findServer_some hfind
      obtain ⟨out, hremove, hout⟩ := ran_bind_eq_ok_iff.mp hrun
      cases hout
      unfold Registry.removeHost at hremove
      rw [hs, deref_some, ok_bind] at hremove
      cases hname : s.hostMap.find? name with
      | none =>
        rw [hname] at hremove
        cases hremove
        refine (Loses.refl r).congr fun x => ?_
        simp only [Command.Removes, hfind, Option.some.injEq, false_iff, not_and]
        rintro rfl ⟨t, q, ht, hq, -⟩
        rw [hs, Option.some.injEq] at ht
        rw [← ht, hname] at hq
        cases hq
      | some q =>
        rw [hname] at hremove
        obtain ⟨r₁, hunregister, hdone⟩ := ran_bind_eq_ok_iff.mp hremove
        cases hdone
        obtain ⟨h, hh, -, haddr, -⟩ := hr.linked.mapped p s name q hs hname
        obtain ⟨g, hg, -, hknows⟩ := knows_of_find? hr.linked hs hname
        rw [hh, Option.some.injEq] at hg
        subst hg
        have hserver : r.findServer h.addr s.port = some p := by
          rw [haddr]
          exact findServer_of_get? hr.linked hs
        simp only [Registry.unregisterHost, hh, deref_some, ok_bind, hserver] at hunregister
        have hloses := unregisterAt_loses hr hs hh hknows (hspares p s q hfind hs hname)
          hunregister
        refine hloses.congr fun x => ?_
        simp only [Command.Removes, hfind, Option.some.injEq]
        constructor
        · rintro ⟨rfl, honly⟩
          exact ⟨rfl, s, q, hs, hname, honly⟩
        · rintro ⟨rfl, t, y, ht, hy, honly⟩
          rw [hs, Option.some.injEq] at ht
          subst ht
          rw [hname, Option.some.injEq] at hy
          exact ⟨rfl, hy ▸ honly⟩
  | addHost config opens => exact hkills.elim
  | accept ip port accepts => exact hkills.elim
  | setHost client name => exact hkills.elim
  | terminate client => exact hkills.elim

theorem kill_makesNone {default_error_pages : Bytes} {r r' : Registry} {cmd : Command}
    (hkills : cmd.Kills) (hrun : step default_error_pages r cmd = .ok r') : MakesNone r r' := by
  cases cmd with
  | removeServers => exact makesNone_foldlM removeServer_makesNone _ hrun
  | removeServer ip port =>
    simp only [step] at hrun
    split at hrun
    · cases hrun
      exact rfl
    · exact removeServer_makesNone _ _ _ hrun
  | removeHost ip port name =>
    simp only [step] at hrun
    split at hrun
    · cases hrun
      exact rfl
    · obtain ⟨out, hremove, hout⟩ := ran_bind_eq_ok_iff.mp hrun
      cases hout
      obtain ⟨s, -, hremove⟩ := ran_bind_eq_ok_iff.mp hremove
      split at hremove
      · cases hremove
        exact rfl
      · obtain ⟨r₁, hunregister, hdone⟩ := ran_bind_eq_ok_iff.mp hremove
        cases hdone
        obtain ⟨k, -, hunregister⟩ := ran_bind_eq_ok_iff.mp hunregister
        split at hunregister
        · cases hunregister
          exact rfl
        · exact unregisterAt_makesNone hunregister
  | addHost config opens => exact hkills.elim
  | accept ip port accepts => exact hkills.elim
  | setHost client name => exact hkills.elim
  | terminate client => exact hkills.elim

end Webserveau.Registries
