import Webserveau.DefaultHosts
import Webserveau.UniqueIterators

/-!
The loop that takes all hosts off a server.
The iterator goes on before a host is unassigned, and the names of the host are then erased
from the map behind it. The loop never stands at a name that is gone, and does what a walk
over the first names of all hosts does.
-/
namespace Webserveau.Registries

open ByteStrings OrderedMaps Formats Requests Arenas UniqueIterators

/-- The loop over the hosts of a server, if the rounds it may take are enough. -/
def Registry.unassignHosts (server : Address) :
    ℕ → Registry → UniqueValuesMapIterator Bytes Address → Option (Ran Registry)
  | 0, _, _ => none
  | rounds + 1, r, hostIt =>
    match r.servers.get? server with
    | none => some (.error .dangling)
    | some s =>
      if hostIt.baseIt.isNone then some (.ok r)
      else
        match hostIt.safePostIncrement s.hostMap with
        | none => some (.error .invalidated)
        | some (tmp, hostIt) =>
          match tmp.deref s.hostMap with
          | none => some (.error .invalidated)
          | some e =>
            match r.unassignHost server e.2 with
            | .error fault => some (.error fault)
            | .ok r => unassignHosts server rounds r hostIt

section Loop

variable {r : Registry} {p : Address} {s : ServerNode} {seen : List Address}
  {hostIt : UniqueValuesMapIterator Bytes Address}

theorem unassignEntry_eq_ok {e : Bytes × Address} {r' : Registry}
    (h : r.unassignEntry p e = .ok r') : r.unassignHost p e.2 = .ok r' := by
  unfold Registry.unassignEntry at h
  obtain ⟨s, -, hentry⟩ := ran_bind_eq_ok_iff.mp h
  split at hentry
  · exact hentry
  · cases hentry

/-- One round takes one host off the server and leaves the iterator at a name of another. -/
theorem unassignHosts_round (hr : Sound r) (hs : r.servers.get? p = some s)
    (hspared : ∀ q, Spared r p q) (hplaced : Placed hostIt s.hostMap seen)
    {e : Bytes × Address} {rest : List (Bytes × Address)}
    (hfirst : unseen seen s.hostMap.entries = e :: rest) :
    ∃ r' s' hostIt', hostIt.deref s.hostMap = some e ∧
      hostIt.safePostIncrement s.hostMap = some (hostIt, hostIt') ∧
      r.unassignEntry p e = .ok r' ∧ Sound r' ∧ r'.servers.get? p = some s' ∧
      (∀ q, Spared r' p q) ∧ Placed hostIt' s'.hostMap (e.2 :: seen) ∧
      s'.hostMap = eraseValue s.hostMap e.2 := by
  have hmem : e ∈ s.hostMap.entries := by
    have he : e ∈ unseen seen s.hostMap.entries := by
      rw [hfirst]
      exact List.mem_cons_self ..
    exact (mem_unseen.mp he).1
  obtain ⟨hderef, hostIt', hstep, hnext⟩ := hplaced.safePostIncrement hfirst
  obtain ⟨r', s', hrun, hr', -, hclients, hs', -, -, hfind⟩ :=
    unassignEntry_ok hr hs e (OrderedMap.find?_of_mem s.hostMap hmem) (hspared e.2)
  have herased : s'.hostMap = eraseValue s.hostMap e.2 := by
    have hentries : s'.hostMap.entries = (eraseValue s.hostMap e.2).entries := by
      apply entries_ext s'.hostMap.sorted (eraseValue s.hostMap e.2).sorted
      intro d
      have hold : d ∈ s.hostMap.entries ↔ s.hostMap.find? d.1 = some d.2 :=
        ⟨OrderedMap.find?_of_mem s.hostMap, entry_of_find?⟩
      have hnew : d ∈ s'.hostMap.entries ↔ s'.hostMap.find? d.1 = some d.2 :=
        ⟨OrderedMap.find?_of_mem s'.hostMap, entry_of_find?⟩
      rw [hnew, hfind, ← hold]
      simp [eraseValue]
    cases hmap : s'.hostMap with
    | mk entries sorted =>
      rw [hmap] at hentries
      change entries = _ at hentries
      subst hentries
      rfl
  have hsame : unseen [e.2] s'.hostMap.entries = unseen [e.2] s.hostMap.entries := by
    rw [herased]
    simp [unseen, eraseValue]
  refine ⟨r', s', hostIt', hderef, hstep, hrun, hr', hs', ?_, hnext.body hsame, herased⟩
  intro q c n hc
  rw [hclients] at hc
  exact hspared q c n hc

/-- The loop unassigns the hosts of the first names, in their order, and ends. -/
theorem unassignHosts_eq (rounds : ℕ) (hr : Sound r) (hs : r.servers.get? p = some s)
    (hspared : ∀ q, Spared r p q) (hplaced : Placed hostIt s.hostMap seen)
    (hrounds : (unseen seen s.hostMap.entries).length < rounds) :
    ∃ r' s', r.unassignHosts p rounds hostIt = some (.ok r') ∧
      (firsts seen s.hostMap.entries).foldlM (Registry.unassignEntry p) r = .ok r' ∧
      r'.servers.get? p = some s' ∧
      s'.hostMap = ((firsts seen s.hostMap.entries).map Prod.snd).foldl eraseValue s.hostMap := by
  induction rounds generalizing r s hostIt seen with
  | zero => omega
  | succ rounds ih =>
    unfold Registry.unassignHosts
    simp only [hs]
    cases hfirst : unseen seen s.hostMap.entries with
    | nil =>
      have hend : hostIt.baseIt = none := by
        rw [hplaced.baseIt, hfirst, List.head?_nil, Option.map_none]
      rw [firsts_of_nil hfirst, hend]
      exact ⟨r, s, rfl, rfl, hs, rfl⟩
    | cons e rest =>
      have hplace : hostIt.baseIt = some e.1 := by rw [hplaced.baseIt, hfirst]; rfl
      obtain ⟨r₁, s₁, hostIt₁, hderef, hstep, hrun, hr₁, hs₁, hspared₁, hplaced₁, herased⟩ :=
        unassignHosts_round hr hs hspared hplaced hfirst
      have hsame : unseen [e.2] s₁.hostMap.entries = unseen [e.2] s.hostMap.entries := by
        rw [herased]
        simp [unseen, eraseValue]
      obtain ⟨hfirsts, hlength⟩ := firsts_of_cons hfirst hsame
      have henough : (unseen (e.2 :: seen) s₁.hostMap.entries).length < rounds := by
        rw [hfirst, List.length_cons] at hrounds
        omega
      obtain ⟨r₂, s₂, hloop, hfold, hs₂, hmap⟩ := ih hr₁ hs₁ hspared₁ hplaced₁ henough
      refine ⟨r₂, s₂, ?_, ?_, hs₂, ?_⟩
      · rw [hplace, hstep]
        simp only [Option.isNone_some, Bool.false_eq_true, if_false, hderef,
          unassignEntry_eq_ok hrun]
        exact hloop
      · rw [hfirsts, List.foldlM_cons, hrun, ok_bind, hfold]
      · rw [hmap, hfirsts, List.map_cons, List.foldl_cons, herased]

end Loop

/-- The clients of a server are terminated, then the loop over its hosts runs. -/
def Registry.removeServerIn (rounds : ℕ) (r : Registry) (server : Address) :
    Option (Ran Registry) :=
  let terminated : Ran (Registry × ServerNode) := do
    let s ← deref (r.servers.get? server)
    let r ← r.terminateAll s.orphanClients
    let s ← deref (r.servers.get? server)
    let r ← r.terminateAll s.connectedClients
    let s ← deref (r.servers.get? server)
    return (r, s)
  match terminated with
  | .error fault => some (.error fault)
  | .ok (r, s) =>
    (r.unassignHosts server rounds (.start s.hostMap)).map fun ran =>
      ran.map fun r => { r with servers := r.servers.free server }

/-- What a list of visited entries has to be: each value once, at its smallest key. -/
structure VisitsOnce (m : OrderedMap Bytes Address byteLess) (visited : List (Bytes × Address)) :
    Prop where
  once : (visited.map Prod.snd).Nodup
  all : ∀ q, q ∈ visited.map Prod.snd ↔ q ∈ m.entries.map Prod.snd
  least : ∀ e ∈ visited, e ∈ m.entries ∧
    ∀ d ∈ m.entries, d.2 = e.2 → d = e ∨ byteLess e.1 d.1 = true

theorem visitsOnce_firsts (m : OrderedMap Bytes Address byteLess) :
    VisitsOnce m (firsts [] m.entries) := by
  obtain ⟨honce, hall⟩ := firsts_values [] m.entries
  refine ⟨honce, ?_, ?_⟩
  · intro q
    rw [hall]
    exact and_iff_right List.not_mem_nil
  · intro e he
    exact ⟨firsts_subset [] m.entries e he, firsts_least [] m.entries m.sorted e he⟩

/-- The loop in its rounds removes a server as the walk over the first names does. -/
theorem removeServerIn_eq {r : Registry} {p : Address} {s : ServerNode} (hr : Sound r)
    (hs : r.servers.get? p = some s) {rounds : ℕ} (hrounds : s.hostMap.entries.length < rounds) :
    r.removeServerIn rounds p = some (r.removeServer p) := by
  obtain ⟨r₁, s₁, r₂, s₂, hfirst, hs₁, hsecond, hs₂, hr₂, -, hmap, hgone⟩ :=
    terminateClients_ok hr hs
  obtain ⟨r₃, s₃, hloop, hfold, -, -⟩ := unassignHosts_eq rounds hr₂ hs₂
    (fun q c n hc hboth => hgone c n hc hboth.1) (placed_start s₂.hostMap)
    (by simpa [unseen, hmap] using hrounds)
  rw [← uniqueValues_eq] at hfold
  unfold Registry.removeServerIn Registry.removeServer
  simp only [hs, deref_some, ok_bind, hfirst, hs₁, hsecond, hs₂, pure_eq_ok, hfold, hloop]
  rfl

/-- The iterator visits each host once, at its first name, also while the names of the hosts
it has passed are erased, and then no name is left; the loop of `removeServer` does so. -/
theorem unique_values_visited (m : OrderedMap Bytes Address byteLess) :
    ∃ visited, VisitsOnce m visited ∧ ∀ rounds, m.entries.length < rounds →
      iterate (fun m _ => m) rounds m (.start m) [] = .done (m, visited) ∧
      iterate eraseValue rounds m (.start m) [] = .done (OrderedMap.empty, visited) ∧
      ∀ r p s, Sound r → (∀ q, Spared r p q) → r.servers.get? p = some s → s.hostMap = m →
        ∃ r' s', r.unassignHosts p rounds (.start m) = some (.ok r') ∧
          visited.foldlM (Registry.unassignEntry p) r = .ok r' ∧
          r'.servers.get? p = some s' ∧ s'.hostMap = OrderedMap.empty := by
  refine ⟨firsts [] m.entries, visitsOnce_firsts m, ?_⟩
  intro rounds hrounds
  refine ⟨iterate_alone rounds hrounds, iterate_eraseValue rounds hrounds, ?_⟩
  rintro r p s hr hspared hs rfl
  obtain ⟨r', s', hloop, hfold, hs', hmap⟩ := unassignHosts_eq rounds hr hs hspared
    (placed_start s.hostMap) (by simpa [unseen] using hrounds)
  refine ⟨r', s', hloop, hfold, hs', ?_⟩
  rw [hmap, foldl_eraseValue_firsts]

end Webserveau.Registries
