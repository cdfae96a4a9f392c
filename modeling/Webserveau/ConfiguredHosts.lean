import Webserveau.ErrorContainment
import Webserveau.StartedServers
import Webserveau.DefaultHosts

/-!
What a configuration file can make of the server.
Whatever a file says and wherever its reading stops, each host that is registered has an
address, numeric ports, names and a default location, and all its locations and cgi
configurations are complete. The registry is built from these hosts in their order, with
pointers that agree. A computation of the parser is known here by the values that it gives.
-/
namespace Webserveau.ConfiguredHosts

open ByteStrings OrderedMaps Formats Requests Registries ConfigWords ConfigBlocks ConfigParser
  ConfigParser.ParseM ConfigReadings HostBlocks ErrorContainment

/-- The name of a directory, with the slash that what lies in it is put behind. -/
def Directory (path : Bytes) : Prop := path.getLast? = some 47

/-- A location that requests can be sent to. -/
structure CompleteLocation (location : Location) : Prop where
  root : Directory location.root
  upload_root : location.upload_root = [] ∨ Directory location.upload_root

structure CompleteCGI (cgi : CGIConfig) : Prop where
  root : Directory cgi.root
  extension : cgi.extension ≠ []

/-- What holds of a host from the beginning of its block to the end. -/
structure Shaped (config : HostConfig) : Prop where
  ports : ∀ port ∈ config.ports, (getInt port 10 0).1 = 0
  locations : ∀ e ∈ config.host.locationMap.entries, CompleteLocation e.2
  cgis : ∀ e ∈ config.host.cgiMap.entries, CompleteCGI e.2

/-- A host that has passed its checks. -/
structure Configured (config : HostConfig) : Prop extends Shaped config where
  addr : config.addr ≠ []
  listens : config.ports ≠ []
  named : config.host.server_names ≠ []
  default : config.host.locationMap.find? (ascii "*") ≠ none

/-- A computation gives no other values than such ones. -/
def Yields {α : Type} (m : ParseM α) (P : α → Prop) : Prop :=
  ∀ g a, (m g).result = .ok a → P a

section Yields

variable {α β : Type} {m : ParseM α} {f : α → ParseM β} {P : α → Prop} {Q : β → Prop}

theorem yields_pure {a : α} (h : P a) : Yields (pure a) P := by
  intro g b hb
  cases hb
  exact h

theorem yields_throw (e : ConfigException) : Yields (α := α) (throw e) P := nofun

theorem yields_any (m : ParseM α) : Yields m fun _ => True := fun _ _ _ => True.intro

theorem Yields.bind (hm : Yields m P) (hf : ∀ a, P a → Yields (f a) Q) : Yields (m >>= f) Q := by
  intro g b hb
  cases hresult : (m g).result with
  | error e =>
    rw [bind_of_error hresult] at hb
    cases hb
  | ok a =>
    rw [bind_of_ok hresult] at hb
    exact hf a (hm g a hresult) (m g).globals b hb

/-- Whatever the first part gives will do. -/
theorem yields_after (hf : ∀ a, Yields (f a) Q) : Yields (m >>= f) Q :=
  (yields_any m).bind fun a _ => hf a

/-- A block that fails leaves what was there. -/
theorem Yields.contain {c : α} (hm : Yields m P) (hc : P c) : Yields (contain c m) P := by
  intro g a ha
  unfold ConfigParser.contain at ha
  by_cases hexception : ∃ e, (m g).result = .error (.exception e)
  · obtain ⟨e, he⟩ := hexception
    rw [tryCatch_of_exception he] at ha
    dsimp only at ha
    split at ha
    · cases ha
    · cases ha
      exact hc
  · rw [tryCatch_of_other fun e he => hexception ⟨e, he⟩] at ha
    exact hm g a ha

theorem Yields.directives {handler : α → Bytes → IStream → ParseM (α × IStream)}
    (hhandler : ∀ obj token s, P obj → Yields (handler obj token s) fun out => P out.1)
    (fuel : ℕ) {obj : α} (hobj : P obj) (s : IStream) :
    Yields (parseBlock handler fuel obj s) fun out => P out.1 := by
  induction fuel generalizing obj s with
  | zero => exact nofun
  | succ fuel ih =>
    unfold parseBlock
    refine yields_after ?_
    rintro ⟨ret, token, t⟩
    dsimp only
    split
    · refine (hhandler obj token t hobj).bind ?_
      rintro ⟨obj', t⟩ hobj'
      refine yields_after ?_
      rintro ⟨found, t⟩
      dsimp only
      split
      · exact ih hobj' t
      · exact yields_throw _
    · split
      · exact yields_pure hobj
      · exact yields_throw _

end Yields

section Fields

variable {α : Type} {dest : Bytes} {id : Option String} {s : IStream}

theorem endPath_directory (path : Bytes) :
    endPath (some 47) path = [] ∨ Directory (endPath (some 47) path) := by
  show (if path ≠ [] ∧ path.getLast? ≠ some 47 then path ++ [47] else path) = [] ∨
    (if path ≠ [] ∧ path.getLast? ≠ some 47 then path ++ [47] else path).getLast? = some 47
  split
  · exact Or.inr List.getLast?_concat
  · rename_i hended
    by_cases hpath : path = []
    · exact Or.inl hpath
    · exact Or.inr (by_contra fun hlast => hended ⟨hpath, hlast⟩)

theorem yields_path (dest : Bytes) (id : Option String) (s : IStream) :
    Yields (parsePath dest id (some 47) s) fun out => out.1 = [] ∨ Directory out.1 := by
  refine yields_after ?_
  rintro ⟨path, t⟩
  exact yields_pure (endPath_directory path)

/-- The paths of a location so far. -/
structure LocationPaths (location : Location) : Prop where
  root : location.root = [] ∨ Directory location.root
  upload_root : location.upload_root = [] ∨ Directory location.upload_root

theorem yields_redirection {location : Location} (h : LocationPaths location) (s : IStream) :
    Yields (parseRedirection location s) fun out => LocationPaths out.1 := by
  refine yields_after ?_
  rintro ⟨values, t⟩
  dsimp only
  split
  · split
    · exact yields_throw _
    · split
      · exact yields_pure ⟨h.root, h.upload_root⟩
      · exact yields_throw _
  · exact yields_throw _

theorem yields_locationToken {location : Location} (h : LocationPaths location) (token : Bytes)
    (s : IStream) :
    Yields (handleLocationToken location token s) fun out => LocationPaths out.1 := by
  have hkept : ∀ {β : Type} (m : ParseM (β × IStream)) (set : β → Location),
      (∀ b, LocationPaths (set b)) →
        Yields (m >>= fun p => pure (set p.1, p.2)) fun out => LocationPaths out.1 :=
    fun m set hset => yields_after fun p => yields_pure (hset p.1)
  unfold handleLocationToken
  split
  · exact (yields_path _ _ s).bind fun p hp => yields_pure ⟨hp, h.upload_root⟩
  split
  · exact hkept _ (fun methods => { location with methods := methods })
      fun _ => ⟨h.root, h.upload_root⟩
  split
  · exact hkept _ (fun dir_listing => { location with dir_listing := dir_listing })
      fun _ => ⟨h.root, h.upload_root⟩
  split
  · exact hkept _ (fun upload => { location with upload := upload })
      fun _ => ⟨h.root, h.upload_root⟩
  split
  · exact hkept _ (fun default_uri => { location with default_uri := default_uri })
      fun _ => ⟨h.root, h.upload_root⟩
  split
  · exact (yields_path _ _ s).bind fun p hp => yields_pure ⟨h.root, hp⟩
  split
  · exact yields_redirection h s
  · exact yields_throw _

theorem yields_cgiToken {cgi : CGIConfig} (h : cgi.root = [] ∨ Directory cgi.root) (token : Bytes)
    (s : IStream) :
    Yields (handleCGIConfigToken cgi token s) fun out =>
      out.1.root = [] ∨ Directory out.1.root := by
  unfold handleCGIConfigToken
  split
  · exact (yields_path _ _ s).bind fun p hp => yields_pure hp
  split
  · exact yields_after fun p => yields_pure h
  split
  · exact yields_after fun p => yields_pure h
  split
  · exact yields_after fun p => yields_pure h
  · exact yields_throw _

theorem yields_checkLocation {location : Location} (h : LocationPaths location) :
    Yields (checkLocation location) fun _ => CompleteLocation location := by
  unfold checkLocation
  split
  · exact yields_throw _
  · rename_i hroot
    exact yields_pure ⟨h.root.resolve_left hroot, h.upload_root⟩

theorem yields_checkCGI {cgi : CGIConfig} (h : cgi.root = [] ∨ Directory cgi.root) :
    Yields (checkCGIConfig cgi) fun _ => CompleteCGI cgi := by
  unfold checkCGIConfig
  split
  · exact yields_throw _
  · rename_i hroot
    split
    · exact yields_throw _
    · rename_i hextension
      exact yields_pure ⟨h.resolve_left hroot, hextension⟩

end Fields

section Blocks

variable {config : HostConfig}

theorem addRules_entries {ν : Type} {P : ν → Prop} {value : ν} (hvalue : P value)
    (names : List Bytes) {map : OrderedMap Bytes ν byteLess} (h : ∀ e ∈ map.entries, P e.2) :
    ∀ e ∈ (names.foldl (fun map name => map.insert name value) map).entries, P e.2 := by
  induction names generalizing map with
  | nil => exact h
  | cons name names ih =>
    refine ih ?_
    intro e he
    rcases OrderedMap.mem_insertEntry he with hold | ⟨hnew, -⟩
    · exact h e hold
    · rw [hnew]
      exact hvalue

theorem yields_location (h : Shaped config) (bound : ℕ) (s : IStream) :
    Yields (parseLocation bound config s) fun out => Shaped out.1 := by
  refine yields_after ?_
  rintro ⟨names, s⟩
  refine yields_after ?_
  rintro ⟨block, t⟩
  refine Yields.bind (P := Shaped) (Yields.contain ?_ h) fun config' h' => yields_pure h'
  refine (Yields.directives (P := LocationPaths)
    (fun _ token s hobj => yields_locationToken hobj token s) bound
    ⟨Or.inl rfl, Or.inl rfl⟩ block).bind ?_
  rintro ⟨location, _⟩ hpaths
  refine (yields_checkLocation hpaths).bind ?_
  intro _ hcomplete
  exact yields_pure ⟨h.ports, addRules_entries hcomplete names h.locations, h.cgis⟩

theorem yields_cgi (h : Shaped config) (bound : ℕ) (s : IStream) :
    Yields (parseCGIConfig bound config s) fun out => Shaped out.1 := by
  refine yields_after ?_
  rintro ⟨names, s⟩
  refine yields_after ?_
  rintro ⟨block, t⟩
  refine Yields.bind (P := Shaped) (Yields.contain ?_ h) fun config' h' => yields_pure h'
  refine (Yields.directives (P := fun cgi => cgi.root = [] ∨ Directory cgi.root)
    (fun _ token s hobj => yields_cgiToken hobj token s) bound (Or.inl rfl) block).bind ?_
  rintro ⟨cgi, _⟩ hroot
  refine (yields_checkCGI hroot).bind ?_
  intro _ hcomplete
  exact yields_pure ⟨h.ports, h.locations, addRules_entries hcomplete names h.cgis⟩

theorem yields_addPorts (h : Shaped config) (ports : List Bytes) :
    Yields (addPorts config ports) Shaped := by
  induction ports generalizing config with
  | nil => exact yields_pure h
  | cons port ports ih =>
    unfold addPorts
    split
    · exact yields_throw _
    · rename_i hport
      refine ih ⟨?_, h.locations, h.cgis⟩
      intro p hp
      rcases mem_insertPort hp with rfl | hold
      · exact not_not.mp hport
      · exact h.ports p hold

theorem yields_ports (h : Shaped config) (s : IStream) :
    Yields (parsePorts config s) fun out => Shaped out.1 := by
  refine yields_after ?_
  rintro ⟨ports, s⟩
  dsimp only
  split
  · exact yields_throw _
  · exact (yields_addPorts h ports).bind fun _ h' => yields_pure h'

theorem yields_hostToken (bound : ℕ) (h : Shaped config) (token : Bytes) (s : IStream) :
    Yields (handleHostToken bound config token s) fun out => Shaped out.1 := by
  unfold handleHostToken
  split
  · exact yields_ports h s
  split
  · exact yields_after fun p => yields_pure ⟨h.ports, h.locations, h.cgis⟩
  split
  · refine yields_after fun p => ?_
    dsimp only
    split
    · exact yields_throw _
    · exact yields_pure ⟨h.ports, h.locations, h.cgis⟩
  split
  · exact yields_after fun p => yields_pure ⟨h.ports, h.locations, h.cgis⟩
  split
  · refine yields_after fun p => ?_
    dsimp only
    split
    · exact yields_throw _
    · exact yields_pure ⟨h.ports, h.locations, h.cgis⟩
  split
  · exact yields_location h bound s
  split
  · exact yields_cgi h bound s
  · exact yields_throw _

theorem yields_readBlock (bound : ℕ) (block : IStream) :
    Yields (readBlock bound block) fun out => Shaped out.1 := by
  have hnew : Shaped newHost := by
    refine ⟨?_, ?_, ?_⟩
    · intro port hport
      cases hport
    · intro e he
      cases he
    · intro e he
      cases he
  exact Yields.directives (P := Shaped) (fun _ token s h => yields_hostToken bound h token s) bound
    hnew block

theorem Shaped.withErrorPages (h : Shaped config) (default_error_pages : Bytes) :
    Shaped (Registry.withErrorPages default_error_pages config) := by
  unfold Registry.withErrorPages
  split
  · exact ⟨h.ports, h.locations, h.cgis⟩
  · exact h

/-- The checks let through what is complete, and give it error pages. -/
theorem Shaped.checked {r : Registry} {default_error_pages : Bytes} {config' : HostConfig}
    (h : Shaped config) (hcheck : r.checkHost default_error_pages config = .ok config') :
    Configured config' := by
  obtain ⟨-, haddr, hports⟩ := withErrorPages_names default_error_pages config
  have hnamed := (checkHost_ok hcheck).1
  have hvalue := checkHost_value hcheck
  subst hvalue
  unfold Registry.checkHost at hcheck
  split at hcheck
  · cases hcheck
  · rename_i hne
    split at hcheck
    · cases hcheck
    · rename_i hlistens
      dsimp only at hcheck
      rw [if_neg hnamed] at hcheck
      split at hcheck
      · cases hcheck
      · rename_i hdefault
        refine ⟨h.withErrorPages default_error_pages, haddr ▸ hne, hports ▸ hlistens, hnamed, ?_⟩
        exact fun hnone => hdefault (Option.isNone_iff_eq_none.mpr hnone)

end Blocks

/-- A registry that hosts have been added to, one after another. -/
structure Assembled (opens : Bytes → Bytes → Bool) (hosts : List HostConfig) (r : Registry) :
    Prop where
  built : r = Registry.built (hosts.map fun host => (host, opens host.addr))
  configured : ∀ host ∈ hosts, Configured host
  serving : Serving r
  unvisited : ∀ c, r.clients.get? c = none

/-- A computation leaves the registry as it is, or adds hosts to it. -/
def Assembles (opens : Bytes → Bytes → Bool) {α : Type} (m : ParseM α) : Prop :=
  ∀ g, (∃ hosts, Assembled opens hosts g.registry) →
    ∃ hosts, Assembled opens hosts (m g).globals.registry

section Assembly

variable {opens : Bytes → Bytes → Bool} {α β : Type} {m : ParseM α} {f : α → ParseM β}

theorem Local.assembles (h : Local m) : Assembles opens m := by
  intro g hg
  rw [h g]
  exact hg

theorem Assembles.bind (hm : Assembles opens m) (hf : ∀ a, Assembles opens (f a)) :
    Assembles opens (m >>= f) := by
  intro g hg
  cases hresult : (m g).result with
  | error e =>
    rw [bind_of_error hresult]
    exact hm g hg
  | ok a =>
    rw [bind_of_ok hresult]
    exact hf a _ (hm g hg)

theorem Assembles.tryCatch {handler : ConfigException → ParseM α} (hm : Assembles opens m)
    (hhandler : ∀ e, Assembles opens (handler e)) : Assembles opens (tryCatch m handler) := by
  intro g hg
  by_cases hexception : ∃ e, (m g).result = .error (.exception e)
  · obtain ⟨e, he⟩ := hexception
    rw [tryCatch_of_exception he]
    exact hhandler e _ (hm g hg)
  · rw [tryCatch_of_other fun e he => hexception ⟨e, he⟩]
    exact hm g hg

theorem Assembled.empty (opens : Bytes → Bytes → Bool) : Assembled opens [] .empty where
  built := rfl
  configured := nofun
  serving := serving_empty
  unvisited := fun _ => rfl

/-- A host that passes the checks is one more. -/
theorem Assembled.addHost {hosts : List HostConfig} {r : Registry} {default_error_pages : Bytes}
    {config config' : HostConfig} (h : Assembled opens hosts r) (hshaped : Shaped config)
    (hcheck : r.checkHost default_error_pages config = .ok config') :
    Assembled opens (hosts ++ [config']) (r.addHost config' (opens config'.addr)).2 where
  built := by
    rw [List.map_append, Registry.built, List.foldl_append]
    show _ = (Registry.addHost (Registry.built _) config' (opens config'.addr)).2
    rw [← h.built]
  configured := by
    intro host hhost
    rcases List.mem_append.mp hhost with hold | hnew
    · exact h.configured host hold
    · rw [List.mem_singleton.mp hnew]
      exact hshaped.checked hcheck
  serving := by
    obtain ⟨r', hstep, hserving⟩ :=
      h.serving.addHost default_error_pages (config, opens config'.addr)
    simp only [Registries.step, hcheck] at hstep
    cases hstep
    exact hserving
  unvisited := by
    obtain ⟨hnamed, hnames⟩ := checkHost_ok hcheck
    obtain ⟨-, -, hclients⟩ :=
      addHost_ok h.serving.sound h.serving.filled config' (opens config'.addr) hnamed hnames
    rw [hclients]
    exact h.unvisited

/-- A host that is shaped is added when it passes the checks. -/
theorem assembles_addChecked {config : HostConfig} (hshaped : Shaped config) :
    Assembles opens (checkHost config >>= fun config => ConfigParser.addHost opens config) := by
  intro g hg
  have hchecked := checkHost_eq (g := g) config
  cases hcheck : g.registry.checkHost g.default_error_pages config with
  | error e =>
    obtain ⟨x, hrefused⟩ : ∃ x, checkHost config g =
        { result := .error (.exception x), globals := g } := by
      rw [hchecked, hcheck]
      cases e with
      | missingToken token => exact ⟨_, rfl⟩
      | duplicateServerName => exact ⟨_, rfl⟩
    rw [bind_of_error (e := .exception x) (by rw [hrefused]), hrefused]
    exact hg
  | ok config' =>
    rw [hcheck] at hchecked
    rw [bind_of_ok (a := config') (by rw [hchecked]), hchecked]
    obtain ⟨hosts, hassembled⟩ := hg
    obtain ⟨result, hadd, -⟩ := @addHost_eq opens g config'
    rw [hadd]
    exact ⟨_, hassembled.addHost hshaped hcheck⟩

theorem assembles_readHost (bound : ℕ) (block : IStream) :
    Assembles opens (readHost opens bound block) := by
  rw [readHost_eq]
  refine Assembles.tryCatch ?_ fun _ _ hg => hg
  intro g hg
  have hlocal := local_readBlock bound block g
  have hread : ∃ hosts, Assembled opens hosts (readBlock bound block g).globals.registry := by
    rw [hlocal]
    exact hg
  unfold hostBody
  cases hresult : (readBlock bound block g).result with
  | error e =>
    rw [bind_of_error hresult]
    exact hread
  | ok p =>
    rw [bind_of_ok hresult]
    exact assembles_addChecked (yields_readBlock bound block g p hresult) _ hread

theorem assembles_configToken (bound : ℕ) (token : Bytes) (s : IStream) :
    Assembles opens (handleConfigToken opens bound token s) := by
  unfold handleConfigToken
  split
  · refine (Local.assembles (local_nextBlock s)).bind fun out => ?_
    exact (assembles_readHost bound out.1).bind fun _ => Local.assembles (local_pure _)
  split
  · refine Assembles.bind (fun _ hg => hg) fun _ => ?_
    refine (Local.assembles (Reading.local (n := 0) (.path ..) s)).bind fun out => ?_
    exact Assembles.bind (fun _ hg => hg) fun _ => Local.assembles (local_pure _)
  · exact Local.assembles (local_halt _)

theorem assembles_configLoop (bound fuel : ℕ) (s : IStream) :
    Assembles opens (configLoop opens bound fuel s) := by
  induction fuel generalizing s with
  | zero => exact Local.assembles (local_halt _)
  | succ fuel ih =>
    refine (Local.assembles (local_readWord false [] s)).bind fun out => ?_
    dsimp only
    split
    · refine (assembles_configToken bound _ _).bind fun t => ?_
      refine (Local.assembles (local_checkSemiColon t)).bind fun out => ?_
      split
      · exact ih _
      · exact Local.assembles (local_halt _)
    · split
      · exact Local.assembles (local_pure _)
      · exact Local.assembles (local_halt _)

theorem assembles_configFile (bound : ℕ) (text : Bytes) :
    Assembles opens (parseConfigFile opens bound text) := by
  refine Assembles.bind
    (Assembles.tryCatch ?_ fun _ => Local.assembles (local_pure _)) fun res => ?_
  · exact (assembles_configLoop bound bound _).bind fun _ => Local.assembles (local_pure _)
  · split
    · exact Local.assembles (local_pure _)
    · refine Assembles.bind (fun _ hg => hg) fun g => ?_
      split
      · exact Local.assembles (local_halt _)
      · exact Local.assembles (local_pure _)

theorem built_configs (hosts : List (HostConfig × (Bytes → Bool))) :
    (Registry.built hosts).configs = hosts.map Prod.fst := by
  have hadded : ∀ (hosts : List (HostConfig × (Bytes → Bool))) (r : Registry),
      (hosts.foldl (fun r host => (r.addHost host.1 host.2).2) r).configs =
        r.configs ++ hosts.map Prod.fst := by
    intro hosts
    induction hosts with
    | nil => exact fun r => (List.append_nil _).symm
    | cons host hosts ih =>
      intro r
      rw [List.foldl_cons, ih, addHost_configs, List.append_assoc]
      rfl
  exact hadded hosts .empty

/-- The hosts of the list are those that have been added, in their order. -/
theorem Assembled.configs_eq {hosts : List HostConfig} {r : Registry}
    (h : Assembled opens hosts r) : r.configs = hosts := by
  rw [h.built, built_configs, List.map_map]
  exact List.map_id hosts

end Assembly

/-- Whatever the file says and however its reading ends, the registry is the one built from
configured hosts, in their order. Servers and hosts agree, each pointer leads somewhere, and no
client is there yet. -/
theorem config_registers (opens : Bytes → Bytes → Bool) (bound : ℕ) (text : Bytes) :
    let r := (parseConfigFile opens bound text {}).globals.registry
    r = Registry.built (r.configs.map fun host => (host, opens host.addr)) ∧
      (∀ host ∈ r.configs, Configured host) ∧ Serving r ∧ NoDangling r ∧ Occupied r ∧
        ∀ c, r.clients.get? c = none := by
  obtain ⟨hosts, hassembled⟩ := assembles_configFile bound text {} ⟨[], Assembled.empty opens⟩
  dsimp only
  rw [hassembled.configs_eq]
  obtain ⟨hpointing, hoccupied⟩ :=
    built_pointing (hosts.map fun host => (host, opens host.addr))
  rw [← hassembled.built] at hpointing hoccupied
  exact ⟨hassembled.built, hassembled.configured, hassembled.serving, hpointing, hoccupied,
    hassembled.unvisited⟩

end Webserveau.ConfiguredHosts
