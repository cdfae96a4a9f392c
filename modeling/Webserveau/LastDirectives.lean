import Webserveau.FieldDirectives

/-!
The last directives of a location, a cgi and a host.
Roots, addresses, executables, identifiers and error pages are joined to the value that is
there; the other values are read into something new.
-/
namespace Webserveau.LastDirectives

open ByteStrings OrderedMaps Formats Requests Registries ConfigWords ConfigBlocks ConfigParser
  ConfigParser.ParseM ConfigReadings WordReading HostBlocks JoinedWords RepeatedDirectives
  FieldDirectives

/-- The fields of a location, by the directives that set them. -/
def locationSetting (location : Location) (name : Bytes) : Option Setting :=
  if name = ascii "root" then some (.text location.root)
  else if name = ascii "methods" then some (.methods location.methods)
  else if name = ascii "dir_listing" then some (.flag location.dir_listing)
  else if name = ascii "upload" then some (.flag location.upload)
  else if name = ascii "default_uri" then some (.text location.default_uri)
  else if name = ascii "upload_root" then some (.text location.upload_root)
  else none

def locationBlock : Block Location where
  handler := handleLocationToken
  initial := { redir_valid := unredirected }
  setting := locationSetting
  joined := [ascii "root", ascii "default_uri", ascii "upload_root"]

def cgiSetting (cgi : CGIConfig) (name : Bytes) : Option Setting :=
  if name = ascii "root" then some (.text cgi.root)
  else if name = ascii "methods" then some (.methods cgi.methods)
  else if name = ascii "exec" then some (.text cgi.exec)
  else if name = ascii "identifier" then some (.text cgi.extension)
  else none

def cgiBlock : Block CGIConfig where
  handler := handleCGIConfigToken
  initial := {}
  setting := cgiSetting
  joined := [ascii "root", ascii "exec", ascii "identifier"]

/-- The fields of a host that are set by one value. -/
def hostSetting (config : HostConfig) (name : Bytes) : Option Setting :=
  if name = ascii "host" then some (.text config.addr)
  else if name = ascii "error_pages" then some (.text config.host.dir_errors)
  else if name = ascii "body_max_size" then some (.size config.host.body_max_size)
  else none

def hostBlock (bound : ℕ) : Block HostConfig where
  handler := handleHostToken bound
  initial := newHost
  setting := hostSetting
  joined := [ascii "error_pages"]

section Locations

def locationRoot : JoinedField locationBlock (ascii "root") where
  get := Location.root
  set location root := { location with root := root }
  id := some "root"
  restrictEnd := some 47
  handles _ _ := rfl
  get_set _ _ := rfl
  unset := rfl
  setting _ := rfl
  keeps _ _ name hname := by
    unfold locationBlock locationSetting
    simp only [if_neg hname]

def locationUploadRoot : JoinedField locationBlock (ascii "upload_root") where
  get := Location.upload_root
  set location upload_root := { location with upload_root := upload_root }
  id := some "upload_root"
  restrictEnd := some 47
  handles _ _ := rfl
  get_set _ _ := rfl
  unset := rfl
  setting _ := rfl
  keeps _ _ name hname := by
    unfold locationBlock locationSetting
    simp only [if_neg hname]

def locationDefaultUri : JoinedField locationBlock (ascii "default_uri") where
  get := Location.default_uri
  set location default_uri := { location with default_uri := default_uri }
  id := none
  restrictEnd := none
  handles location s := by
    rw [parsePath_none]
    rfl
  get_set _ _ := rfl
  unset := rfl
  setting _ := rfl
  keeps _ _ name hname := by
    unfold locationBlock locationSetting
    simp only [if_neg hname]

theorem location_methods : FreshField locationBlock (ascii "methods") := by
  apply @freshField_of_methods _ locationBlock
    fun location methods => { location with methods := methods }
  · exact fun _ _ => rfl
  · exact fun _ _ => rfl
  · intro location methods name hname
    unfold locationBlock locationSetting
    simp only [if_neg hname]

theorem location_dir_listing : FreshField locationBlock (ascii "dir_listing") := by
  apply @freshField_of_boolean _ locationBlock _ none
    fun location dir_listing => { location with dir_listing := dir_listing }
  · exact fun _ _ => rfl
  · exact fun _ _ => rfl
  · intro location dir_listing name hname
    unfold locationBlock locationSetting
    simp only [if_neg hname]

theorem location_upload : FreshField locationBlock (ascii "upload") := by
  apply @freshField_of_boolean _ locationBlock _ none
    fun location upload => { location with upload := upload }
  · exact fun _ _ => rfl
  · exact fun _ _ => rfl
  · intro location upload name hname
    unfold locationBlock locationSetting
    simp only [if_neg hname]

/-- A redirection is none of the fields. -/
theorem location_return : FreshField locationBlock (ascii "return") := by
  apply freshField_of_none
  · exact fun _ => rfl
  · intro location s g
    show Block.Follows _
      ((parseValues INT32_MAX.toNat [] s >>= fun p => Reading.redirectTo {} p.1 p.2) g)
      ((parseValues INT32_MAX.toNat [] s >>= fun p => Reading.redirectTo location p.1 p.2) g)
    apply follows_bind
    rintro ⟨values, t⟩ g' - -
    rcases values with _ | ⟨status, _ | ⟨address, addresses⟩⟩
    · exact follows_halt _ _
    · exact follows_halt _ _
    · unfold Reading.redirectTo
      dsimp only
      by_cases hcode : (getInt status 10 0).1 ≠ 0
      · rw [if_pos hcode]
        exact follows_halt _ _
      · rw [if_neg hcode, if_neg hcode]
        by_cases hstatus : RedirectionStatus (getInt status 10 0).2
        · rw [dif_pos hstatus, dif_pos hstatus]
          apply follows_pure
          rfl
        · rw [dif_neg hstatus]
          exact follows_halt _ _

theorem locationBlock_lawful : locationBlock.Lawful := by
  apply lawful_of_fields
  · intro token htoken
    simp only [locationBlock, List.mem_cons, List.not_mem_nil, or_false] at htoken
    rcases htoken with rfl | rfl | rfl
    · exact ⟨locationRoot⟩
    · exact ⟨locationDefaultUri⟩
    · exact ⟨locationUploadRoot⟩
  · intro token htoken
    simp only [locationBlock, List.mem_cons, List.not_mem_nil, or_false, not_or] at htoken
    obtain ⟨hroot, hdefault, hupload_root⟩ := htoken
    by_cases hmethods : token = ascii "methods"
    · rw [hmethods]
      exact location_methods
    by_cases hlisting : token = ascii "dir_listing"
    · rw [hlisting]
      exact location_dir_listing
    by_cases hupload : token = ascii "upload"
    · rw [hupload]
      exact location_upload
    by_cases hreturn : token = ascii "return"
    · rw [hreturn]
      exact location_return
    · apply freshField_of_none
      · intro location
        simp only [locationBlock, locationSetting, if_neg hroot, if_neg hmethods, if_neg hlisting,
          if_neg hupload, if_neg hdefault, if_neg hupload_root]
      · intro location s g
        simp only [locationBlock, handleLocationToken, if_neg hroot, if_neg hmethods,
          if_neg hlisting, if_neg hupload, if_neg hdefault, if_neg hupload_root, if_neg hreturn]
        exact follows_halt _ _

end Locations

section CGIConfigs

def cgiRoot : JoinedField cgiBlock (ascii "root") where
  get := CGIConfig.root
  set cgi root := { cgi with root := root }
  id := some "root"
  restrictEnd := some 47
  handles _ _ := rfl
  get_set _ _ := rfl
  unset := rfl
  setting _ := rfl
  keeps _ _ name hname := by
    unfold cgiBlock cgiSetting
    simp only [if_neg hname]

def cgiExec : JoinedField cgiBlock (ascii "exec") where
  get := CGIConfig.exec
  set cgi exec := { cgi with exec := exec }
  id := none
  restrictEnd := none
  handles _ _ := rfl
  get_set _ _ := rfl
  unset := rfl
  setting _ := rfl
  keeps _ _ name hname := by
    unfold cgiBlock cgiSetting
    simp only [if_neg hname]

def cgiIdentifier : JoinedField cgiBlock (ascii "identifier") where
  get := CGIConfig.extension
  set cgi extension := { cgi with extension := extension }
  id := some "identifier is missing"
  restrictEnd := none
  handles cgi s := by
    rw [parsePath_none]
    rfl
  get_set _ _ := rfl
  unset := rfl
  setting _ := rfl
  keeps _ _ name hname := by
    unfold cgiBlock cgiSetting
    simp only [if_neg hname]

theorem cgi_methods : FreshField cgiBlock (ascii "methods") := by
  apply @freshField_of_methods _ cgiBlock fun cgi methods => { cgi with methods := methods }
  · exact fun _ _ => rfl
  · exact fun _ _ => rfl
  · intro cgi methods name hname
    unfold cgiBlock cgiSetting
    simp only [if_neg hname]

theorem cgiBlock_lawful : cgiBlock.Lawful := by
  apply lawful_of_fields
  · intro token htoken
    simp only [cgiBlock, List.mem_cons, List.not_mem_nil, or_false] at htoken
    rcases htoken with rfl | rfl | rfl
    · exact ⟨cgiRoot⟩
    · exact ⟨cgiExec⟩
    · exact ⟨cgiIdentifier⟩
  · intro token htoken
    simp only [cgiBlock, List.mem_cons, List.not_mem_nil, or_false, not_or] at htoken
    obtain ⟨hroot, hexec, hidentifier⟩ := htoken
    by_cases hmethods : token = ascii "methods"
    · rw [hmethods]
      exact cgi_methods
    · apply freshField_of_none
      · intro cgi
        simp only [cgiBlock, cgiSetting, if_neg hroot, if_neg hmethods, if_neg hexec,
          if_neg hidentifier]
      · intro cgi s g
        simp only [cgiBlock, handleCGIConfigToken, if_neg hroot, if_neg hmethods, if_neg hexec,
          if_neg hidentifier]
        exact follows_halt _ _

end CGIConfigs

section Hosts

variable {bound : ℕ} {config : HostConfig} {g : Globals}

def hostErrorPages (bound : ℕ) : JoinedField (hostBlock bound) (ascii "error_pages") where
  get config := config.host.dir_errors
  set config dir_errors := { config with host := { config.host with dir_errors := dir_errors } }
  id := none
  restrictEnd := none
  handles _ _ := rfl
  get_set _ _ := rfl
  unset := rfl
  setting _ := rfl
  keeps _ _ name hname := by
    unfold hostBlock hostSetting
    simp only [if_neg hname]

theorem host_host (bound : ℕ) : FreshField (hostBlock bound) (ascii "host") := by
  apply @freshField_of_read _ _ (hostBlock bound) _ (requiredWord [] (some "host"))
    fun config addr => { config with addr := addr }
  · exact fun _ _ => rfl
  · exact fun _ _ => rfl
  · intro config addr name hname
    unfold hostBlock hostSetting
    simp only [if_neg hname]
  · intro _ s g ret word r hread hret
    exact requiredWord_missing (some "host") g hread hret

/-- A number that can be read is the same whatever was there before. -/
theorem getInt_read {str : Bytes} {base : ℕ} {res : ℤ} (h : (getInt str base res).1 = 0)
    (res' : ℤ) : getInt str base res' = getInt str base res := by
  unfold getInt at h ⊢
  dsimp only at h ⊢
  split_ifs at h ⊢
  all_goals first | rfl | exact absurd h one_ne_zero

theorem host_body_max_size (bound : ℕ) :
    FreshField (hostBlock bound) (ascii "body_max_size") := by
  refine ⟨?_, ?_⟩
  · intro config s g
    show Block.Follows _ (parseBodyMaxSize newHost s g) (parseBodyMaxSize config s g)
    unfold parseBodyMaxSize
    apply follows_bind
    rintro ⟨word, t⟩ g' - -
    dsimp only
    by_cases hcode : (getInt word 10 newHost.host.body_max_size).1 = 0
    · rw [getInt_read hcode config.host.body_max_size, if_neg (not_not.mpr hcode),
        if_neg (not_not.mpr hcode)]
      apply follows_pure
      refine ⟨rfl, ?_⟩
      intro name hname
      unfold hostBlock hostSetting
      simp only [if_neg hname]
    · rw [if_pos hcode]
      exact follows_halt _ _
  · intro config s g ret word r _ hread hret
    obtain ⟨e, hresult, he⟩ := requiredWord_missing (some "body_max_size") g hread hret
    show ∃ e, (parseBodyMaxSize config s g).result = .error e ∧ e ≠ .unfinished
    unfold parseBodyMaxSize
    rw [bind_of_error hresult]
    exact ⟨e, rfl, he⟩

theorem addPorts_ok {config' : HostConfig} {c : HostConfig} {ports : List Bytes}
    (h : (addPorts config ports g).result = .ok c) :
    ∃ c', (addPorts config' ports g).result = .ok c' ∧
      (addPorts config' ports g).globals = (addPorts config ports g).globals ∧
      hostSetting c' = hostSetting config' := by
  induction ports generalizing config config' with
  | nil => exact ⟨config', rfl, rfl, rfl⟩
  | cons port ports ih =>
    unfold addPorts at h ⊢
    by_cases hcode : (getInt port 10 0).1 ≠ 0
    · rw [if_pos hcode] at h
      cases h
    · rw [if_neg hcode] at h
      rw [if_neg hcode, if_neg hcode]
      obtain ⟨c', hresult, hglobals, hsetting⟩ := @ih _ (HostConfig.addPort config' port) h
      exact ⟨c', hresult, hglobals, hsetting⟩

theorem host_listen (bound : ℕ) : FreshField (hostBlock bound) (ascii "listen") := by
  apply freshField_of_none
  · exact fun _ => rfl
  · intro config s g
    show Block.Follows _ (parsePorts newHost s g) (parsePorts config s g)
    unfold parsePorts
    apply follows_bind
    rintro ⟨ports, t⟩ g' - -
    dsimp only
    by_cases hports : ports = []
    · rw [if_pos hports]
      exact follows_halt _ _
    · rw [if_neg hports, if_neg hports]
      intro o t' hrun
      cases hadded : (addPorts newHost ports g').result with
      | error e =>
        rw [bind_of_error hadded] at hrun
        cases hrun
      | ok c =>
        obtain ⟨c', hresult, hglobals, hsetting⟩ := @addPorts_ok _ g' config c ports hadded
        rw [bind_of_ok hadded] at hrun
        rw [bind_of_ok hadded, bind_of_ok hresult]
        cases hrun
        exact ⟨c', rfl, hglobals, hsetting⟩

/-- The values that are read do not depend on those that are there. -/
theorem parseValues_behind (maxNbr : ℕ) (dest words : List Bytes) (s : IStream) (g : Globals) :
    (parseValues maxNbr (dest ++ words) s g).result =
        (parseValues maxNbr words s g).result.map (fun p => (dest ++ p.1, p.2)) ∧
      (parseValues maxNbr (dest ++ words) s g).globals =
        (parseValues maxNbr words s g).globals := by
  induction maxNbr generalizing words s g with
  | zero => exact ⟨rfl, rfl⟩
  | succ maxNbr ih =>
    unfold parseValues
    cases hread : (readWord false [] s g).result with
    | error e =>
      rw [bind_of_error hread, bind_of_error hread]
      exact ⟨rfl, rfl⟩
    | ok out =>
      obtain ⟨ret, word, t⟩ := out
      rw [bind_of_ok hread, bind_of_ok hread]
      dsimp only
      by_cases hret : ret = 0
      · rw [if_pos hret, if_pos hret, List.append_assoc]
        exact ih _ _ _
      · rw [if_neg hret, if_neg hret]
        exact ⟨rfl, rfl⟩

theorem host_server_name (bound : ℕ) : FreshField (hostBlock bound) (ascii "server_name") := by
  apply freshField_of_none
  · exact fun _ => rfl
  · intro config s g o t hrun
    have hnew : (hostBlock bound).handler (hostBlock bound).initial (ascii "server_name") s =
        parseServerName newHost s := rfl
    have hold : (hostBlock bound).handler config (ascii "server_name") s =
        parseServerName config s := rfl
    rw [hnew] at hrun
    rw [hnew, hold]
    unfold parseServerName at hrun ⊢
    obtain ⟨hresult, hglobals⟩ :=
      parseValues_behind INT32_MAX.toNat config.host.server_names [] s g
    rw [List.append_nil] at hresult hglobals
    have hnone : newHost.host.server_names = [] := rfl
    rw [hnone] at hrun ⊢
    cases hread : (parseValues INT32_MAX.toNat [] s g).result with
    | error e =>
      rw [bind_of_error hread] at hrun
      cases hrun
    | ok out =>
      obtain ⟨names, t'⟩ := out
      rw [hread] at hresult
      rw [bind_of_ok hread] at hrun
      rw [bind_of_ok hread, bind_of_ok hresult]
      dsimp only at hrun ⊢
      by_cases hnames : names = []
      · rw [if_pos hnames] at hrun
        cases hrun
      · rw [if_neg hnames] at hrun ⊢
        rw [if_neg (by simp [hnames])]
        cases hrun
        exact ⟨_, rfl, hglobals, rfl⟩

theorem contain_caught {α : Type} {c : α} {m : ParseM α} {e : ConfigException}
    (h : (m g).result = .error (.exception e)) (he : e ≠ .lastBlock) :
    (contain c m g).result = .ok c ∧
      (contain c m g).globals = { (m g).globals with error := true } := by
  unfold contain
  rw [tryCatch_of_exception h, if_neg he]
  exact ⟨rfl, rfl⟩

theorem contain_last {α : Type} {c : α} {m : ParseM α}
    (h : (m g).result = .error (.exception .lastBlock)) :
    (contain c m g).result = .error (.exception .missingOpeningBrace) := by
  unfold contain
  rw [tryCatch_of_exception h, if_pos rfl]
  rfl

/-- A block inside of a host leaves the fields of the host as they are, be it read or not. -/
theorem follows_contain {c : HostConfig} {m m' : ParseM HostConfig}
    (hglobals : (m' g).globals = (m g).globals)
    (hresult : (∃ e, (m g).result = .error e ∧ (m' g).result = .error e) ∨
      ∃ o o', (m g).result = .ok o ∧ (m' g).result = .ok o' ∧
        hostSetting o' = hostSetting config) (t : IStream) :
    Block.Follows (fun _ o' => hostSetting o' = hostSetting config)
      ((contain c m >>= fun o => pure (o, t)) g)
      ((contain config m' >>= fun o => pure (o, t)) g) := by
  intro o u hrun
  rcases hresult with ⟨e, hm, hm'⟩ | ⟨v, v', hm, hm', hsetting⟩
  · by_cases hcaught : ∃ exception, e = .exception exception
    · obtain ⟨e, rfl⟩ := hcaught
      by_cases hlast : e = .lastBlock
      · subst hlast
        rw [bind_of_error (contain_last hm)] at hrun
        cases hrun
      · obtain ⟨hresult, hleft⟩ := @contain_caught g _ c m e hm hlast
        obtain ⟨hresult', hleft'⟩ := @contain_caught g _ config m' e hm' hlast
        rw [bind_of_ok hresult] at hrun
        rw [bind_of_ok hresult, bind_of_ok hresult', hleft, hleft', hglobals]
        cases hrun
        exact ⟨config, rfl, rfl, rfl⟩
    · have hother : contain c m g = m g := by
        apply tryCatch_of_other
        intro exception hexception
        rw [hm] at hexception
        cases hexception
        exact hcaught ⟨exception, rfl⟩
      rw [bind_of_error (by rw [hother, hm])] at hrun
      cases hrun
  · have hthrough : contain c m g = m g := tryCatch_of_other (by rw [hm]; nofun)
    have hthrough' : contain config m' g = m' g := tryCatch_of_other (by rw [hm']; nofun)
    rw [← hthrough] at hm hglobals
    rw [← hthrough'] at hm' hglobals
    rw [bind_of_ok hm] at hrun
    rw [bind_of_ok hm, bind_of_ok hm']
    cases hrun
    exact ⟨v', rfl, hglobals, hsetting⟩

theorem follows_nested {α : Type} {handler : α → Bytes → IStream → ParseM (α × IStream)}
    {check : α → ParseM Unit} {add : Host → List Bytes → α → Host}
    (hadd : ∀ (config : HostConfig) names obj,
      hostSetting { config with host := add config.host names obj } = hostSetting config)
    (obj : α) (s : IStream) :
    Block.Follows (fun _ o' => hostSetting o' = hostSetting config)
      (parseNested handler check add bound obj newHost s g)
      (parseNested handler check add bound obj config s g) := by
  unfold parseNested
  apply follows_bind
  rintro ⟨names, t⟩ g' - -
  apply follows_bind
  rintro ⟨block, t'⟩ g'' - -
  dsimp only
  cases hblock : (parseBlock handler bound obj block g'').result with
  | error e =>
    apply follows_contain
    · rw [bind_of_error hblock, bind_of_error hblock]
    · exact Or.inl ⟨e, by rw [bind_of_error hblock], by rw [bind_of_error hblock]⟩
  | ok p =>
    cases hcheck : (check p.1 (parseBlock handler bound obj block g'').globals).result with
    | error e =>
      apply follows_contain
      · rw [bind_of_ok hblock, bind_of_ok hblock]
        dsimp only
        rw [bind_of_error hcheck, bind_of_error hcheck]
      · refine Or.inl ⟨e, ?_, ?_⟩
        · rw [bind_of_ok hblock, bind_of_error hcheck]
        · rw [bind_of_ok hblock, bind_of_error hcheck]
    | ok u =>
      apply follows_contain
      · rw [bind_of_ok hblock, bind_of_ok hblock]
        dsimp only
        rw [bind_of_ok hcheck, bind_of_ok hcheck]
        rfl
      · refine Or.inr ⟨{ newHost with host := add newHost.host names p.1 }, _, ?_, ?_,
          hadd config names p.1⟩
        · rw [bind_of_ok hblock, bind_of_ok hcheck]
          rfl
        · rw [bind_of_ok hblock, bind_of_ok hcheck]
          rfl

theorem hostBlock_lawful (bound : ℕ) : (hostBlock bound).Lawful := by
  apply lawful_of_fields
  · intro token htoken
    rw [List.mem_singleton.mp htoken]
    exact ⟨hostErrorPages bound⟩
  · intro token htoken
    have hpages : token ≠ ascii "error_pages" := fun heq => htoken (List.mem_singleton.mpr heq)
    by_cases hlisten : token = ascii "listen"
    · rw [hlisten]
      exact host_listen bound
    by_cases hhost : token = ascii "host"
    · rw [hhost]
      exact host_host bound
    by_cases hname : token = ascii "server_name"
    · rw [hname]
      exact host_server_name bound
    by_cases hsize : token = ascii "body_max_size"
    · rw [hsize]
      exact host_body_max_size bound
    apply freshField_of_none
    · intro config
      simp only [hostBlock, hostSetting, if_neg hhost, if_neg hpages, if_neg hsize]
    · intro config s g
      by_cases hlocation : token = ascii "location"
      · rw [hlocation]
        show Block.Follows _ (parseLocation bound newHost s g) (parseLocation bound config s g)
        apply follows_nested
        intro config names location
        rfl
      by_cases hcgi : token = ascii "cgi"
      · rw [hcgi]
        show Block.Follows _ (parseCGIConfig bound newHost s g) (parseCGIConfig bound config s g)
        apply follows_nested
        intro config names cgi
        rfl
      · simp only [hostBlock, handleHostToken, if_neg hlisten, if_neg hhost, if_neg hname,
          if_neg hpages, if_neg hsize, if_neg hlocation, if_neg hcgi]
        exact follows_halt _ _

end Hosts

/-- The last directives of a block win where no directive whose values are joined occurs twice,
or where a missing value refuses the block anyway and no value that would be joined has two
slashes on end. Where no such value has them, they win nowhere else. -/
theorem last_directive_wins_iff (text : Bytes) (offset : ℕ) (g : Globals) :
    (∀ os, locationBlock.Reads (.ofText text offset) g os →
      (locationBlock.Prevails os → locationBlock.LastWins (.ofText text offset) g os) ∧
      (locationBlock.Plain [] os → locationBlock.LastWins (.ofText text offset) g os →
        locationBlock.Prevails os)) ∧
    (∀ os, cgiBlock.Reads (.ofText text offset) g os →
      (cgiBlock.Prevails os → cgiBlock.LastWins (.ofText text offset) g os) ∧
      (cgiBlock.Plain [] os → cgiBlock.LastWins (.ofText text offset) g os →
        cgiBlock.Prevails os)) ∧
    ∀ bound os, (hostBlock bound).Reads (.ofText text offset) g os →
      ((hostBlock bound).Prevails os → (hostBlock bound).LastWins (.ofText text offset) g os) ∧
      ((hostBlock bound).Plain [] os → (hostBlock bound).LastWins (.ofText text offset) g os →
        (hostBlock bound).Prevails os) := by
  have hs : Tidy (IStream.ofText text offset).toReader := tidy_good text
  refine ⟨?_, ?_, ?_⟩
  · intro os hreads
    exact locationBlock_lawful.lastWins_prevails hreads hs
  · intro os hreads
    exact cgiBlock_lawful.lastWins_prevails hreads hs
  · intro bound os hreads
    exact (hostBlock_lawful bound).lastWins_prevails hreads hs

theorem listing_given {s : IStream} {g : Globals} {r v n : Reader} {w : Bytes}
    {os : List (Occurrence Location)}
    (htoken : s.toReader.getNextWord [] = .ok (0, ascii "dir_listing", r))
    (hvalue : r.getNextWord [] = .ok (0, w, v)) (hw : w = ascii "on" ∨ w = ascii "off")
    (hsemicolon : v.checkSemiColon = (true, n))
    (hreads : locationBlock.Reads { s with toReader := n } g os) :
    locationBlock.Reads s g (⟨ascii "dir_listing", readFrom r.rest v.rest,
      some { locationBlock.initial with dir_listing := w = ascii "on" }⟩ :: os) := by
  have hrun : (locationBlock.handler locationBlock.initial (ascii "dir_listing")
      { s with toReader := r } g).result =
        .ok ({ locationBlock.initial with dir_listing := w = ascii "on" },
          { s with toReader := v }) ∧
      (locationBlock.handler locationBlock.initial (ascii "dir_listing")
        { s with toReader := r } g).globals = g := by
    obtain ⟨hword, hleft⟩ := @parseBoolean_ok _ { s with toReader := r } _ none g hvalue hw
    have hhandles : ∀ location t, locationBlock.handler location (ascii "dir_listing") t =
        parseBoolean none t >>= fun p => pure ({ location with dir_listing := p.1 }, p.2) :=
      fun _ _ => rfl
    rw [hhandles, bind_of_ok hword, hleft]
    exact ⟨rfl, rfl⟩
  obtain ⟨hresult, hglobals⟩ := hrun
  apply Block.Reads.given htoken hresult hsemicolon
  rw [hglobals]
  exact hreads

/-- A directive that is no text may be repeated. -/
theorem repeated_listing_wins :
    ∃ os, locationBlock.Reads (.ofText (ascii "dir_listing on;dir_listing off;") 0) {} os ∧
      os.map Occurrence.name = [ascii "dir_listing", ascii "dir_listing"] ∧
      locationBlock.LastWins (.ofText (ascii "dir_listing on;dir_listing off;") 0) {} os := by
  have htoken₁ : (⟨ascii "dir_listing on;dir_listing off;", false, false⟩ : Reader).getNextWord [] =
      .ok (0, ascii "dir_listing", ⟨ascii " on;dir_listing off;", false, false⟩) := by
    decide +kernel
  have htoken₂ : (⟨ascii "dir_listing off;", false, false⟩ : Reader).getNextWord [] =
      .ok (0, ascii "dir_listing", ⟨ascii " off;", false, false⟩) := by decide +kernel
  have hvalue₁ : (⟨ascii " on;dir_listing off;", false, false⟩ : Reader).getNextWord [] =
      .ok (0, ascii "on", ⟨ascii ";dir_listing off;", false, false⟩) := by decide +kernel
  have hvalue₂ : (⟨ascii " off;", false, false⟩ : Reader).getNextWord [] =
      .ok (0, ascii "off", ⟨ascii ";", false, false⟩) := by decide +kernel
  have hsemicolon₁ : (⟨ascii ";dir_listing off;", false, false⟩ : Reader).checkSemiColon =
      (true, ⟨ascii "dir_listing off;", false, false⟩) := by decide +kernel
  have hsemicolon₂ : (⟨ascii ";", false, false⟩ : Reader).checkSemiColon =
      (true, ⟨[], false, false⟩) := by decide +kernel
  have hreads := listing_given (s := .ofText (ascii "dir_listing on;dir_listing off;") 0) (g := {})
    htoken₁ hvalue₁ (Or.inl rfl) hsemicolon₁
    (listing_given htoken₂ hvalue₂ (Or.inr rfl) hsemicolon₂ (reads_nothing _ _ _))
  refine ⟨_, hreads, rfl, ?_⟩
  apply ((last_directive_wins_iff _ 0 {}).1 _ hreads).1
  refine Or.inl ?_
  rintro (hfirst | hsecond | hnone)
  · exact absurd hfirst.2 List.not_mem_nil
  · exact absurd hsecond.1 (by decide)
  · exact hnone

/-- A root behind another one is joined to it, and one without a value behind another one is no
error. -/
theorem last_root_loses :
    (∃ os, locationBlock.Reads (.ofText (ascii "root /a;root /b;") 0) {} os ∧
      ¬ locationBlock.LastWins (.ofText (ascii "root /a;root /b;") 0) {} os) ∧
    ∃ os, locationBlock.Reads (.ofText (ascii "root /a;root ;") 0) {} os ∧
      ¬ locationBlock.LastWins (.ofText (ascii "root /a;root ;") 0) {} os := by
  constructor
  · have hreads := locationRoot.given (s := .ofText (ascii "root /a;root /b;") 0) (g := {})
      (r := ⟨ascii " /a;root /b;", false, false⟩) (v := ⟨ascii ";root /b;", false, false⟩)
      (n := ⟨ascii "root /b;", false, false⟩) (w := ascii "/a") (by decide +kernel)
      (by decide +kernel) (by decide +kernel) (locationRoot.given
        (r := ⟨ascii " /b;", false, false⟩) (v := ⟨ascii ";", false, false⟩)
        (n := ⟨[], false, false⟩) (w := ascii "/b") (by decide +kernel) (by decide +kernel)
        (by decide +kernel) (reads_nothing _ _ _))
    refine ⟨_, hreads, ?_⟩
    intro hwins
    have hvalue : ((parseBlock handleLocationToken 3 {}
        (.ofText (ascii "root /a;root /b;") 0) {}).result.map fun p => p.1.root) =
        .ok (ascii "/a//b/") := by decide +kernel
    obtain ⟨location, t, hresult, hlast⟩ := (hwins 3 (Nat.lt_succ_self 2)).1 (by simp)
    have hroot : some (Setting.text location.root) = some (.text (ascii "/b/")) :=
      hlast (ascii "root")
    rw [show (parseBlock handleLocationToken 3 {}
      (.ofText (ascii "root /a;root /b;") 0) {}).result = .ok (location, t) from hresult] at hvalue
    simp only [Except.map, Except.ok.injEq] at hvalue
    rw [hvalue] at hroot
    revert hroot
    decide
  · have hneeds : locationBlock.NeedsValue (ascii "root") := ⟨nofun, by decide⟩
    have hnone : (⟨ascii " ;", false, false⟩ : Reader).getNextWord [] =
        .ok (59, [], ⟨ascii ";", false, false⟩) := by decide +kernel
    have hlast : locationBlock.Reads { IStream.ofText (ascii "root /a;root ;") 0 with
        toReader := ⟨ascii "root ;", false, false⟩ } {} _ :=
      .valueless (r := ⟨ascii " ;", false, false⟩) (by decide +kernel) hneeds hnone (by decide)
        (by decide +kernel) (reads_nothing _ _ _)
    have hreads := locationRoot.given (s := .ofText (ascii "root /a;root ;") 0) (g := {})
      (r := ⟨ascii " /a;root ;", false, false⟩) (v := ⟨ascii ";root ;", false, false⟩)
      (n := ⟨ascii "root ;", false, false⟩) (w := ascii "/a") (by decide +kernel)
      (by decide +kernel) (by decide +kernel) hlast
    refine ⟨_, hreads, ?_⟩
    intro hwins
    have hvalue : ((parseBlock handleLocationToken 3 {}
        (.ofText (ascii "root /a;root ;") 0) {}).result.map fun p => p.1.root) =
        .ok (ascii "/a/") := by decide +kernel
    obtain ⟨e, hresult, -⟩ := (hwins 3 (Nat.lt_succ_self 2)).2 (by simp)
    rw [show (parseBlock handleLocationToken 3 {}
      (.ofText (ascii "root /a;root ;") 0) {}).result = .error e from hresult] at hvalue
    cases hvalue

end Webserveau.LastDirectives
