import Webserveau.ConfigParser
import Webserveau.Interning

/-!
The rules of all hosts.
Locations and CGI configurations of all hosts stand in two lists, and a host has pointers
to them by name. A rule is added to its list only when it differs from all rules there.
-/
namespace Webserveau.SharedRules

open ByteStrings OrderedMaps Arenas Interning
open Requests (byteLess same_byteLess_iff)

/-- A location with any values. -/
structure Location where
  root : Bytes := []
  methods : ℤ := 2 ^ Requests.Method.GET.index + 2 ^ Requests.Method.HEAD.index
  dir_listing : Bool := false
  default_uri : Bytes := []
  upload : Bool := false
  upload_root : Bytes := []
  redir : ℤ := 0
  addr_redir : List Bytes := []

structure CGIConfig where
  exec : Bytes := []
  root : Bytes := []
  methods : ℤ := Requests.Method.GET.index
  extension : Bytes := []

/-- Whether the elements of a list begin another one, which is at least as long. -/
def equal : List Bytes → List Bytes → Bool
  | [], _ => true
  | _ :: _, [] => false
  | x :: xs, y :: ys => x == y && equal xs ys

/-- The comparison of locations, field by field. -/
def Location.equals (l rhs : Location) : Bool :=
  if l.addr_redir.length ≠ rhs.addr_redir.length
      ∨ equal l.addr_redir rhs.addr_redir = false
      ∨ l.redir ≠ rhs.redir
      ∨ l.default_uri ≠ rhs.default_uri
      ∨ l.dir_listing ≠ rhs.dir_listing
      ∨ l.methods ≠ rhs.methods
      ∨ l.upload ≠ rhs.upload
      ∨ l.upload_root ≠ rhs.upload_root
      ∨ l.root ≠ rhs.root then false
  else true

/-- The comparison of CGI configurations, field by field. -/
def CGIConfig.equals (c rhs : CGIConfig) : Bool :=
  if c.exec ≠ rhs.exec
      ∨ c.root ≠ rhs.root
      ∨ c.methods ≠ rhs.methods
      ∨ c.extension ≠ rhs.extension then false
  else true

/-- The rules of a host: where they are, by name. -/
structure Host where
  locationMap : OrderedMap Bytes Address byteLess := OrderedMap.empty
  cgiMap : OrderedMap Bytes Address byteLess := OrderedMap.empty

/-- The pointer under a key; NULL where there is none. -/
def getMapObjectByKey (map : OrderedMap Bytes Address byteLess) (key : Bytes) : Option Address :=
  map.find? key

namespace Host

def getLocation (h : Host) (name : Bytes) : Option Address := getMapObjectByKey h.locationMap name

def getCGIConfig (h : Host) (name : Bytes) : Option Address := getMapObjectByKey h.cgiMap name

end Host

/-- The two lists, and the hosts that refer to them. -/
structure Rules (ι : Type) where
  locations : Arena Location := Arena.empty
  cgis : Arena CGIConfig := Arena.empty
  hosts : ι → Host := fun _ => {}

inductive Call (ι : Type)
  | addLocation (host : ι) (names : List Bytes) (location : Location)
  | addCGIConfig (host : ι) (names : List Bytes) (cgiConfig : CGIConfig)

section Calls

variable {ι : Type} [DecidableEq ι]

namespace Rules

def addLocation (s : Rules ι) (host : ι) (names : List Bytes) (location : Location) : Rules ι :=
  let (pos, locations) := intern Location.equals s.locations location
  { s with
    locations := locations
    hosts := Function.update s.hosts host
      { s.hosts host with locationMap := store (s.hosts host).locationMap names pos } }

def addCGIConfig (s : Rules ι) (host : ι) (names : List Bytes) (cgiConfig : CGIConfig) :
    Rules ι :=
  let (pos, cgis) := intern CGIConfig.equals s.cgis cgiConfig
  { s with
    cgis := cgis
    hosts := Function.update s.hosts host
      { s.hosts host with cgiMap := store (s.hosts host).cgiMap names pos } }

def call (s : Rules ι) : Call ι → Rules ι
  | .addLocation host names location => s.addLocation host names location
  | .addCGIConfig host names cgiConfig => s.addCGIConfig host names cgiConfig

/-- The rules after some calls, which begin with no rules at all. -/
def after (calls : List (Call ι)) : Rules ι := calls.foldl call {}

end Rules

/-- The location that the last call for a host and a name gave. -/
def lastLocation (calls : List (Call ι)) (host : ι) (name : Bytes) : Option Location :=
  calls.foldl (fun last call =>
    match call with
    | .addLocation h names location => if h = host ∧ name ∈ names then some location else last
    | .addCGIConfig .. => last) none

/-- The CGI configuration that the last call for a host and a name gave. -/
def lastCGIConfig (calls : List (Call ι)) (host : ι) (name : Bytes) : Option CGIConfig :=
  calls.foldl (fun last call =>
    match call with
    | .addLocation .. => last
    | .addCGIConfig h names cgiConfig => if h = host ∧ name ∈ names then some cgiConfig else last)
    none

end Calls

section Comparisons

theorem equal_iff (xs ys : List Bytes) (hlength : xs.length = ys.length) :
    equal xs ys = true ↔ xs = ys := by
  induction xs generalizing ys with
  | nil =>
    cases ys with
    | nil => simp [equal]
    | cons y ys => simp at hlength
  | cons x xs ih =>
    cases ys with
    | nil => simp at hlength
    | cons y ys =>
      have htail : xs.length = ys.length := by simpa using hlength
      simp [equal, ih ys htail]

/-- The comparison leaves no field out. -/
theorem location_equals_exact : Exact Location.equals := by
  intro l rhs
  have hsame : l.addr_redir.length = rhs.addr_redir.length →
      (equal l.addr_redir rhs.addr_redir = true ↔ l.addr_redir = rhs.addr_redir) :=
    fun hlength => equal_iff _ _ hlength
  obtain ⟨root, methods, dir_listing, default_uri, upload, upload_root, redir, addr_redir⟩ := l
  obtain ⟨root', methods', dir_listing', default_uri', upload', upload_root', redir',
    addr_redir'⟩ := rhs
  unfold Location.equals
  rw [Location.mk.injEq]
  constructor
  · intro h
    split at h
    · cases h
    · rename_i hfields
      simp only [not_or, not_not, Bool.not_eq_false] at hfields hsame
      obtain ⟨hlength, hequal, hredir, hdefault, hlisting, hmethods, hupload, huploads, hroot⟩ :=
        hfields
      exact ⟨hroot, hmethods, hlisting, hdefault, hupload, huploads, hredir,
        (hsame hlength).mp hequal⟩
  · rintro ⟨rfl, rfl, rfl, rfl, rfl, rfl, rfl, rfl⟩
    have hequal := (hsame rfl).mpr rfl
    simp only at hequal
    simp [hequal]

theorem cgiConfig_equals_exact : Exact CGIConfig.equals := by
  intro c rhs
  obtain ⟨exec, root, methods, extension⟩ := c
  obtain ⟨exec', root', methods', extension'⟩ := rhs
  unfold CGIConfig.equals
  rw [CGIConfig.mk.injEq]
  constructor
  · intro h
    split at h
    · cases h
    · rename_i hfields
      simpa only [not_or, not_not] using hfields
  · rintro ⟨rfl, rfl, rfl, rfl⟩
    simp

end Comparisons

section Runs

variable {ι : Type} [DecidableEq ι]

theorem addLocation_cgiMap (s : Rules ι) (host x : ι) (names : List Bytes)
    (location : Location) :
    ((s.addLocation host names location).hosts x).cgiMap = (s.hosts x).cgiMap := by
  by_cases hx : x = host
  · simp [Rules.addLocation, hx]
  · simp [Rules.addLocation, hx]

theorem addCGIConfig_locationMap (s : Rules ι) (host x : ι) (names : List Bytes)
    (cgiConfig : CGIConfig) :
    ((s.addCGIConfig host names cgiConfig).hosts x).locationMap = (s.hosts x).locationMap := by
  by_cases hx : x = host
  · simp [Rules.addCGIConfig, hx]
  · simp [Rules.addCGIConfig, hx]

theorem lastLocation_snoc (calls : List (Call ι)) (call : Call ι) (host : ι) (name : Bytes) :
    lastLocation (calls ++ [call]) host name =
      match call with
      | .addLocation h names location =>
        if h = host ∧ name ∈ names then some location else lastLocation calls host name
      | .addCGIConfig .. => lastLocation calls host name := by
  unfold lastLocation
  rw [List.foldl_concat]

theorem lastCGIConfig_snoc (calls : List (Call ι)) (call : Call ι) (host : ι) (name : Bytes) :
    lastCGIConfig (calls ++ [call]) host name =
      match call with
      | .addLocation .. => lastCGIConfig calls host name
      | .addCGIConfig h names cgiConfig =>
        if h = host ∧ name ∈ names then some cgiConfig else lastCGIConfig calls host name := by
  unfold lastCGIConfig
  rw [List.foldl_concat]

/-- Every host shows what it was given last, and no rule stands in a list twice. -/
structure Shown (s : Rules ι) (calls : List (Call ι)) : Prop where
  locations : ∀ host, Shows s.locations (s.hosts host).locationMap (lastLocation calls host)
  cgis : ∀ host, Shows s.cgis (s.hosts host).cgiMap (lastCGIConfig calls host)
  locations_distinct : Distinct s.locations
  cgis_distinct : Distinct s.cgis

theorem Shown.addLocation {s : Rules ι} {calls : List (Call ι)} (h : Shown s calls) (host : ι)
    (names : List Bytes) (location : Location) :
    Shown (s.addLocation host names location) (calls ++ [.addLocation host names location]) := by
  have hlast := lastLocation_snoc calls (.addLocation host names location)
  have hkept : lastCGIConfig (calls ++ [.addLocation host names location]) =
      lastCGIConfig calls := by
    funext x name
    exact lastCGIConfig_snoc calls _ x name
  refine ⟨?_, ?_, h.locations_distinct.intern location_equals_exact location, h.cgis_distinct⟩
  · apply Shows.storeAt h.locations location_equals_exact same_byteLess_iff host names location
    · simp [Rules.addLocation]
    · intro x hx
      simp [Rules.addLocation, hx]
    · intro name hname
      simp [hlast, hname]
    · intro name hname
      simp [hlast, hname]
    · intro x hx
      funext name
      simp [hlast, Ne.symm hx]
  · intro x
    rw [addLocation_cgiMap, hkept]
    exact h.cgis x

theorem Shown.addCGIConfig {s : Rules ι} {calls : List (Call ι)} (h : Shown s calls) (host : ι)
    (names : List Bytes) (cgiConfig : CGIConfig) :
    Shown (s.addCGIConfig host names cgiConfig)
      (calls ++ [.addCGIConfig host names cgiConfig]) := by
  have hlast := lastCGIConfig_snoc calls (.addCGIConfig host names cgiConfig)
  have hkept : lastLocation (calls ++ [.addCGIConfig host names cgiConfig]) =
      lastLocation calls := by
    funext x name
    exact lastLocation_snoc calls _ x name
  refine ⟨?_, ?_, h.locations_distinct, h.cgis_distinct.intern cgiConfig_equals_exact cgiConfig⟩
  · intro x
    rw [addCGIConfig_locationMap, hkept]
    exact h.locations x
  · apply Shows.storeAt h.cgis cgiConfig_equals_exact same_byteLess_iff host names cgiConfig
    · simp [Rules.addCGIConfig]
    · intro x hx
      simp [Rules.addCGIConfig, hx]
    · intro name hname
      simp [hlast, hname]
    · intro name hname
      simp [hlast, hname]
    · intro x hx
      funext name
      simp [hlast, Ne.symm hx]

theorem shown_after (calls : List (Call ι)) : Shown (Rules.after calls) calls := by
  induction calls using List.reverseRecOn with
  | nil =>
    exact ⟨fun _ => shows_empty _, fun _ => shows_empty _, distinct_empty, distinct_empty⟩
  | append_singleton calls call ih =>
    unfold Rules.after at ih ⊢
    rw [List.foldl_concat]
    cases call with
    | addLocation host names location => apply ih.addLocation
    | addCGIConfig host names cgiConfig => apply ih.addCGIConfig

theorem lastLocation_eq_none_iff (calls : List (Call ι)) (host : ι) (name : Bytes) :
    lastLocation calls host name = none ↔
      ∀ names location, Call.addLocation host names location ∈ calls → name ∉ names := by
  induction calls using List.reverseRecOn with
  | nil => simp [lastLocation]
  | append_singleton calls call ih =>
    rw [lastLocation_snoc]
    cases call with
    | addLocation h names location => grind
    | addCGIConfig h names cgiConfig => simpa using ih

theorem lastCGIConfig_eq_none_iff (calls : List (Call ι)) (host : ι) (name : Bytes) :
    lastCGIConfig calls host name = none ↔
      ∀ names cgiConfig, Call.addCGIConfig host names cgiConfig ∈ calls → name ∉ names := by
  induction calls using List.reverseRecOn with
  | nil => simp [lastCGIConfig]
  | append_singleton calls call ih =>
    rw [lastCGIConfig_snoc]
    cases call with
    | addLocation h names location => simpa using ih
    | addCGIConfig h names cgiConfig => grind

/-- A host has no rule under a name it was never given one for, and else a pointer to one
that equals the last one given; equal rules are behind one pointer. -/
theorem rules_sharing_invisible (calls : List (Call ι)) :
    (∀ host name,
      (((Rules.after calls).hosts host).getLocation name = none ↔
        ∀ names location, Call.addLocation host names location ∈ calls → name ∉ names) ∧
      ∀ location, lastLocation calls host name = some location →
        ∃ p, ((Rules.after calls).hosts host).getLocation name = some p ∧
          (Rules.after calls).locations.get? p = some location) ∧
    (∀ host name,
      (((Rules.after calls).hosts host).getCGIConfig name = none ↔
        ∀ names cgiConfig, Call.addCGIConfig host names cgiConfig ∈ calls → name ∉ names) ∧
      ∀ cgiConfig, lastCGIConfig calls host name = some cgiConfig →
        ∃ p, ((Rules.after calls).hosts host).getCGIConfig name = some p ∧
          (Rules.after calls).cgis.get? p = some cgiConfig) ∧
    (∀ host name host' name' location, lastLocation calls host name = some location →
      lastLocation calls host' name' = some location →
        ((Rules.after calls).hosts host).getLocation name =
          ((Rules.after calls).hosts host').getLocation name') ∧
    (∀ host name host' name' cgiConfig, lastCGIConfig calls host name = some cgiConfig →
      lastCGIConfig calls host' name' = some cgiConfig →
        ((Rules.after calls).hosts host).getCGIConfig name =
          ((Rules.after calls).hosts host').getCGIConfig name') := by
  have hshown := shown_after calls
  refine ⟨?_, ?_, ?_, ?_⟩
  · intro host name
    rw [← lastLocation_eq_none_iff]
    exact ⟨(hshown.locations host).eq_none_iff name, fun _ => (hshown.locations host).of_some⟩
  · intro host name
    rw [← lastCGIConfig_eq_none_iff]
    exact ⟨(hshown.cgis host).eq_none_iff name, fun _ => (hshown.cgis host).of_some⟩
  · intro host name host' name' location
    apply Shows.shared hshown.locations_distinct (hshown.locations host) (hshown.locations host')
  · intro host name host' name' cgiConfig
    apply Shows.shared hshown.cgis_distinct (hshown.cgis host) (hshown.cgis host')

end Runs

section Parsing

variable {ι : Type} [DecidableEq ι] {s : Rules ι} {parsed : ι → Requests.Host}

/-- A location of the parser, whose redirection has been checked. -/
def Location.ofParsed (l : Requests.Location) : Location where
  root := l.root
  methods := l.methods
  dir_listing := l.dir_listing
  default_uri := l.default_uri
  upload := l.upload
  upload_root := l.upload_root
  redir := l.redir
  addr_redir := l.addr_redir

def CGIConfig.ofParsed (c : Requests.CGIConfig) : CGIConfig where
  exec := c.exec
  root := c.root
  methods := c.methods
  extension := c.extension

/-- Hosts with pointers have the rules of hosts that keep their rules themselves. -/
structure Represents (s : Rules ι) (parsed : ι → Requests.Host) : Prop where
  locations : ∀ i, Shows s.locations (s.hosts i).locationMap
    fun name => ((parsed i).locationMap.find? name).map Location.ofParsed
  cgis : ∀ i, Shows s.cgis (s.hosts i).cgiMap
    fun name => ((parsed i).cgiMap.find? name).map CGIConfig.ofParsed

/-- A location that the parser gives to one host reaches that host alone. -/
theorem Represents.addLocation (h : Represents s parsed) (i : ι) (names : List Bytes)
    (l : Requests.Location) :
    Represents (s.addLocation i names (.ofParsed l))
      (Function.update parsed i (ConfigParser.addLocation (parsed i) names l)) := by
  have hfind := @find?_store _ _ _ _ _ (parsed i).locationMap same_byteLess_iff names l
  constructor
  · apply Shows.storeAt h.locations location_equals_exact same_byteLess_iff i names (.ofParsed l)
    · simp [Rules.addLocation]
    · intro x hx
      simp [Rules.addLocation, hx]
    · intro name hname
      have hl := hfind name
      rw [if_pos hname] at hl
      rw [Function.update_self]
      exact congrArg _ hl
    · intro name hname
      have hl := hfind name
      rw [if_neg hname] at hl
      rw [Function.update_self]
      exact congrArg _ hl
    · intro x hx
      rw [Function.update_of_ne hx]
  · intro x
    have hkept : (Function.update parsed i (ConfigParser.addLocation (parsed i) names l) x).cgiMap =
        (parsed x).cgiMap := by
      by_cases hx : x = i
      · subst hx
        rw [Function.update_self]
        rfl
      · rw [Function.update_of_ne hx]
    rw [addLocation_cgiMap, hkept]
    exact h.cgis x

/-- A CGI configuration that the parser gives to one host reaches that host alone. -/
theorem Represents.addCGIConfig (h : Represents s parsed) (i : ι) (names : List Bytes)
    (c : Requests.CGIConfig) :
    Represents (s.addCGIConfig i names (.ofParsed c))
      (Function.update parsed i (ConfigParser.addCGIConfig (parsed i) names c)) := by
  have hfind := @find?_store _ _ _ _ _ (parsed i).cgiMap same_byteLess_iff names c
  constructor
  · intro x
    have hkept :
        (Function.update parsed i (ConfigParser.addCGIConfig (parsed i) names c) x).locationMap =
          (parsed x).locationMap := by
      by_cases hx : x = i
      · subst hx
        rw [Function.update_self]
        rfl
      · rw [Function.update_of_ne hx]
    rw [addCGIConfig_locationMap, hkept]
    exact h.locations x
  · apply Shows.storeAt h.cgis cgiConfig_equals_exact same_byteLess_iff i names (.ofParsed c)
    · simp [Rules.addCGIConfig]
    · intro x hx
      simp [Rules.addCGIConfig, hx]
    · intro name hname
      have hc := hfind name
      rw [if_pos hname] at hc
      rw [Function.update_self]
      exact congrArg _ hc
    · intro name hname
      have hc := hfind name
      rw [if_neg hname] at hc
      rw [Function.update_self]
      exact congrArg _ hc
    · intro x hx
      rw [Function.update_of_ne hx]

end Parsing

end Webserveau.SharedRules
