import Webserveau.Checks
import Webserveau.Uris

/-!
Hosts, the choice of a location or a cgi for a path, and the checks of a request.
Location and cgi expressions are matched token by token, a star standing for any text.
The file system is known through what its calls answer, and it may answer differently
each time it is asked.
-/
namespace Webserveau.Requests

open ByteStrings OrderedMaps Formats Checks

/-- The order of `std::string` keys. -/
def byteLess (a b : Bytes) : Bool := a.map UInt8.toNat < b.map UInt8.toNat

instance : IsStrictWeakOrder Bytes (byteLess · ·) where
  irrefl a := by simp [byteLess]
  trans a b c hab hbc := by
    simp only [byteLess, decide_eq_true_eq] at *
    exact lt_trans hab hbc
  incomp_trans a b c hab hbc := by
    simp only [byteLess, decide_eq_true_eq, not_lt] at *
    exact ⟨le_trans hbc.1 hab.1, le_trans hab.2 hbc.2⟩

/-- Two keys of a map of strings are one key only when they are equal. -/
theorem same_byteLess_iff (a b : Bytes) : Same byteLess a b = true ↔ a = b := by
  rw [same_iff]
  simp only [byteLess, decide_eq_true_eq, not_lt]
  constructor
  · intro ⟨hba, hab⟩
    exact List.map_injective_iff.mpr (fun _ _ h => UInt8.toNat_inj.mp h) (le_antisymm hab hba)
  · intro heq
    rw [heq]
    exact ⟨le_refl _, le_refl _⟩

inductive FileType
  | regular
  | directory
  | other
  deriving DecidableEq

/-- The answers of the file system: `stat` with the size, `access` for reading and for
writing, the contents of a file that can be opened, and the entries of a directory
with their types. -/
structure FileSystem where
  stat : Bytes → Option (FileType × ℕ)
  readable : Bytes → Bool
  writable : Bytes → Bool
  content : Bytes → Option Bytes
  entries : Bytes → Option (List (Bytes × ℕ))

structure Host where
  body_max_size : ℤ := INT32_MAX
  dir_errors : Bytes := []
  server_names : List Bytes := []
  locationMap : OrderedMap Bytes Location byteLess := OrderedMap.empty
  cgiMap : OrderedMap Bytes CGIConfig byteLess := OrderedMap.empty

/-- The byte at a position; the end of a string reads as NUL. -/
def charAt (s : Bytes) (i : ℕ) : UInt8 := s.getD i 0

/-- The tokens of an expression, from its first byte on. -/
def tokens : ℕ → Bytes → List Bytes
  | 0, _ => []
  | fuel + 1, expression =>
    if charAt expression 0 = 0 then []
    else if charAt expression 0 = 42 then ascii "*" :: tokens fuel expression.tail
    else
      let token := expression.takeWhile fun c => c ≠ 0 ∧ c ≠ 42
      token :: tokens fuel (expression.drop token.length)

def tokenize (expression : Bytes) : List Bytes := tokens (expression.length + 1) expression

/-- The loop of `isMatch` from a position and a token on. -/
def matchFrom (uri : Bytes) : List Bytes → ℕ → Bool
  | [], _ => true
  | token :: rest, i =>
    if charAt uri i = 0 then token = ascii "*" && rest = []
    else if token = ascii "*" then
      match rest with
      | [] => true
      | next :: rest =>
        match find next (uri.drop i) with
        | none => false
        | some offset =>
          let i := i + offset + next.length
          if rest = [] then charAt uri i = 0 else matchFrom uri rest i
    else if (uri.drop i).take token.length ≠ token then false
    else
      let i := i + token.length
      if rest = [] then charAt uri i = 0 else matchFrom uri rest i

def isMatch (uri : Bytes) (tokenVec : List Bytes) : Bool :=
  if tokenVec = [] then false else matchFrom uri tokenVec 0

/-- `rfind` as an `int`, -1 when there is no occurrence. -/
def rfindInt (pat s : Bytes) : ℤ := (rfind pat s).elim (-1) fun i => toInt i

/-- The comparison of two matching expressions from their last tokens. -/
def betterFrom : Bytes → List Bytes → List Bytes → Bool
  | _, [], _ => false
  | _, _ :: _, [] => true
  | uri, tokenA :: restA, tokenB :: restB =>
    if tokenA = ascii "*" then
      if tokenB = ascii "*" then betterFrom uri restA restB else false
    else if tokenB = ascii "*" then true
    else
      let posA := rfindInt tokenA uri
      let posB := rfindInt tokenB uri
      let diff := toInt ((posA + tokenA.length) - (posB + tokenB.length))
      if diff > 0 then true
      else if diff < 0 then false
      else if tokenA.length > tokenB.length then true
      else if tokenA.length < tokenB.length then false
      else betterFrom (if posA < 0 then uri else uri.take posA.toNat) restA restB

def isUriMatch (uri expression : Bytes) (previousMatch : Option Bytes) : Bool :=
  if isMatch uri (tokenize expression) = false then false
  else match previousMatch with
    | none => true
    | some previous => betterFrom uri (tokenize expression).reverse (tokenize previous).reverse

/-- The entry under the best of the expressions that match. -/
def getObjectMatch {α : Type} (map : OrderedMap Bytes α byteLess) (uri : Bytes) : Option α :=
  (map.entries.foldl (fun best entry =>
    if isUriMatch uri entry.1 (best.map Prod.fst) then some entry else best) none).map Prod.snd

/-- The test of a method against a mask; an unknown method has no bit. -/
def allows (methods : ℕ) (method : Option Method) : Bool :=
  method.elim false fun m => methods.testBit m.index

def Request.setHintStatus (r : Request) (status : ℤ) : Request :=
  { r with resHints := { r.resHints with status := status } }

/-- A status noted in the hints and returned. -/
def Request.withStatus (r : Request) (status : ℤ) : ℤ × Request := (status, r.setHintStatus status)

def checkRessourcePath (fs : FileSystem) (path : Bytes) (type : ReqType) (checkRead : Bool) : ℤ :=
  match fs.stat path with
  | none => RES_NOT_FOUND
  | some (kind, _) =>
    if type ≠ .dir ∧ kind ≠ .regular then RES_FORBIDDEN
    else if type = .dir ∧ kind ≠ .directory then RES_NOT_FOUND
    else if checkRead ∧ fs.readable path = false then RES_FORBIDDEN
    else 0

namespace Host

def getMaxSize (host : Host) : ℤ := host.body_max_size

def checkServerName (host : Host) (name : Bytes) : Bool := host.server_names.contains name

def matchLocation (host : Host) (uri : Bytes) : Option Location :=
  getObjectMatch host.locationMap uri

def matchCGIConfig (host : Host) (uri : Bytes) : Option CGIConfig :=
  getObjectMatch host.cgiMap uri

/-- The statuses a location may hold are those of the `switch`. -/
def checkRedirection (r : Request) : ℤ × Request :=
  match r.resHints.locationRules with
  | none => (0, r)
  | some location =>
    if location.redir = 0 then (0, r)
    else
      let r := r.setHintStatus location.redir
      (location.redir, { r with resHints := { r.resHints with
        redirList := some location.addr_redir } })

def matchRequest (host : Host) (r : Request) : Checked (ℤ × Request) := do
  let path := r.resHints.parsedUri.path
  let r := { r with resHints := { r.resHints with
    locationRules := host.matchLocation path
    cgiRules := host.matchCGIConfig path } }
  match r.resHints.cgiRules with
  | none =>
    if r.resHints.locationRules = none then
      return ({ r with type := .noMatch } : Request).withStatus RES_NOT_FOUND
    else if r.resHints.parsedUri.extension = ascii "/" then
      return (0, { r with type := .dir })
    else return (0, { r with type := .static })
  | some cgi =>
    let r ← ({ r with type := .cgi } : Request).extractPathInfo cgi.extension
    if r.resHints.parsedUri.pathInfo.contains 47 then
      return (0, { r with resHints := { r.resHints with
        locationRules := host.matchLocation r.resHints.parsedUri.path } })
    else return (0, r)

/-- The result of the second parse is not looked at. -/
def checkDirRessource (host : Host) (r : Request) : Checked (ℤ × Request) := do
  match r.resHints.locationRules with
  | none => return (0, r)
  | some location =>
    if location.default_uri ≠ [] then
      let (_, r) ← r.parseURISuffix location.default_uri
      let (res, r) ← host.matchRequest r
      return (if res ≠ 0 then RES_NOT_FOUND else 0, r)
    else if location.dir_listing then
      if r.method ≠ some .GET then return r.withStatus RES_FORBIDDEN
      return (0, { r with resHints := { r.resHints with path := r.resHints.parsedUri.path } })
    else return (0, r)

def checkLocationRules (r : Request) : ℤ × Request :=
  match r.resHints.locationRules with
  | none => (0, r)
  | some location =>
    if allows location.methods r.method = false then r.withStatus RES_METHOD_NOT_ALLOWED
    else if (r.method = some .POST ∨ r.method = some .PUT) ∧ r.type = .static ∧
        location.upload = false then
      r.withStatus RES_FORBIDDEN
    else (0, r)

def checkCGIRules (r : Request) : ℤ × Request :=
  match r.resHints.cgiRules with
  | none => (0, r)
  | some cgi =>
    if r.type = .cgi ∧ allows cgi.methods r.method = false then r.withStatus RES_METHOD_NOT_ALLOWED
    else (0, r)

/-- The directory uploads of a location go to. -/
def uploadRoot (location : Location) : Bytes :=
  if location.upload_root ≠ [] then location.upload_root else location.root

def checkRessourceExistence (fs : FileSystem) (r : Request) : ℤ × Request :=
  if r.type = .cgi then
    let scriptPath := (r.resHints.cgiRules.elim [] CGIConfig.root) ++ r.resHints.parsedUri.path
    ({ r with resHints := { r.resHints with scriptPath := scriptPath } } : Request).withStatus
      (checkRessourcePath fs scriptPath .cgi true)
  else if r.method = some .POST ∨ r.method = some .PUT then
    let path := r.resHints.locationRules.elim [] uploadRoot
    r.withStatus (checkRessourcePath fs (path ++ r.resHints.parsedUri.root) .dir false)
  else
    let path := (r.resHints.locationRules.elim [] Location.root) ++ r.resHints.parsedUri.path
    ({ r with resHints := { r.resHints with path := path } } : Request).withStatus
      (checkRessourcePath fs path r.type true)

def checkRequest (host : Host) (fs : FileSystem) (r : Request) : Checked (ℤ × Request) :=
  andThen (host.matchRequest r) fun r =>
  andThen (.ok (checkRedirection r)) fun r =>
  andThen (if r.type = .dir then host.checkDirRessource r else .ok (0, r)) fun r =>
  andThen (.ok (checkLocationRules r)) fun r =>
  andThen (.ok (checkCGIRules r)) fun r =>
  .ok (checkRessourceExistence fs r)

end Host

end Webserveau.Requests
