import Webserveau.ConfigBlocks
import Webserveau.Registries

/-!
The parser of configuration files.
Each block of a server becomes a host, which is checked and registered. An exception inside
a block ends the reading of that block alone; a string made from a null pointer raises
another exception, which nothing catches here. The calls made to read words, semicolons
and blocks are noted, to state what a run reads.
-/
namespace Webserveau.ConfigParser

open ByteStrings OrderedMaps Formats Requests Registries ConfigWords ConfigBlocks

/-- How a run ends other than with a value; no run of the program is unfinished, but one that
goes on without an end is so under every bound. -/
inductive Halt
  | exception (e : ConfigException)
  | logicError
  | unfinished
  deriving DecidableEq

structure Globals where
  lineBuffer : Bytes := []
  default_error_pages : Bytes := []
  error : Bool := false
  registry : Registry := .empty

/-- A call of `getNextWord`, `checkSemiColon` or `getNextBlock` with the stream it is made on
and what it gives; `nullId` tells that a missing word is reported under a null pointer, `line`
is what `_lineBuffer` holds. -/
inductive Call
  | word (nullId : Bool) (dest : Bytes) (s : IStream) (given : Option (UInt8 × Bytes))
  | semicolon (s : IStream) (found : Bool)
  | block (line : Bytes) (s : IStream) (given : Option Bytes)

structure Outcome (α : Type) where
  result : Except Halt α
  globals : Globals
  calls : List Call := []

def ParseM (α : Type) : Type := Globals → Outcome α

namespace ParseM

variable {α β : Type}

protected def pure (a : α) : ParseM α := fun g => { result := .ok a, globals := g }

protected def bind (m : ParseM α) (f : α → ParseM β) : ParseM β := fun g =>
  let out := m g
  match out.result with
  | .error e => { result := .error e, globals := out.globals, calls := out.calls }
  | .ok a =>
    let out' := f a out.globals
    { out' with calls := out.calls ++ out'.calls }

instance : Monad ParseM where
  pure := ParseM.pure
  bind := ParseM.bind

def halt (e : Halt) : ParseM α := fun g => { result := .error e, globals := g }

def throw (e : ConfigException) : ParseM α := halt (.exception e)

/-- Only the exceptions of the parser are caught. -/
def tryCatch (m : ParseM α) (handler : ConfigException → ParseM α) : ParseM α := fun g =>
  let out := m g
  match out.result with
  | .error (.exception e) =>
    let out' := handler e out.globals
    { out' with calls := out.calls ++ out'.calls }
  | _ => out

def get : ParseM Globals := fun g => { result := .ok g, globals := g }

def modify (f : Globals → Globals) : ParseM Unit := fun g => { result := .ok (), globals := f g }

end ParseM

open ParseM

/-- `getNextWord` on a stream. -/
def readWord (nullId : Bool) (dest : Bytes) (s : IStream) : ParseM (UInt8 × Bytes × IStream) :=
  fun g => match s.toReader.getNextWord dest with
    | .error e => {
        result := .error (.exception e)
        globals := g
        calls := [.word nullId dest s none] }
    | .ok (ret, word, r) => {
        result := .ok (ret, word, { s with toReader := r })
        globals := g
        calls := [.word nullId dest s (some (ret, word))] }

def checkSemiColon (s : IStream) : ParseM (Bool × IStream) := fun g =>
  let (found, r) := s.toReader.checkSemiColon
  {
    result := .ok (found, { s with toReader := r })
    globals := g
    calls := [.semicolon s found] }

/-- The place in the file of a block behind whose closing brace the stream stands. -/
def blockOffset (s : IStream) (block : Bytes) : ℕ :=
  s.offset + (s.text.length - s.rest.length) - 1 - block.length

/-- `getNextBlock`, with the block as a stream of its own. -/
def nextBlock (s : IStream) : ParseM (IStream × IStream) := fun g =>
  let (line, outcome) := getNextBlock s g.lineBuffer
  match outcome with
  | .error e => {
      result := .error (.exception e)
      globals := { g with lineBuffer := line }
      calls := [.block g.lineBuffer s none] }
  | .ok (block, t) => {
      result := .ok (.ofText block (blockOffset t block), t)
      globals := { g with lineBuffer := line }
      calls := [.block g.lineBuffer s (some block)] }

/-- The next words up to what is none, at most `maxNbr` of them. -/
def parseValues : ℕ → List Bytes → IStream → ParseM (List Bytes × IStream)
  | 0, words, s => return (words, s)
  | maxNbr + 1, words, s => do
    let (ret, word, s) ← readWord false [] s
    if ret = 0 then parseValues maxNbr (words ++ [word]) s else return (words, s)

/-- The directives of a block, at most as many as the bound says. -/
def parseBlock {α : Type} (handler : α → Bytes → IStream → ParseM (α × IStream)) :
    ℕ → α → IStream → ParseM (α × IStream)
  | 0, _, _ => halt .unfinished
  | fuel + 1, obj, s => do
    let (ret, token, s) ← readWord false [] s
    if ret = 0 then
      let (obj, s) ← handler obj token s
      let (found, s) ← checkSemiColon s
      if found then parseBlock handler fuel obj s else throw .missingSemicolon
    else if ret = EOF then return (obj, s)
    else throw (.unexpectedToken token)

/-- The exception for a missing word; its text is made from the name. -/
def missing {α : Type} (id : Option String) : ParseM α :=
  match id with
  | none => halt .logicError
  | some id => throw (.missingToken id)

/-- A word that has to be there. -/
def requiredWord (dest : Bytes) (id : Option String) (s : IStream) : ParseM (Bytes × IStream) := do
  let (ret, word, s) ← readWord id.isNone dest s
  if ret ≠ 0 then missing id else return (word, s)

/-- A path that has to end in `restrictEnd` is given it. -/
def endPath (restrictEnd : Option UInt8) (path : Bytes) : Bytes :=
  match restrictEnd with
  | none => path
  | some c => if path ≠ [] ∧ path.getLast? ≠ some c then path ++ [c] else path

def parsePath (dest : Bytes) (id : Option String) (restrictEnd : Option UInt8) (s : IStream) :
    ParseM (Bytes × IStream) := do
  let (dest, s) ← requiredWord dest id s
  return (endPath restrictEnd dest, s)

def parseExtension (dest : Bytes) (s : IStream) : ParseM (Bytes × IStream) :=
  requiredWord dest (some "identifier is missing") s

def parseBoolean (id : Option String) (s : IStream) : ParseM (Bool × IStream) := do
  let (word, s) ← requiredWord [] id s
  if word = ascii "on" then return (true, s)
  else if word = ascii "off" then return (false, s)
  else throw .invalidBoolean

def parseUri (dest : Bytes) (id : Option String) (s : IStream) : ParseM (Bytes × IStream) :=
  requiredWord dest id s

/-- The bits of the methods; an unknown one is refused. -/
def methodBits (dest : ℕ) : List Bytes → ParseM ℕ
  | [] => return dest
  | method :: methods =>
    match getMethodIndex method with
    | none => throw .invalidMethod
    | some index => methodBits (dest ||| 2 ^ index.index) methods

def parseAllowedMethods (s : IStream) : ParseM (ℕ × IStream) := do
  let (methods, s) ← parseValues INT32_MAX.toNat [] s
  let dest ← methodBits 0 methods
  return (dest, s)

/-- The statuses a redirection may have. -/
def RedirectionStatus (status : ℤ) : Prop :=
  300 ≤ status ∧ status ≤ 308 ∧ ¬ (303 < status ∧ status < 307)

instance (status : ℤ) : Decidable (RedirectionStatus status) := by
  unfold RedirectionStatus
  infer_instance

theorem RedirectionStatus.mem {status : ℤ} (h : RedirectionStatus status) :
    status ∈ ([300, 301, 302, 303, 307, 308] : List ℤ) := by
  obtain ⟨hlow, hhigh, hgap⟩ := h
  simp only [List.mem_cons, List.not_mem_nil, or_false]
  omega

/-- The location with a redirection to more addresses. -/
def withRedirection (location : Location) (status : ℤ) (address : Bytes) (addresses : List Bytes)
    (h : RedirectionStatus status) : Location :=
  { location with
    redir := status
    addr_redir := location.addr_redir ++ address :: addresses
    redir_valid := fun _ => ⟨h.mem, by simp⟩ }

def parseRedirection (location : Location) (s : IStream) :
    ParseM (Location × IStream) := do
  let (values, s) ← parseValues INT32_MAX.toNat [] s
  match values with
  | status :: address :: addresses =>
    let (res, redirectionStatus) := getInt status 10 0
    if res ≠ 0 then throw .invalidRedirection
    else if h : RedirectionStatus redirectionStatus then
      return (withRedirection location redirectionStatus address addresses h, s)
    else throw .invalidRedirection
  | _ => throw (.missingToken "redirection values")

def handleLocationToken (location : Location) (token : Bytes) (s : IStream) :
    ParseM (Location × IStream) := do
  if token = ascii "root" then
    let (root, s) ← parsePath location.root (some "root") (some 47) s
    return ({ location with root := root }, s)
  else if token = ascii "methods" then
    let (methods, s) ← parseAllowedMethods s
    return ({ location with methods := methods }, s)
  else if token = ascii "dir_listing" then
    let (dir_listing, s) ← parseBoolean none s
    return ({ location with dir_listing := dir_listing }, s)
  else if token = ascii "upload" then
    let (upload, s) ← parseBoolean none s
    return ({ location with upload := upload }, s)
  else if token = ascii "default_uri" then
    let (default_uri, s) ← parseUri location.default_uri none s
    return ({ location with default_uri := default_uri }, s)
  else if token = ascii "upload_root" then
    let (upload_root, s) ← parsePath location.upload_root (some "upload_root") (some 47) s
    return ({ location with upload_root := upload_root }, s)
  else if token = ascii "return" then parseRedirection location s
  else throw (.unknownToken token)

def handleCGIConfigToken (cgi : CGIConfig) (token : Bytes) (s : IStream) :
    ParseM (CGIConfig × IStream) := do
  if token = ascii "root" then
    let (root, s) ← parsePath cgi.root (some "root") (some 47) s
    return ({ cgi with root := root }, s)
  else if token = ascii "methods" then
    let (methods, s) ← parseAllowedMethods s
    return ({ cgi with methods := methods }, s)
  else if token = ascii "exec" then
    let (exec, s) ← parsePath cgi.exec none none s
    return ({ cgi with exec := exec }, s)
  else if token = ascii "identifier" then
    let (extension, s) ← parseExtension cgi.extension s
    return ({ cgi with extension := extension }, s)
  else throw (.unknownToken token)

def checkLocation (location : Location) : ParseM Unit :=
  if location.root = [] then throw (.missingToken "root") else return ()

def checkCGIConfig (cgi : CGIConfig) : ParseM Unit :=
  if cgi.root = [] then throw (.missingToken "root")
  else if cgi.extension = [] then throw (.missingToken "identifier")
  else return ()

def addLocation (host : Host) (names : List Bytes) (location : Location) : Host :=
  { host with
    locationMap := names.foldl (fun map name => map.insert name location) host.locationMap }

def addCGIConfig (host : Host) (names : List Bytes) (cgi : CGIConfig) : Host :=
  { host with cgiMap := names.foldl (fun map name => map.insert name cgi) host.cgiMap }

/-- An error in a block of a host leaves the host as it was. -/
def contain {α : Type} (obj : α) (m : ParseM α) : ParseM α :=
  tryCatch m fun e =>
    if e = .lastBlock then throw .missingOpeningBrace
    else do
      modify fun g => { g with error := true }
      return obj

/-- `parseLocation` and `parseCGIConfig`: names, then a block that is added under them. -/
def parseNested {α : Type} (handler : α → Bytes → IStream → ParseM (α × IStream))
    (check : α → ParseM Unit) (add : Host → List Bytes → α → Host) (bound : ℕ) (obj : α)
    (config : HostConfig) (s : IStream) : ParseM (HostConfig × IStream) := do
  let (names, s) ← parseValues INT32_MAX.toNat [] s
  let (block, s) ← nextBlock s
  let config ← contain config do
    let (obj, _) ← parseBlock handler bound obj block
    check obj
    return { config with host := add config.host names obj }
  return (config, s)

def parseLocation (bound : ℕ) (config : HostConfig) (s : IStream) :
    ParseM (HostConfig × IStream) :=
  parseNested handleLocationToken checkLocation addLocation bound {} config s

def parseCGIConfig (bound : ℕ) (config : HostConfig) (s : IStream) :
    ParseM (HostConfig × IStream) :=
  parseNested handleCGIConfigToken checkCGIConfig addCGIConfig bound {} config s

/-- Insertion into a set of strings. -/
def insertPort (port : Bytes) : List Bytes → List Bytes
  | [] => [port]
  | p :: ports =>
    if byteLess port p then port :: p :: ports
    else if byteLess p port then p :: insertPort port ports
    else p :: ports

theorem mem_insertPort {port p : Bytes} {ports : List Bytes} (h : p ∈ insertPort port ports) :
    p = port ∨ p ∈ ports := by
  induction ports with
  | nil => exact Or.inl (List.mem_singleton.mp h)
  | cons q ports ih =>
    unfold insertPort at h
    split at h
    · exact List.mem_cons.mp h
    · split at h
      · rcases List.mem_cons.mp h with rfl | h
        · exact Or.inr (List.mem_cons_self ..)
        · exact (ih h).imp_right (List.mem_cons_of_mem _)
      · exact Or.inr h

theorem insertPort_sorted (port : Bytes) {ports : List Bytes}
    (h : ports.Pairwise fun p q => byteLess p q = true) :
    (insertPort port ports).Pairwise fun p q => byteLess p q = true := by
  induction ports with
  | nil => exact List.pairwise_singleton _ _
  | cons p ports ih =>
    obtain ⟨hp, hports⟩ := List.pairwise_cons.mp h
    unfold insertPort
    split
    · rename_i hless
      refine List.pairwise_cons.mpr ⟨?_, h⟩
      intro q hq
      rcases List.mem_cons.mp hq with rfl | hq
      · exact hless
      · exact IsTrans.trans (r := fun a b => byteLess a b = true) port p q hless (hp q hq)
    · split
      · rename_i hless
        refine List.pairwise_cons.mpr ⟨?_, ih hports⟩
        intro q hq
        rcases mem_insertPort hq with rfl | hq
        · exact hless
        · exact hp q hq
      · exact h

def HostConfig.addPort (config : HostConfig) (port : Bytes) : HostConfig :=
  { config with
    ports := insertPort port config.ports
    ports_sorted := insertPort_sorted port config.ports_sorted }

def addPorts (config : HostConfig) : List Bytes → ParseM HostConfig
  | [] => return config
  | port :: ports =>
    if (getInt port 10 0).1 ≠ 0 then throw .invalidPort
    else addPorts (HostConfig.addPort config port) ports

def parsePorts (config : HostConfig) (s : IStream) :
    ParseM (HostConfig × IStream) := do
  let (ports, s) ← parseValues INT32_MAX.toNat [] s
  if ports = [] then throw (.missingToken "port")
  else
    let config ← addPorts config ports
    return (config, s)

def parseHostName (config : HostConfig) (s : IStream) : ParseM (HostConfig × IStream) := do
  let (addr, s) ← requiredWord [] (some "host") s
  return ({ config with addr := addr }, s)

def parseServerName (config : HostConfig) (s : IStream) :
    ParseM (HostConfig × IStream) := do
  let (names, s) ← parseValues INT32_MAX.toNat config.host.server_names s
  if names = [] then throw (.missingToken "server_name")
  else return ({ config with host := { config.host with server_names := names } }, s)

def parseBodyMaxSize (config : HostConfig) (s : IStream) : ParseM (HostConfig × IStream) := do
  let (word, s) ← requiredWord [] (some "body_max_size") s
  let (res, size) := getInt word 10 config.host.body_max_size
  if res ≠ 0 then throw .invalidMaxBodySize
  else return ({ config with host := { config.host with body_max_size := size } }, s)

def handleHostToken (bound : ℕ) (config : HostConfig) (token : Bytes) (s : IStream) :
    ParseM (HostConfig × IStream) := do
  if token = ascii "listen" then parsePorts config s
  else if token = ascii "host" then parseHostName config s
  else if token = ascii "server_name" then parseServerName config s
  else if token = ascii "error_pages" then
    let (dir_errors, s) ← parsePath config.host.dir_errors none none s
    return ({ config with host := { config.host with dir_errors := dir_errors } }, s)
  else if token = ascii "body_max_size" then parseBodyMaxSize config s
  else if token = ascii "location" then parseLocation bound config s
  else if token = ascii "cgi" then parseCGIConfig bound config s
  else throw (.unknownToken token)

/-- A new host, on the address `localhost`. -/
def newHost : HostConfig where
  host := {}
  addr := ascii "localhost"
  ports := []
  ports_sorted := List.Pairwise.nil

def checkHost (config : HostConfig) : ParseM HostConfig := do
  let g ← get
  match g.registry.checkHost g.default_error_pages config with
  | .ok config => return config
  | .error (.missingToken token) => throw (.missingToken token)
  | .error .duplicateServerName => throw .duplicateServerName

/-- `Host::addHost`; the host stays registered when one of its servers fails. -/
def addHost (opens : Bytes → Bytes → Bool) (config : HostConfig) : ParseM Unit := do
  let g ← get
  let (res, registry) := g.registry.addHost config (opens config.addr)
  modify fun g => { g with registry := registry }
  if res ≠ 0 then throw .host else return ()

/-- What is done with the block of a host. -/
def readHost (opens : Bytes → Bytes → Bool) (bound : ℕ) (block : IStream) : ParseM Unit :=
  tryCatch
    (do
      let (config, _) ← parseBlock (handleHostToken bound) bound newHost block
      let config ← checkHost config
      addHost opens config)
    fun _ => modify fun g => { g with error := true }

def parseHost (opens : Bytes → Bytes → Bool) (bound : ℕ) (s : IStream) : ParseM IStream := do
  let (block, s) ← nextBlock s
  readHost opens bound block
  return s

def handleConfigToken (opens : Bytes → Bytes → Bool) (bound : ℕ) (token : Bytes) (s : IStream) :
    ParseM IStream := do
  if token = ascii "server" then parseHost opens bound s
  else if token = ascii "default_error_pages" then
    modify fun g => { g with default_error_pages := [] }
    let (path, s) ← parsePath [] (some "default error page location") none s
    modify fun g => { g with default_error_pages := path }
    return s
  else throw (.unknownToken token)

/-- The directives outside of all blocks. -/
def configLoop (opens : Bytes → Bytes → Bool) (bound : ℕ) : ℕ → IStream → ParseM Unit
  | 0, _ => halt .unfinished
  | fuel + 1, s => do
    let (ret, token, s) ← readWord false [] s
    if ret = 0 then
      let s ← handleConfigToken opens bound token s
      let (found, s) ← checkSemiColon s
      if found then configLoop opens bound fuel s else throw .missingSemicolon
    else if ret = EOF then return ()
    else throw (.unexpectedToken token)

/-- `parseConfigFile` on the text of a file that could be opened. -/
def parseConfigFile (opens : Bytes → Bytes → Bool) (bound : ℕ) (text : Bytes) : ParseM ℤ := do
  let res ← tryCatch
    (do
      configLoop opens bound bound (.ofText text 0)
      return 0)
    fun e => return if e = .lastBlock then 0 else 1
  if res ≠ 0 then return res
  else
    let g ← get
    if g.default_error_pages = [] then throw (.missingToken "default_error_pages") else return 0

end Webserveau.ConfigParser
