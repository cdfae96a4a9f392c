import Webserveau.BlockExtraction
import Webserveau.ConfigParser
import Webserveau.WordReading

/-!
The parsers of directives as computations that touch their stream in three ways only.
They read words, check for semicolons and cut out blocks, which they read in the same way.
What is true of these calls is true of every parser of a directive.
-/
namespace Webserveau.ConfigReadings

open ByteStrings OrderedMaps Formats Requests Registries ConfigWords ConfigBlocks ConfigParser
  ConfigParser.ParseM

/-- What ends at once, with a value or an exception. -/
inductive Settled {α : Type} : ParseM α → Prop
  | value (a : α) : Settled (pure a)
  | exception (e : ConfigException) : Settled (throw e)

/-- Computations on a stream of at most so many characters. A word that is not joined to
another one leaves fewer of them; the computations that are total rely on it. -/
inductive Reading (total : Bool) : ℕ → {α : Type} → (IStream → ParseM (α × IStream)) → Prop
  | done {n : ℕ} {α : Type} (a : α) : Reading total n fun s => pure (a, s)
  | fail {n : ℕ} {α : Type} (e : ConfigException) : Reading total n (α := α) fun _ => throw e
  | stuck {n : ℕ} {α : Type} : total = false → Reading total n (α := α) fun _ => halt .unfinished
  | word {n : ℕ} {α : Type} {dest : Bytes} {k : UInt8 → Bytes → IStream → ParseM (α × IStream)} :
      (∀ ret word, ret ≠ 0 → Reading total n (k ret word)) →
      (∀ i word, i ≤ n → (total = true → dest = [] → i < n) → Reading total i (k 0 word)) →
      Reading total n fun s => readWord false dest s >>= fun out => k out.1 out.2.1 out.2.2
  | unnamed {n : ℕ} (dest : Bytes) : Reading total n (requiredWord dest none)
  | semicolon {n : ℕ} : Reading total n checkSemiColon
  | block {n : ℕ} {β γ : Type} {m : IStream → ParseM (β × IStream)} {f : β → ParseM γ} (c : γ) :
      Reading total n m → (∀ b, Settled (f b)) →
      Reading total n fun s => nextBlock s >>= fun out =>
        contain c (m out.1 >>= fun p => f p.1) >>= fun c => pure (c, out.2)
  | bind {n : ℕ} {α β : Type} {m : IStream → ParseM (α × IStream)}
      {f : α → IStream → ParseM (β × IStream)} :
      Reading total n m → (∀ i a, i ≤ n → Reading total i (f a)) →
      Reading total n fun s => m s >>= fun p => f p.1 p.2

/-- The turns suffice, where that matters. -/
def Enough (total : Bool) (n fuel : ℕ) : Prop := total = true → n < fuel

theorem Enough.below {total : Bool} {n i fuel : ℕ} (h : Enough total n fuel) (hi : i ≤ n) :
    Enough total i fuel := fun htotal => lt_of_le_of_lt hi (h htotal)

namespace Reading

variable {total : Bool} {n : ℕ} {α β : Type}

theorem ite {c : Prop} [Decidable c] {m m' : IStream → ParseM (α × IStream)}
    (h : c → Reading total n m) (h' : ¬ c → Reading total n m') :
    Reading total n fun s => if c then m s else m' s := by
  by_cases hc : c
  · simp only [if_pos hc]
    exact h hc
  · simp only [if_neg hc]
    exact h' hc

/-- The value may be changed. -/
theorem map {m : IStream → ParseM (α × IStream)} (h : Reading total n m) (f : α → β) :
    Reading total n fun s => m s >>= fun p => pure (f p.1, p.2) :=
  Reading.bind h fun _ a _ => Reading.done (f a)

theorem required (dest : Bytes) (id : Option String) : Reading total n (requiredWord dest id) := by
  cases id with
  | none => exact .unnamed dest
  | some id =>
    refine Reading.word (k := fun ret word s =>
      if ret ≠ 0 then missing (some id) else pure (word, s)) ?_ ?_
    · intro ret word hret
      simp only [if_pos hret]
      exact .fail _
    · intro i word _ _
      exact .done word

theorem values (maxNbr : ℕ) (words : List Bytes) :
    Reading total n (parseValues maxNbr words) := by
  induction maxNbr generalizing n words with
  | zero => exact .done words
  | succ maxNbr ih =>
    refine Reading.word (k := fun ret word s =>
      if ret = 0 then parseValues maxNbr (words ++ [word]) s else pure (words, s)) ?_ ?_
    · intro ret word hret
      simp only [if_neg hret]
      exact .done words
    · intro i word _ _
      exact ih _

/-- The directives of a block, when each of them is read. -/
theorem directives {handler : α → Bytes → IStream → ParseM (α × IStream)} {fuel : ℕ}
    (hn : Enough total n fuel)
    (hhandler : ∀ i obj token, i ≤ n → Reading total i (handler obj token)) (obj : α) :
    Reading total n (parseBlock handler fuel obj) := by
  induction fuel generalizing n obj with
  | zero => exact .stuck (Bool.eq_false_iff.mpr fun h => Nat.not_lt_zero _ (hn h))
  | succ fuel ih =>
    refine Reading.word (k := fun ret token s =>
      if ret = 0 then
        handler obj token s >>= fun p => checkSemiColon p.2 >>= fun q =>
          if q.1 then parseBlock handler fuel p.1 q.2 else throw .missingSemicolon
      else if ret = EOF then pure (obj, s)
      else throw (.unexpectedToken token)) ?_ ?_
    · intro ret token hret
      simp only [if_neg hret]
      exact ite (fun _ => .done obj) fun _ => .fail _
    · intro i token hi hless
      refine Reading.bind (f := fun obj s => checkSemiColon s >>= fun q =>
          if q.1 then parseBlock handler fuel obj q.2 else throw .missingSemicolon)
        (hhandler i obj token hi) ?_
      intro j obj hj
      refine Reading.bind (f := fun found s =>
        if found then parseBlock handler fuel obj s else throw .missingSemicolon) .semicolon ?_
      intro l found hl
      cases found with
      | true =>
        refine ih (fun htotal => ?_) (fun i obj token hle => hhandler i obj token (by omega)) obj
        have hfewer := hless htotal rfl
        have hfuel := hn htotal
        omega
      | false => exact .fail _

theorem path (dest : Bytes) (id : Option String) (restrictEnd : Option UInt8) :
    Reading total n (parsePath dest id restrictEnd) :=
  map (required dest id) (endPath restrictEnd)

theorem boolean (id : Option String) : Reading total n (parseBoolean id) := by
  refine Reading.bind (f := fun word s =>
    if word = ascii "on" then pure (true, s)
    else if word = ascii "off" then pure (false, s)
    else throw .invalidBoolean) (required [] id) ?_
  intro i word _
  exact ite (fun _ => .done true) fun _ => ite (fun _ => .done false) fun _ => .fail _

/-- What is settled needs no stream. -/
theorem settled {m : ParseM α} (h : Settled m) :
    Reading total n fun s => m >>= fun a => pure (a, s) := by
  cases h with
  | value a => exact .done a
  | exception e => exact .fail e

end Reading

theorem settled_methodBits (dest : ℕ) (methods : List Bytes) : Settled (methodBits dest methods) := by
  induction methods generalizing dest with
  | nil => exact .value dest
  | cons method methods ih =>
    unfold methodBits
    split
    · exact .exception _
    · exact ih _

theorem settled_addPorts (config : HostConfig) (ports : List Bytes) :
    Settled (addPorts config ports) := by
  induction ports generalizing config with
  | nil => exact .value config
  | cons port ports ih =>
    unfold addPorts
    split
    · exact .exception _
    · exact ih _

namespace Reading

variable {total : Bool} {n bound : ℕ}

theorem allowedMethods : Reading total n parseAllowedMethods := by
  refine Reading.bind (f := fun methods s => methodBits 0 methods >>= fun dest => pure (dest, s))
    (values _ []) ?_
  intro i methods _
  exact settled (settled_methodBits 0 methods)

/-- What is made of the values of a redirection. -/
def redirectTo (location : Location) (values : List Bytes) (s : IStream) :
    ParseM (Location × IStream) :=
  match values with
  | status :: address :: addresses =>
    if (getInt status 10 0).1 ≠ 0 then throw .invalidRedirection
    else if h : RedirectionStatus (getInt status 10 0).2 then
      pure (withRedirection location (getInt status 10 0).2 address addresses h, s)
    else throw .invalidRedirection
  | _ => throw (.missingToken "redirection values")

theorem redirection (location : Location) :
    Reading total n (parseRedirection location) := by
  refine Reading.bind (f := redirectTo location) (values _ []) ?_
  intro i values _
  rcases values with _ | ⟨status, _ | ⟨address, addresses⟩⟩
  · exact .fail _
  · exact .fail _
  · refine ite (fun _ => .fail _) fun _ => ?_
    by_cases h : RedirectionStatus (getInt status 10 0).2
    · simp only [dif_pos h]
      exact .done _
    · simp only [dif_neg h]
      exact .fail _

theorem locationToken (location : Location) (token : Bytes) :
    Reading total n (handleLocationToken location token) := by
  refine ite (fun _ => map (path ..) fun root => { location with root := root }) fun _ => ?_
  refine ite (fun _ => map (allowedMethods) fun methods => { location with methods := methods })
    fun _ => ?_
  refine ite (fun _ => map (boolean none) fun dir_listing =>
    { location with dir_listing := dir_listing }) fun _ => ?_
  refine ite (fun _ => map (boolean none) fun upload => { location with upload := upload })
    fun _ => ?_
  refine ite (fun _ => map (required ..) fun default_uri =>
    { location with default_uri := default_uri }) fun _ => ?_
  refine ite (fun _ => map (path ..) fun upload_root =>
    { location with upload_root := upload_root }) fun _ => ?_
  exact ite (fun _ => redirection location) fun _ => .fail _

theorem cgiConfigToken (cgi : CGIConfig) (token : Bytes) :
    Reading total n (handleCGIConfigToken cgi token) := by
  refine ite (fun _ => map (path ..) fun root => { cgi with root := root }) fun _ => ?_
  refine ite (fun _ => map (allowedMethods) fun methods => { cgi with methods := methods })
    fun _ => ?_
  refine ite (fun _ => map (path ..) fun exec => { cgi with exec := exec }) fun _ => ?_
  exact ite (fun _ => map (required ..) fun extension => { cgi with extension := extension })
    fun _ => .fail _

end Reading

theorem settled_checkLocation (location : Location) : Settled (checkLocation location) := by
  unfold checkLocation
  split
  · exact .exception _
  · exact .value ()

theorem settled_checkCGIConfig (cgi : CGIConfig) : Settled (checkCGIConfig cgi) := by
  unfold checkCGIConfig
  split
  · exact .exception _
  · split
    · exact .exception _
    · exact .value ()

/-- A check in front of a value. -/
theorem Settled.andValue {α : Type} {m : ParseM Unit} (h : Settled m) (a : α) :
    Settled (m >>= fun _ => pure a) := by
  cases h with
  | value => exact .value a
  | exception e => exact .exception e

namespace Reading

variable {total : Bool} {n bound : ℕ} {α : Type}

theorem nested {handler : α → Bytes → IStream → ParseM (α × IStream)} {check : α → ParseM Unit}
    (hn : Enough total n bound)
    (hhandler : ∀ i obj token, i ≤ n → Reading total i (handler obj token))
    (hcheck : ∀ obj, Settled (check obj)) (add : Host → List Bytes → α → Host) (obj : α)
    (config : HostConfig) : Reading total n (parseNested handler check add bound obj config) := by
  refine Reading.bind (f := fun names s => nextBlock s >>= fun out =>
    contain config (parseBlock handler bound obj out.1 >>= fun p =>
      check p.1 >>= fun _ => pure { config with host := add config.host names p.1 }) >>=
        fun c => pure (c, out.2)) (values _ []) ?_
  intro i names hi
  refine Reading.block (f := fun obj =>
    check obj >>= fun _ => pure { config with host := add config.host names obj }) config ?_ ?_
  · exact directives (hn.below hi) (fun j obj token hj => hhandler j obj token (by omega)) obj
  · exact fun obj => (hcheck obj).andValue _

theorem ports (config : HostConfig) : Reading total n (parsePorts config) := by
  refine Reading.bind (f := fun ports s =>
    if ports = [] then throw (.missingToken "port")
    else addPorts config ports >>= fun config => pure (config, s)) (values _ []) ?_
  intro i ports _
  exact ite (fun _ => .fail _) fun _ => settled (settled_addPorts config ports)

theorem serverName (config : HostConfig) :
    Reading total n (parseServerName config) := by
  refine Reading.bind (f := fun names s =>
    if names = [] then throw (.missingToken "server_name")
    else pure ({ config with host := { config.host with server_names := names } }, s))
    (values _ config.host.server_names) ?_
  intro i names _
  exact ite (fun _ => .fail _) fun _ => .done _

theorem bodyMaxSize (config : HostConfig) : Reading total n (parseBodyMaxSize config) := by
  refine Reading.bind (f := fun word s =>
    if (getInt word 10 config.host.body_max_size).1 ≠ 0 then throw .invalidMaxBodySize
    else pure ({ config with host := { config.host with
      body_max_size := (getInt word 10 config.host.body_max_size).2 } }, s))
    (required [] (some "body_max_size")) ?_
  intro i word _
  exact ite (fun _ => .fail _) fun _ => .done _

theorem hostToken (hn : Enough total n bound) (config : HostConfig) (token : Bytes) :
    Reading total n (handleHostToken bound config token) := by
  refine ite (fun _ => ports config) fun _ => ?_
  refine ite (fun _ => map (required ..) fun addr => { config with addr := addr }) fun _ => ?_
  refine ite (fun _ => serverName config) fun _ => ?_
  refine ite (fun _ => map (path ..) fun dir_errors =>
    { config with host := { config.host with dir_errors := dir_errors } }) fun _ => ?_
  refine ite (fun _ => bodyMaxSize config) fun _ => ?_
  refine ite (fun _ => nested hn (fun i obj token hi => locationToken obj token)
    settled_checkLocation addLocation {} config) fun _ => ?_
  exact ite (fun _ => nested hn (fun i obj token hi => cgiConfigToken obj token)
    settled_checkCGIConfig addCGIConfig {} config) fun _ => .fail _

/-- The block of a host is read as all blocks are. -/
theorem hostBlock (hn : Enough total n bound) (config : HostConfig) :
    Reading total n (parseBlock (handleHostToken bound) bound config) :=
  directives hn (fun _ config token hi => hostToken (hn.below hi) config token) config

end Reading

end Webserveau.ConfigReadings
