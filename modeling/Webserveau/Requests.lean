import Webserveau.Formats

/-!
The data of a request: its parsed uri, the hints collected for the response, and
the parser state that survives between two reads of the connection.
-/
namespace Webserveau.Requests

open ByteStrings OrderedMaps Formats

inductive Method
  | GET
  | POST
  | PUT
  | DELETE
  | HEAD
  deriving DecidableEq

/-- The bit of a method in the `methods` masks. -/
def Method.index : Method → ℕ
  | .GET => 0
  | .POST => 1
  | .PUT => 2
  | .DELETE => 3
  | .HEAD => 4

def METHOD_STR : List (Bytes × Method) :=
  [(ascii "GET", .GET), (ascii "POST", .POST), (ascii "PUT", .PUT),
    (ascii "DELETE", .DELETE), (ascii "HEAD", .HEAD)]

/-- `none` plays the index -1 of an unknown method. -/
def getMethodIndex (method : Bytes) : Option Method :=
  (METHOD_STR.find? fun m => m.1 = method).map Prod.snd

/-- Parser phases `TERM`, `ONGOING`, `RLINE` and `NEW`. -/
inductive Status
  | term
  | ongoing
  | rline
  | new
  deriving DecidableEq

inductive FinalStatus
  | header
  | host
  | body
  | trailer
  | cont
  | complete
  | error
  deriving DecidableEq

/-- The numeric order of the enumeration. -/
def FinalStatus.index : FinalStatus → ℕ
  | .header => 0
  | .host => 1
  | .body => 2
  | .trailer => 3
  | .cont => 4
  | .complete => 5
  | .error => 6

inductive ReqType
  | noMatch
  | cgi
  | static
  | dir
  deriving DecidableEq

inductive CgiRes
  | error
  | none
  | doc
  | localRedirect
  | clientRedirect
  deriving DecidableEq

abbrev RES_CONTINUE : ℤ := 100
abbrev RES_OK : ℤ := 200
abbrev RES_CREATED : ℤ := 201
abbrev RES_NO_CONTENT : ℤ := 204
abbrev RES_BAD_REQUEST : ℤ := 400
abbrev RES_FORBIDDEN : ℤ := 403
abbrev RES_NOT_FOUND : ℤ := 404
abbrev RES_METHOD_NOT_ALLOWED : ℤ := 405
abbrev RES_TIMEOUT : ℤ := 408
abbrev RES_REQUEST_ENTITY_TOO_LARGE : ℤ := 413
abbrev RES_UNSUPPORTED_MEDIA_TYPE : ℤ := 415
abbrev RES_EXPECTATION_FAILED : ℤ := 417
abbrev RES_INTERNAL_ERROR : ℤ := 500
abbrev RES_NOT_IMPLEMENTED : ℤ := 501
abbrev RES_SERVICE_UNAVAILABLE : ℤ := 503
abbrev RES_HTTP_VERSION_NOT_SUPPORTED : ℤ := 505

structure URI where
  filename : Bytes := []
  path : Bytes := []
  root : Bytes := []
  pathInfo : Bytes := []
  extension : Bytes := []
  query : Bytes := []
  deriving DecidableEq

/-- The rules of a location; a redirection names one of the handled statuses and at
least one address. -/
structure Location where
  root : Bytes := []
  methods : ℕ := 2 ^ Method.GET.index + 2 ^ Method.HEAD.index
  dir_listing : Bool := false
  default_uri : Bytes := []
  upload : Bool := false
  upload_root : Bytes := []
  redir : ℤ := 0
  addr_redir : List Bytes := []
  redir_valid : redir ≠ 0 → redir ∈ ([300, 301, 302, 303, 307, 308] : List ℤ) ∧
    addr_redir ≠ [] := by simp
  deriving DecidableEq

theorem unredirected : (0 : ℤ) ≠ 0 → (0 : ℤ) ∈ ([300, 301, 302, 303, 307, 308] : List ℤ) ∧
    ([] : List Bytes) ≠ [] := fun h => absurd rfl h

structure CGIConfig where
  exec : Bytes := []
  root : Bytes := []
  methods : ℕ := Method.GET.index
  extension : Bytes := []
  deriving DecidableEq

structure ResHints where
  parsedUri : URI := {}
  path : Bytes := []
  extension : Bytes := []
  scriptPath : Bytes := []
  bodyFileName : Bytes := []
  alreadyExist : Bool := false
  unlink : Bool := false
  hasBody : Bool := false
  verboseError : Bytes := []
  status : ℤ := 0
  type : ReqType := .noMatch
  cgiRedir : CgiRes := .none
  index : ℕ := 0
  method : Option Method := none
  locationRules : Option Location := none
  cgiRules : Option CGIConfig := none
  redirList : Option (List Bytes) := none
  headers : HeaderMap := OrderedMap.empty
  cookies : List Bytes := []

structure Request where
  headers : HeaderMap := OrderedMap.empty
  uri : Bytes := []
  status : Status := .new
  header_size : ℤ := 0
  line : Bytes := []
  body_max_size : ℤ := 0
  len : ℤ := 0
  content_length : ℤ := -1
  chunked : Bool := false
  b_status : Status := .new
  chunked_body_size : ℤ := 0
  chunked_status : Bool := false
  trailer_status : Status := .term
  trailer_size : ℤ := 0
  final_status : FinalStatus := .host
  type : ReqType := .noMatch
  method : Option Method := none
  resHints : ResHints := {}

namespace Request

def getHeader (r : Request) (key : Bytes) : Bytes := (r.headers.find? key).getD []

def checkHeader (r : Request) (key : Bytes) : Bool := (r.headers.find? key).isSome

def removeHeader (r : Request) (key : Bytes) : Request := { r with headers := r.headers.erase key }

/-- Every parser error goes through here; the result is the error code. -/
def fillError (r : Request) (error : ℤ) (verbose : Bytes) : ℤ × Request :=
  (error, { r with
    resHints := { r.resHints with status := error, verboseError := verbose }
    line := []
    final_status := .error })

def getError (r : Request) : ℤ := r.resHints.status

def setStatus (r : Request) (status : FinalStatus) : Request := { r with final_status := status }

def setChunked (r : Request) (value : Bool) : Request := { r with chunked := value }

def setContentLength (r : Request) (value : ℤ) : Request := { r with content_length := value }

def setBodyMaxSize (r : Request) (size : ℤ) : Request := { r with body_max_size := size }

def getBodySize (r : Request) : ℤ :=
  if r.chunked then r.chunked_body_size else r.content_length

/-- The size limits in force in the current phase. -/
def checkSizes (r : Request) : ℤ × Request :=
  if r.status = .ongoing ∨ r.status = .new then
    if r.header_size > HEADER_MAX_BUFFER * BUFFER_SIZE ∨ r.line.length > BUFFER_SIZE then
      r.fillError 431 (ascii "Request header too large")
    else (0, r)
  else if r.status = .term ∧ r.b_status = .ongoing then
    if r.chunked ∧ r.chunked_body_size > r.body_max_size then
      r.fillError 413 (ascii "Request entity too large")
    else (0, r)
  else if r.trailer_status = .ongoing then
    if r.trailer_size > BUFFER_SIZE then
      r.fillError 400 (ascii "Trailer header too large")
    else (0, r)
  else (0, r)

/-- Move the next line of the joined text into `line`; 1 when no line is complete. -/
def getLine (r : Request) (buffer : Bytes) : Checked (ℤ × Request × Bytes) := do
  let buffer := r.line ++ buffer
  match find CRLF buffer with
  | none => return (1, { r with line := buffer }, [])
  | some idx =>
    let line ← substr buffer 0 idx
    let buffer ← substrFrom buffer (idx + CRLF.length)
    return (0, { r with line := line }, buffer)

/-- Blanks at the front of the line are erased one by one at position zero. -/
def trimSpace (r : Request) : Request := { r with line := r.line.dropWhile isBlank }

end Request

/-- Name and rest of a header line; `none` when it has no colon. -/
def getHeaderName (line : Bytes) : Checked (Option (Bytes × Bytes)) := do
  match find (ascii ":") line with
  | none => return none
  | some idx =>
    let header ← substr line 0 idx
    let line ← substrFrom line (idx + 1)
    return some (header, line)

namespace Request

/-- The next line, in terms of the first CRLF of the joined text. -/
theorem getLine_eq (r : Request) (buffer : Bytes) :
    r.getLine buffer = .ok (match cutAt 13 10 (r.line ++ buffer) with
      | none => (1, { r with line := r.line ++ buffer }, [])
      | some (line, rest) => (0, { r with line := line }, rest)) := by
  unfold getLine cutAt
  cases h : find [13, 10] (r.line ++ buffer) with
  | none => simp [CRLF, h, pure, Except.pure]
  | some idx =>
    have hlen := find_lt_length h
    simp only [CRLF, h, Option.map_some, substr_zero]
    rw [substrFrom_of_le (by simpa using hlen)]
    rfl

end Request

/-- Name and rest around the first colon. -/
def splitColon (line : Bytes) : Option (Bytes × Bytes) :=
  if 58 ∈ line then some (line.takeWhile (· ≠ 58), (line.dropWhile (· ≠ 58)).tail) else none

theorem getHeaderName_eq (line : Bytes) : getHeaderName line = .ok (splitColon line) := by
  have hcolon : ascii ":" = [58] := rfl
  unfold getHeaderName splitColon
  rw [hcolon, find_singleton]
  by_cases h : (58 : UInt8) ∈ line
  · have hsplit := split_at_mem h
    have hlen := congrArg List.length hsplit
    simp only [List.length_append, List.length_cons] at hlen
    simp only [h, if_true]
    rw [substr_zero, substrFrom_of_le (by omega), take_length_takeWhile,
      ← List.drop_drop, drop_length_takeWhile, List.drop_one]
    rfl
  · simp only [h, if_false]
    rfl

end Webserveau.Requests
