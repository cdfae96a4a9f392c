import Webserveau.Responses

/-!
What a finished cgi process answers with.
The header lines of its output are read from the first `BUFFER_SIZE` bytes and decide
between a document, a redirection the client sees and one the server follows itself.
The loop over lines carries a bound that the length of the output never exceeds.
-/
namespace Webserveau.Requests

open ByteStrings OrderedMaps Formats

/-- The fields of a cgi process that its header parser works on. -/
structure CgiReader where
  line : Bytes := []
  index : ℕ := 0
  headers : HeaderMap := OrderedMap.empty
  hints : ResHints

namespace CgiReader

def getLine (p : CgiReader) (buffer : Bytes) : Checked (Option (CgiReader × Bytes)) := do
  match find CRLF buffer with
  | none => return none
  | some idx =>
    let line ← substr buffer 0 idx
    let buffer ← substrFrom buffer (idx + 2)
    return some ({ p with line := line, index := p.index + (idx + 2) }, buffer)

def extractHeader (p : CgiReader) : Checked (ℤ × CgiReader) := do
  match find (ascii ":") p.line with
  | none => return (500, p)
  | some idx =>
    let key ← substr p.line 0 idx
    let value ← substr p.line (idx + 1) p.line.length
    let value := value.dropWhile (· = 32)
    if stricmp key (ascii "Set-Cookie") = 0 then
      return (0, { p with
        hints := { p.hints with cookies := p.hints.cookies ++ [value] }, line := [] })
    else return (0, { p with headers := p.headers.insert key value, line := [] })

/-- The loop over header lines; the code is not 0 when a line has no colon. -/
def readLines : ℕ → CgiReader → Bytes → Checked (ℤ × CgiReader)
  | 0, p, _ => return (0, p)
  | fuel + 1, p, buffer => do
    match ← p.getLine buffer with
    | none => return (0, p)
    | some (p, buffer) =>
      if p.line = [] then return (0, p)
      let (res, p) ← p.extractHeader
      if res ≠ 0 then
        return (res, { p with hints := { p.hints with status := 500 } })
      readLines fuel p buffer

end CgiReader

/-- What is read from the file a process writes to. -/
def outputBuffer (fs : FileSystem) (path : Bytes) : Bytes :=
  ((fs.content path).getD []).take BUFFER_SIZE

namespace Request

def setUri (r : Request) (uri : Bytes) : Request := { r with uri := uri }

/-- The type a process gives to its document is kept for the response. -/
def retrieveType (headers : HeaderMap) (hints : ResHints) : ResHints :=
  match headers.find? (ascii "Content-Type") with
  | none => hints
  | some value =>
    { hints.addHeader (ascii "Content-Type") value with hasBody := true }

def inspectHeaders (headers : HeaderMap) (r : Request) : CgiRes × Request :=
  let location := headers.find? (ascii "Location")
  if headers.entries = [] then (.error, r)
  else if (location.map (List.take 7)) = some (ascii "http://") then
    let hints := r.resHints.addHeader (ascii "Location") (location.getD [])
    (.clientRedirect, { r with
      resHints := retrieveType headers { hints with status := 302 } })
  else if location.bind List.head? = some 47 then
    (.localRedirect, { (r.setUri (location.getD [])) with
      resHints := { r.resHints with index := 0 } })
  else
    let failed := (headers.find? (ascii "Status")).map fun value =>
      (getInt value 10 r.resHints.status).1
    if failed.getD 0 ≠ 0 then (.doc, r.setHintStatus 500)
    else
      (.doc, { r with
        resHints := retrieveType headers { r.resHints with status := 200, hasBody := false } })

/-- `parseHeaders` of a cgi process; a line without a colon ends it with no verdict. -/
def parseCgiHeaders (fs : FileSystem) (r : Request) : Checked (CgiRes × Request) := do
  let buffer := outputBuffer fs r.resHints.path
  let (res, p) ← CgiReader.readLines (buffer.length + 1) { hints := r.resHints } buffer
  if res ≠ 0 then return (.none, { r with resHints := p.hints })
  return inspectHeaders p.headers { r with resHints := { p.hints with index := p.index } }

end Request

end Webserveau.Requests
