import Webserveau.BodyParsing
import Webserveau.CgiProcesses
import Webserveau.HeadParsing

/-!
A client: one connection with the request it is sending and the response it is owed.
The trace lists what the server has done for the client so far. It is read by no
function and only serves to state what a run does.
-/
namespace Webserveau.Clients

open ByteStrings OrderedMaps Formats Requests

inductive HeaderStatus
  | ongoing
  | ready
  | done
  deriving DecidableEq

inductive BodyStatus
  | none
  | ongoing
  | done
  deriving DecidableEq

inductive Mode
  | read
  | write
  | error
  deriving DecidableEq

/-- A server always has a host, so an unknown name can fall back to the first one. The
directory of error pages for clients without a host comes from the configuration. -/
structure ListenServer where
  hostMap : OrderedMap Bytes Host byteLess
  default_error_pages : Bytes := []
  inhabited : hostMap.entries ≠ []

namespace ListenServer

/-- The host of a name, or the first of the map. -/
def bindClient (server : ListenServer) (hostname : Bytes) : Host :=
  (server.hostMap.find? hostname).getD (server.hostMap.entries.head server.inhabited).2

end ListenServer

/-- A running cgi process, with the name generated for its output file. -/
structure CGIProcess where
  output : Bytes
  pid : ℤ := 0
  deriving DecidableEq

/-- What `waitpid` and the clock say of a child process. -/
inductive ChildState
  | running
  | expired
  | failed
  | exited
  deriving DecidableEq

/-- What a response is made from: the request with its status, the directory of the error
pages, and what the file system and the clock answer. -/
structure Origin where
  request : Request
  pages : Bytes
  served : FileSystem
  date : Bytes

/-- What the server does that is seen outside of the client. A response that is not made for
a request has no origin. -/
inductive Action
  | checked (res : ℤ)
  | bodyDone (method : Option Method) (uri : Bytes) (headers : HeaderMap)
    (stream : Option BodyStream)
  | opened (path : Bytes)
  | deleted (path : Bytes)
  | removed (path : Bytes)
  | spawned (output : Bytes)
  | destroyed (output path : Bytes)
  | responded (status : ℤ) (connection : Bytes) (buffers : List Bytes) (origin : Option Origin)
  | sent (bytes : Bytes)
  | terminated

structure Client where
  listenServer : ListenServer
  host : Option Host := none
  request : Option Request := none
  response : Option Response := none
  headerStatus : HeaderStatus := .ongoing
  bodyStatus : BodyStatus := .none
  mode : Mode := .read
  buffer : Bytes := []
  bodyFileName : Bytes := []
  bodyStream : Option BodyStream := none
  outBuffers : List Bytes := []
  cgiProcess : Option CGIProcess := none
  alive : Bool := true
  trace : List Action := []

namespace Client

def newClient (server : ListenServer) : Client := { listenServer := server }

def record (c : Client) (action : Action) : Client := { c with trace := c.trace ++ [action] }

/-- The current request, a new one when there is none. -/
def getRequest (c : Client) : Request := c.request.getD {}

def setRequest (c : Client) (r : Request) : Client := { c with request := some r }

def setHost (c : Client) (hostname : Bytes) : Client :=
  if c.host.any fun host => host.checkServerName hostname then c
  else { c with host := some (c.listenServer.bindClient hostname) }

def setResponse (c : Client) (response : Response) : Client := { c with response := some response }

def clearResponse (c : Client) : Client := { c with response := none }

def setMode (c : Client) (mode : Mode) : Client := { c with mode := mode }

/-- The file is created or truncated; `opens` tells whether it could be. -/
def setBodyFile (c : Client) (path : Bytes) (opens : Bool) : Client :=
  let r := c.getRequest
  let r := { r with resHints := { r.resHints with bodyFileName := path } }
  if path ≠ [] then
    ({ c.setRequest r with
      bodyStream := some { opened := opens }
      bodyFileName := path } : Client).record (.opened path)
  else { c.setRequest r with bodyStream := none, bodyFileName := [] }

/-- The file of an unfinished or refused body is removed with its stream. -/
def deleteBodyStream (c : Client) : Client :=
  match c.bodyStream with
  | none => c
  | some _ =>
    let c := { c with bodyStream := none }
    if c.request.any fun r => r.resHints.unlink || 300 ≤ r.resHints.status then
      c.record (.removed c.bodyFileName)
    else c

/-- The destructor of a process removes the file at the path of the hints. -/
def deleteCGIProcess (c : Client) : Client :=
  match c.cgiProcess with
  | none => c
  | some p =>
    { c with cgiProcess := none }.record (.destroyed p.output c.getRequest.resHints.path)

def clear (c : Client) : Client :=
  let c := c.deleteBodyStream
  let c := c.deleteCGIProcess
  let c := { c with request := none }
  let c := c.clearResponse
  { c with bodyFileName := [], bodyStatus := .none, headerStatus := .ongoing }

/-- The client is deleted and its connection closed. -/
def terminate (c : Client) : Client := { c.clear with alive := false }.record .terminated

/-- Parse the head or the body, whichever is due, from the buffer and the bytes read. -/
def parseRequest (c : Client) (bufferIn : Bytes) : Checked (ℤ × Client) := do
  let request := c.getRequest
  let buffer := c.buffer ++ bufferIn
  if c.headerStatus = .ongoing then
    let (res, r, buffer) ← request.parseHeaders buffer
    return (res, { c.setRequest r with
      buffer := buffer
      headerStatus := if res < 0 then .ready else .ongoing })
  else if c.headerStatus = .done ∧ c.bodyStatus = .ongoing then
    let (res, (r, bodyStream), buffer) ← Request.parseInput (request, c.bodyStream) buffer
    return (res, { c.setRequest r with
      buffer := buffer
      bodyStream := bodyStream
      bodyStatus := if res < 0 then .done else .ongoing })
  else return (0, { c.setRequest request with buffer := buffer })

end Client

end Webserveau.Clients
