import Webserveau.Clients

/-!
The event loop, as one client sees it.
An event carries what the system calls made while it is handled answer: the file system
at each place that asks it, the clock, `fork`, `waitpid`, `read` and `write`. Every order
of events and every answer is allowed, so a run is any list of events.
-/
namespace Webserveau.EventLoop

open ByteStrings OrderedMaps Formats Requests Clients Checks

/-- The answers to the calls made while one request is taken up. -/
structure Env where
  resource : FileSystem
  upload : FileSystem
  served : FileSystem
  opens : Bool
  bodyTime : ℤ
  outputTime : ℤ
  pid : ℤ
  date : Bytes

/-- An event of the connection; `incoming` is what `read` gives, with an absent value for
an error and an empty one for a closed connection. -/
structure EpollEvent where
  hup : Bool := false
  epollin : Bool := false
  epollout : Bool := false
  incoming : Option Bytes := none
  written : Bytes → ℤ := fun bytes => bytes.length
  child : ChildState := .running
  output : FileSystem
  env : Env
  next : Env

/-- Either epoll reports an event, or the loop comes by to look for a timeout. -/
inductive Event
  | epoll (event : EpollEvent)
  | timeOut (expired : Bool) (env : Env)

inductive Situation
  | pending
  | close
  | keepAlive
  | continue
  deriving DecidableEq

abbrev Handler := Client → Checked (ℤ × Client)

def checkForbiddenHeaders (request : Request) : ℤ × Request :=
  if request.getHeader (ascii "accept-ranges") ≠ [] then
    ({ request with resHints := { request.resHints with
      verboseError := ascii "accept-range header not implemented" } } : Request).withStatus
      RES_NOT_IMPLEMENTED
  else if request.checkHeader (ascii "content-encoding") ∧
      request.getHeader (ascii "content-encoding") ≠ ascii "identity" then
    request.withStatus RES_UNSUPPORTED_MEDIA_TYPE
  else if request.checkHeader (ascii "transfer-encoding") ∧
      request.getHeader (ascii "transfer-encoding") ≠ ascii "chunked" then
    ({ request with resHints := { request.resHints with
      verboseError := ascii "chunked is the only value supported for transfer-encoding" } } :
      Request).withStatus RES_NOT_IMPLEMENTED
  else (0, request)

def assignHost (c : Client) : ℤ × Client :=
  let request := c.getRequest
  if request.checkHeader (ascii "host") = false then
    (RES_BAD_REQUEST, c.setRequest { request with resHints := { request.resHints with
      verboseError := ascii "request must include an host header"
      status := RES_BAD_REQUEST } })
  else (0, c.setHost (request.getHeader (ascii "host")))

def getMaxSize (c : Client) : ℤ := c.host.elim 0 Host.getMaxSize

/-- The value of `bodyLength`; the failure of `getInt` is not looked at. -/
def bodyLength (request : Request) : ℤ :=
  if request.checkHeader (ascii "content-length") then
    (getInt (request.getHeader (ascii "content-length")) 10 (-1)).2
  else -1

/-- The request with its content length, when it has one above 0. -/
def withLength (request : Request) : Request :=
  if bodyLength request > 0 then request.setContentLength (bodyLength request) else request

def isChunked (request : Request) : Bool :=
  request.getHeader (ascii "transfer-encoding") = ascii "chunked"

/-- A body is to be read when it has a length above 0 or comes in chunks. -/
def announceBody (c : Client) : Client :=
  let request := c.getRequest
  if bodyLength request > 0 ∨ isChunked request then
    let request := if isChunked request then request.setChunked true else request
    { c.setRequest (request.setBodyMaxSize (getMaxSize c)) with bodyStatus := .ongoing }
  else c

/-- The limit is that of an announced length; a request without one is not compared. -/
def checkBodyLength (c : Client) : ℤ × Client :=
  let request := c.getRequest
  if request.checkHeader (ascii "content-length") ∧ bodyLength request > getMaxSize c then
    (RES_REQUEST_ENTITY_TOO_LARGE, c.setRequest
      (request.setHintStatus RES_REQUEST_ENTITY_TOO_LARGE))
  else (0, announceBody (c.setRequest (withLength request)))

def checkContinue (c : Client) : ℤ × Client :=
  let request := c.getRequest
  if request.getHeader (ascii "expect") = ascii "100-continue" then
    if c.bodyStatus = .none then
      let request := { request with resHints := { request.resHints with
        status := RES_BAD_REQUEST
        verboseError := ascii "Expect continue without entity" } }
      (RES_BAD_REQUEST, c.setRequest (request.removeHeader (ascii "expect")))
    else (RES_CONTINUE, c)
  else if request.getHeader (ascii "expect") ≠ [] then
    (RES_EXPECTATION_FAILED, c.setRequest
      ((request.setHintStatus RES_EXPECTATION_FAILED).removeHeader (ascii "expect")))
  else (0, c)

/-- The content type of a body is that of the response. -/
def keepContentType (c : Client) : Client :=
  let request := c.getRequest
  if request.checkHeader (ascii "content-type") then
    c.setRequest { request with resHints :=
      request.resHints.addHeader (ascii "content-type") (request.getHeader (ascii "content-type")) }
  else c

def setUnlink (c : Client) (unlink : Bool) : Client :=
  let request := c.getRequest
  c.setRequest { request with resHints := { request.resHints with unlink := unlink } }

/-- The first name of the host, as `generate_name` is given it. -/
def hostName (c : Client) : Bytes := (c.host.elim [] Host.server_names).headD []

/-- An upload to a path that is absent or holds a writable regular file. -/
def uploadTo (env : Env) (c : Client) (filePath : Bytes) (status : ℤ) (alreadyExist : Bool) :
    Client :=
  let request := c.getRequest
  let c := c.setRequest { request with resHints := { request.resHints with
    alreadyExist := alreadyExist
    status := status
    path := filePath } }
  keepContentType (setUnlink (c.setBodyFile filePath env.opens) false)

/-- The result of `defineBodyParsing` is not looked at by its caller. -/
def defineBodyParsing (env : Env) (c : Client) : Client :=
  let request := c.getRequest
  if request.type = .cgi then
    let name := if c.bodyStatus ≠ .none then generateName (some (hostName c)) env.bodyTime else []
    keepContentType (setUnlink (c.setBodyFile name env.opens) true)
  else if request.type = .static ∧ (request.method = some .POST ∨ request.method = some .PUT) then
    let filePath := request.resHints.locationRules.elim [] Host.uploadRoot ++
      request.resHints.parsedUri.path
    match env.upload.stat filePath with
    | none => uploadTo env c filePath RES_CREATED false
    | some (.regular, _) =>
      if env.upload.writable filePath = false then
        c.setRequest (request.setHintStatus RES_FORBIDDEN)
      else uploadTo env c filePath RES_OK true
    | some _ => c.setRequest (request.setHintStatus RES_FORBIDDEN)
  else keepContentType (c.setBodyFile [] env.opens)

def generateContinueResponse (c : Client) : Client :=
  let response := Response.singleLine 100 (ascii "100-continue")
  let buffers := response.buffers c.getRequest.resHints
  (({ c.setResponse response with outBuffers := c.outBuffers ++ buffers } : Client).setMode
    .write).record (.responded 100 [] buffers none)

/-- The end of `handleRequestHeaders`, once no check has refused the request. -/
def acceptHeaders (env : Env) (res : ℤ) (c : Client) : ℤ × Client :=
  let c := if c.getRequest.resHints.cgiRedir = .none then defineBodyParsing env c else c
  let c := { c with headerStatus := .done }
  if res = RES_CONTINUE then (0, generateContinueResponse c) else (res, c)

/-- A check of the request alone, as a check of its client. -/
def onRequest (check : Request → Checked (ℤ × Request)) (c : Client) : Checked (ℤ × Client) := do
  let (res, request) ← check c.getRequest
  return (res, c.setRequest request)

/-- The body length is looked at unless a cgi process has redirected the request. -/
def checkNewBody (c : Client) : ℤ × Client :=
  if c.getRequest.resHints.cgiRedir = .none then checkBodyLength c else (0, c)

/-- The check of `Expect` lets the answer 100 go on. -/
def finishHeaders (env : Env) (c : Client) : ℤ × Client :=
  let (res, c) := checkContinue c
  if res ≠ 0 ∧ res ≠ RES_CONTINUE then (res, c) else acceptHeaders env res c

def handleRequestHeaders (env : Env) : Handler := fun c =>
  andThen (.ok (assignHost c)) fun c =>
  andThen (onRequest Request.parseURI c) fun c =>
  andThen (onRequest (fun r => .ok (checkForbiddenHeaders r)) c) fun c =>
  andThen (.ok (checkNewBody c)) fun c =>
  andThen (onRequest (fun r => (c.host.getD {}).checkRequest env.resource r) c) fun c =>
  .ok (finishHeaders env c)

def handleDeleteMethod (c : Client) : Client := c.record (.deleted c.getRequest.resHints.path)

def handleRequestBodyDone (c : Client) : ℤ × Client :=
  let request := c.getRequest
  let c := c.record (.bodyDone request.method request.uri request.headers c.bodyStream)
  if request.type = .static ∧ (request.method = some .POST ∨ request.method = some .PUT) then
    (if request.getBodySize > 0 then request.resHints.status else RES_NO_CONTENT, c)
  else if request.type = .static ∧ request.method = some .DELETE then
    let c := handleDeleteMethod c
    (RES_NO_CONTENT, c.setRequest { request with
      resHints := { request.resHints with path := [] } })
  else (RES_OK, c)

/-- The directory of error pages for a client. -/
def errorPages (c : Client) : Bytes :=
  c.host.elim c.listenServer.default_error_pages Host.dir_errors

def fillErrorPage (pages : Bytes) (hints : ResHints) : ResHints :=
  if hints.status > 400 ∧ hints.status < 418 ∨ hints.status = 505 then
    ({ hints with
      path := pages ++ IntToString hints.status ++ ascii ".html"
      unlink := false } : ResHints).addHeader (ascii "content-type") (ascii "text/html")
  else hints

def fillAdditionnalHeaders (request : Request) (hints : ResHints) : ResHints :=
  if hints.status ≥ 200 ∧ hints.status < 300 then
    if request.checkHeader (ascii "connection") then
      hints.addHeader (ascii "connection") (request.getHeader (ascii "connection"))
    else hints.addHeader (ascii "connection") (ascii "keep-alive")
  else hints.addHeader (ascii "connection") (ascii "close")

/-- The names of the methods that a location and a cgi both allow. -/
def allowedMethods (hints : ResHints) : Bytes :=
  let names := (METHOD_STR.filter fun entry =>
    hints.locationRules.all (fun location => allows location.methods (some entry.2)) &&
      hints.cgiRules.all (fun cgi => allows cgi.methods (some entry.2))).map Prod.fst
  (ascii ",").intercalate names

def fillVerboseError (hints : ResHints) : ResHints :=
  if hints.status = RES_METHOD_NOT_ALLOWED then
    hints.addHeader (ascii "Allow") (allowedMethods hints)
  else if hints.status = RES_INTERNAL_ERROR then
    { hints with unlink := false, path := [], verboseError := ascii "Internal error" }
  else if hints.status = RES_SERVICE_UNAVAILABLE then
    { hints with
      unlink := false
      path := []
      verboseError := ascii "Service temporarly unavailable." }
  else if hints.status = RES_BAD_REQUEST then { hints with path := [], unlink := false }
  else hints

def fillResponse (pages : Bytes) (request : Request) : ResHints :=
  let hints := fillVerboseError
    (fillAdditionnalHeaders request (fillErrorPage pages request.resHints))
  { hints with
    type := request.type
    extension := hints.parsedUri.extension
    method := request.method }

/-- One pass through the `try` block; the flag tells that no exception was raised. -/
def tryResponse (env : Env) (c : Client) (status : ℤ) : Bool × Client :=
  let request := c.getRequest
  let request := if status ≠ 0 then request.setHintStatus status else request
  let (response, hints) := genResponse env.served env.date (fillResponse (errorPages c) request)
  let c := c.setRequest { request with resHints := hints }
  match response with
  | none => (false, c)
  | some response =>
    let buffers := response.buffers hints
    (true, ((({ c with outBuffers := c.outBuffers ++ buffers } : Client).setResponse
      response).setMode .write).record
        (.responded response.getStatus (hints.getHeader (ascii "connection")) buffers
          (some ⟨request, errorPages c, env.served, env.date⟩)))

/-- A response that cannot be made is replaced by status 500, once. -/
def generateResponse (env : Env) (c : Client) (status : ℤ) : ℤ × Client :=
  if c.response.isSome then (0, c)
  else
    let (made, c) := tryResponse env c status
    if made then (0, c)
    else if c.getRequest.resHints.status = RES_INTERNAL_ERROR then (-1, c.clearResponse)
    else
      let (made, c) := tryResponse env c.clearResponse RES_INTERNAL_ERROR
      if made then (0, c) else (-1, c.clearResponse)

/-- `execCGI`: the output file gets its name whether or not the process starts. -/
def execCGI (env : Env) (c : Client) : ℤ × Client :=
  let request := c.getRequest
  let name := generateName none env.outputTime
  let c := c.setRequest { request with resHints := { request.resHints with path := name } }
  if env.pid > 0 then
    (0, { c with cgiProcess := some { output := name, pid := env.pid } }.record (.spawned name))
  else (1, { c with cgiProcess := some { output := name } })

def generateCGIProcess (env : Env) (c : Client) : ℤ × Client :=
  let (res, c) := execCGI env c
  if res ≠ 0 then (RES_INTERNAL_ERROR, c.deleteCGIProcess) else (0, c.setMode .write)

def handleClientResponse (env : Env) (c : Client) (response : ℤ) : ℤ × Client :=
  if c.getRequest.type ≠ .cgi ∨ response ≠ RES_OK then generateResponse env c response
  else
    let (res, c) := generateCGIProcess env c
    if res ≠ 0 then generateResponse env c RES_INTERNAL_ERROR else (0, c)

/-- The end of `handleClientIn`: a body that is complete, or absent, is done. -/
def finishBody (res : ℤ) (c : Client) : ℤ × Client :=
  if res ≤ 0 ∧ c.bodyStatus ≠ .ongoing then handleRequestBodyDone c else (res, c)

/-- The bytes that came with the head may hold the body. -/
def parseRest (c : Client) : Checked (ℤ × Client) :=
  if c.bodyStatus ≠ .none then c.parseRequest [] else .ok (0, c)

/-- What follows an accepted head. -/
def startBody (c : Client) : Checked (ℤ × Client) := do
  let (res, c) ← parseRest c
  return finishBody res c

/-- The head is complete; its verdict is recorded. -/
def checkHeaders (env : Env) : Handler := fun c => do
  let (res, c) ← handleRequestHeaders env { c with bodyStatus := .none }
  return (res, c.record (.checked res))

/-- `handleClientIn` once the bytes are there, none of them after a response. -/
def receive (env : Env) (c : Client) (bytes : Bytes) : Checked (ℤ × Client) := do
  let (res, c) ← c.parseRequest bytes
  if res ≥ 0 then return (res, c)
  if c.headerStatus = .ready then andThen (checkHeaders env c) startBody
  else return finishBody res c

def handleClientIn (event : EpollEvent) (c : Client) : Checked (ℤ × Client) :=
  match event.incoming with
  | none => .ok (-1, c)
  | some bytes => if bytes = [] then .ok (-1, c) else receive event.env c bytes

/-- The first buffer is offered to the connection and dropped, written in full or not. -/
def writeBuffer (written : Bytes → ℤ) (c : Client) : Option Client :=
  match c.outBuffers with
  | [] => some c
  | front :: rest =>
    if written front < 0 then none
    else some ({ c with outBuffers := rest }.record (.sent (front.take (written front).toNat)))

/-- What follows the last buffer of a response. -/
def afterWrite (c : Client) : Situation × Client :=
  if c.outBuffers ≠ [] then (.pending, c)
  else if c.getRequest.getHeader (ascii "expect") = ascii "100-continue" ∧
      c.response.map Response.getStatus = some RES_CONTINUE then
    (.continue, c.setRequest (c.getRequest.removeHeader (ascii "expect")))
  else if c.getRequest.resHints.getHeader (ascii "connection") = ascii "close" then (.close, c)
  else (.keepAlive, c)

def handleClientOut (written : Bytes → ℤ) (c : Client) : Situation × Client :=
  match writeBuffer written c with
  | none => (.close, c)
  | some c => afterWrite c

/-- The code of `checkEnd` and the process after it. -/
def checkEnd (child : ChildState) (p : CGIProcess) : ℤ × CGIProcess :=
  if p.pid = 0 then (-1, p)
  else match child with
    | .running => (0, p)
    | .expired => (-1, { p with pid := 0 })
    | .failed => (-1, { p with pid := 0 })
    | .exited => (1, { p with pid := 0 })

/-- A redirection the server follows itself: the request is checked again. -/
def followRedirect (env : Env) (c : Client) : Checked (ℤ × Client) := do
  let (res, c) ← handleRequestHeaders env c.deleteCGIProcess
  if res ≠ 0 then return generateResponse env c res
  else if c.getRequest.type ≠ .cgi then return generateResponse env c 0
  else
    let (res, c) := generateCGIProcess env c
    if res ≠ 0 then return generateResponse env c.deleteCGIProcess RES_INTERNAL_ERROR
    else return (0, c)

/-- The process failed: it is removed and the service reported unavailable. -/
def cgiUnavailable (env : Env) (c : Client) : ℤ × Client :=
  generateResponse env c.deleteCGIProcess RES_SERVICE_UNAVAILABLE

/-- The output is served as a document, then the process is removed. -/
def serveDocument (env : Env) (c : Client) : ℤ × Client :=
  let (res, c) := generateResponse env c 0
  (res, c.deleteCGIProcess)

/-- The request as the headers of its process leave it. -/
def withVerdict (c : Client) (verdict : CgiRes) (request : Request) : Client :=
  c.setRequest { request with resHints := { request.resHints with cgiRedir := verdict } }

/-- What follows a process that ended well; malformed headers get no answer. -/
def finishCGI (event : EpollEvent) (c : Client) : Checked (ℤ × Client) := do
  let (verdict, request) ← c.getRequest.parseCgiHeaders event.output
  let c := withVerdict c verdict request
  match verdict with
  | .error => return cgiUnavailable event.env c
  | .none => return (0, c.deleteCGIProcess)
  | .doc => return serveDocument event.env c
  | .clientRedirect => return serveDocument event.env c
  | .localRedirect => followRedirect event.env c

def handleCGIProcess (event : EpollEvent) (c : Client) : Checked (ℤ × Client) :=
  match c.cgiProcess with
  | none => .ok (0, c)
  | some p =>
    let (res, p) := checkEnd event.child p
    let c := { c with cgiProcess := some p }
    if res = 0 then .ok (0, c)
    else if res < 0 then .ok (cgiUnavailable event.env c)
    else finishCGI event c

/-- A positive code is the status of a response to make. -/
def respondTo (env : Env) (out : ℤ × Client) : ℤ × Client :=
  if out.1 > 0 then handleClientResponse env out.2 out.1 else out

/-- The next request of a connection that is kept: its bytes may be at hand already. -/
def keepAlive (env : Env) (c : Client) : Checked (ℤ × Client) := do
  let out ← receive env (c.clear.setMode .read) []
  return respondTo env out

def handleResponseOut (event : EpollEvent) (c : Client) : Checked (ℤ × Client) :=
  if c.response = none then .ok (0, c)
  else match handleClientOut event.written c with
    | (.pending, c) => .ok (0, c)
    | (.keepAlive, c) => keepAlive event.next c
    | (.continue, c) => .ok (0, c.clearResponse.setMode .read)
    | (.close, c) => .ok (0, c.terminate)

/-- The branch of a writable connection. -/
def handleWritable (event : EpollEvent) (c : Client) : Checked (ℤ × Client) := do
  let (res, c) ← handleCGIProcess event c
  if res ≠ 0 then return (-1, c) else handleResponseOut event c

/-- The branch of a readable connection. -/
def handleReadable (event : EpollEvent) (c : Client) : Checked (ℤ × Client) := do
  let out ← handleClientIn event c
  return respondTo event.env out

def handleClientEvent (event : EpollEvent) (c : Client) : Checked (ℤ × Client) :=
  if event.hup ∨ c.mode = .error then .ok (0, c.terminate)
  else if event.epollin ∧ (c.mode = .read ∨ c.bodyStatus ≠ .ongoing) then handleReadable event c
  else if event.epollout ∧ c.mode = .write then handleWritable event c
  else .ok (0, c)

/-- The part of `handleEpoll` that is about one client. -/
def handleEpoll (event : EpollEvent) (c : Client) : Checked Client := do
  let (res, c) ← handleClientEvent event c
  if res < 0 then return c.terminate else return c

def checkTO (expired : Bool) (env : Env) (c : Client) : Client :=
  if c.mode = .read ∧ expired then
    match c.request with
    | none => c.terminate
    | some request =>
      let c := c.setMode .write
      let c := c.setRequest ((request.setStatus .complete).fillError 408 []).2
      (generateResponse env c RES_TIMEOUT).2
  else c

/-- A client that is gone gets no more events. -/
def step (c : Client) (event : Event) : Checked Client :=
  if c.alive = false then .ok c
  else match event with
    | .epoll event => handleEpoll event c
    | .timeOut expired env => .ok (checkTO expired env c)

end Webserveau.EventLoop
