import Webserveau.Routing

/-!
Responses: the choice of a kind, the headers each kind adds to the hints, the bodies, and
the buffers that are queued for the connection.
A response that cannot be made ends with an exception, `none` here, after which the hints
keep what was added before. Copying the header map of the hints into itself is left out.
-/
namespace Webserveau.Requests

open ByteStrings OrderedMaps Formats

def responseLine : List (ℤ × String) :=
  [(100, "Continue"), (200, "OK"), (201, "CREATED"), (204, "No Content"),
    (300, "Multiple Choices"), (301, "Move Permanently"), (302, "Found"), (303, "See other"),
    (307, "Temporary Redirect"), (308, "Permanent Redirect"), (400, "Bad Request"),
    (401, "Unauthorized"), (403, "Forbidden"), (404, "Not Found"), (405, "Method Not Allowed"),
    (408, "Request Timeout"), (413, "Content Too Large"), (414, "URI Too Long"),
    (415, "Unsupported Media Type"), (417, "Expectation Failed"), (500, "Internal Server Error"),
    (501, "Not Implemented"), (503, "Service Unavailable"), (505, "HTTP Version Not Supported")]

def mimeType : List (String × String) :=
  [(".html", "text/html"), (".htm", "text/html"), (".shtml", "text/html"), (".css", "text/css"),
    (".xml", "text/xml"), (".gif", "image/gif"), (".jpeg", "image/jpeg"), (".jpg", "image/jpeg"),
    (".js", "application/javascript"), (".atom", "application/atom+xml"),
    (".rss", "application/rss+xml"), (".mml", "text/mathml"), (".txt", "text/plain"),
    (".jad", "text/vnd.sun.j2me.app-descriptor"), (".wml", "text/vnd.wap.wml"),
    (".htc", "text/x-component"), (".avif", "image/avif"), (".png", "image/png"),
    (".svg", "image/svg+xml"), (".svgz", "image/svg+xml"), (".tif", "image/tiff"),
    (".tiff", "image/"), (".wbmp", "image/vnd.wap.wbmp"), (".webp", "image/webp"),
    (".ico", "image/x-icon"), (".jng", "image/x-jng"), (".bmp", "image/x-ms-bmp"),
    (".woff", "font/woff"), (".woff2", "font/woff2"), (".jar", "application/java-archive"),
    (".war", "application/java-archive"), (".ear", "application/java-archive"),
    (".json", "application/json"), (".hqx", "application/mac-binhex40"),
    (".doc", "application/msword"), (".pdf", "application/pdf"),
    (".ps", "application/postscript"), (".eps", "application/postscript"),
    (".ai", "application/postscript"), (".rtf", "application/rtf"),
    (".m3u8", "application/vnd.apple.mpegurl"), (".kml", "application/vnd.google-earth.kml+xml"),
    (".kmz", "application/vnd.google-earth.kmz"), (".xls", "application/vnd.ms-excel"),
    (".eot", "application/vnd.ms-fontobject"), (".ppt", "application/vnd.ms-powerpoint"),
    (".odg", "application/vnd.oasis.opendocument.graphics"),
    (".odp", "application/vnd.oasis.opendocument.presentation"),
    (".ods", "application/vnd.oasis.opendocument.spreadsheet"),
    (".odt", "application/vnd.oasis.opendocument.text"),
    (".pptx", "application/vnd.openxmlformats-officedocument.presentationml.presentation"),
    (".xlsx", "application/vnd.openxmlformats-officedocument.spreadsheetml.sheet"),
    (".docx", "application/vnd.openxmlformats-officedocument.wordprocessingml.document"),
    (".wmlc", "application/vnd.wap.wmlc"), (".wasm", "application/wasm"),
    (".7z", "application/x-7z-compressed"), (".cco", "application/x-cocoa"),
    (".jardiff", "application/x-java-archive-diff"), (".jnlp", "application/x-java-jnlp-file"),
    (".run", "application/x-makeself"), (".pl", "application/x-perl"),
    (".pm", "application/x-perl"), (".prc", "application/x-pilot"),
    (".pdb", "application/x-pilot"), (".rar", "application/x-rar-compressed"),
    (".rpm", "application/x-redhat-package-manager"), (".sea", "application/x-sea"),
    (".swf", "application/x-shockwave-flash"), (".sit", "application/x-stuffit"),
    (".tcl", "application/x-tcl"), (".tk", "application/x-tcl"),
    (".der", "application/x-x509-ca-cert"), (".pem", "application/x-x509-ca-cert"),
    (".crt", "application/x-x509-ca-cert"), (".xpi", "application/x-xpinstall"),
    (".xhtml", "application/xhtml+xml"), (".xspf", "application/xspf+xml"),
    (".zip", "application/zip"), (".bin", "application/octet-stream"),
    (".exe", "application/octet-stream"), (".dll", "application/octet-stream"),
    (".deb", "application/octet-stream"), (".dmg", "application/octet-stream"),
    (".iso", "application/octet-stream"), (".img", "application/octet-stream"),
    (".msi", "application/octet-stream"), (".msp", "application/octet-stream"),
    (".msm", "application/octet-stream"), (".mid", "audio/midi"), (".midi", "audio/midi"),
    (".kar", "audio/midi"), (".mp3", "audio/mpeg"), (".ogg", "audio/ogg"),
    (".m4a", "audio/x-m4a"), (".ra", "audio/x-realaudio"), (".3gpp", "video/3gpp"),
    (".3gp", "video/3gpp"), (".ts", "video/mp2t"), (".mp4", "video/mp4"),
    (".mpeg", "video/mpeg"), (".mpg", "video/mpeg"), (".mov", "video/quicktime"),
    (".webm", "video/webm"), (".flv", "video/x-flv"), (".m4v", "video/x-m4v"),
    (".mng", "video/x-mng"), (".asx", "video/x-ms-asf"), (".asf", "video/x-ms-asf"),
    (".wmv", "video/x-ms-wmv"), (".avi", "video/x-msvideo")]

/-- The text after the status in a status line; a status that is not listed has none. -/
def reason (status : ℤ) : Bytes :=
  ((responseLine.find? fun entry => entry.1 = status).map fun entry => ascii entry.2).getD []

/-- The kinds of responses; a file response keeps what its stream will still read. -/
inductive Response
  | singleLine (status : ℤ) (description : Bytes)
  | file (status : ℤ) (description path stream : Bytes)
  | dynamic (status : ℤ) (description body : Bytes)
  deriving DecidableEq

def Response.getStatus : Response → ℤ
  | .singleLine status _ => status
  | .file status _ _ _ => status
  | .dynamic status _ _ => status

/-- The cut of a text into buffers of at most `BUFFER_SIZE` bytes. -/
def portions : ℕ → Bytes → List Bytes
  | 0, _ => []
  | fuel + 1, text =>
    if text = [] then []
    else text.take BUFFER_SIZE :: portions fuel (text.drop BUFFER_SIZE)

def portionsOf (text : Bytes) : List Bytes := portions text.length text

def ResHints.addHeader (hints : ResHints) (key value : Bytes) : ResHints :=
  { hints with headers := hints.headers.insert key value }

def ResHints.getHeader (hints : ResHints) (key : Bytes) : Bytes :=
  (hints.headers.find? key).getD []

def addUniversalHeaders (date : Bytes) (hints : ResHints) : ResHints :=
  ((hints.addHeader (ascii "Accept-Encoding") (ascii "identity")).addHeader
    (ascii "Accept-Ranges") (ascii "none")).addHeader (ascii "Date") date

def formatHeaders (status : ℤ) (hints : ResHints) : Bytes :=
  ascii "HTTP/1.1 " ++ IntToString status ++ ascii " " ++ reason status ++ CRLF ++
    (hints.headers.entries.flatMap fun header => header.1 ++ ascii ": " ++ header.2 ++ CRLF) ++
    (hints.cookies.flatMap fun cookie => ascii "Set-Cookie: " ++ cookie ++ CRLF) ++ CRLF

/-- The buffers `writeResponse` pushes. -/
def Response.buffers (hints : ResHints) : Response → List Bytes
  | .singleLine _ _ => portionsOf (ascii "HTTP/1.1 100 Continue" ++ CRLF)
  | .file status _ _ stream =>
    portionsOf (formatHeaders status hints) ++
      if hints.method = some .HEAD then [] else portionsOf stream
  | .dynamic status _ body =>
    portionsOf (formatHeaders status hints) ++
      if hints.method = some .HEAD then [] else portionsOf body

def getRedirPath (redir filename : Bytes) : Bytes :=
  if redir.getLast? = some 47 then redir ++ filename else redir

/-- The first address of a redirection. -/
def ResHints.redirection (hints : ResHints) : Bytes :=
  getRedirPath ((hints.redirList.getD []).headD []) hints.parsedUri.filename

def statusTitle (status : ℤ) : Bytes := IntToString status ++ ascii " " ++ reason status

def generateSimpleRedirBody (hints : ResHints) : Bytes :=
  let line := statusTitle hints.status
  let redir := hints.redirection
  ascii "<html><head><title> " ++ line ++
    ascii " </title><meta http-equiv=\"refresh\"content=\"0; url=" ++ redir ++
    ascii "\"></head><body><style>" ++
    ascii "#one\x7bcolor:darkred;text-align:center;font-size:300%;\x7d" ++
    ascii "#two\x7btext-align:center;font-size:150%;\x7d</style>" ++
    ascii "<p id=\"one\">" ++ line ++ ascii "</p>" ++
    ascii "<p id=\"two\"> The document can be found at <a href=\"" ++ redir ++ ascii "\">" ++
    redir ++ ascii "</a></p></body></html>"

def generateVerboseBody (hints : ResHints) : Bytes :=
  let line := statusTitle hints.status
  ascii "<html><head><title> " ++ line ++ ascii " </title></head><body><style>" ++
    ascii "#one\x7bcolor:darkred;text-align:center;font-size:300%;\x7d" ++
    ascii "#two\x7bcolor:brown;text-align:center;font-size:150%;\x7d</style>" ++
    ascii "<p id=\"one\">" ++ line ++ ascii "</p>" ++
    ascii "<p id=\"two\">" ++ hints.verboseError ++ ascii "</p></body></html>"

def listItem (hints : ResHints) (redir : Bytes) : Bytes :=
  ascii "<li><a href=\"" ++ getRedirPath redir hints.parsedUri.filename ++ ascii "\">" ++
    getRedirPath redir hints.parsedUri.filename ++ ascii "</a></li>"

def generateListBody (hints : ResHints) : Bytes :=
  let line := statusTitle hints.status
  ascii "<html><head><title> " ++ line ++ ascii " </title></head><body><style>" ++
    ascii "#one\x7bcolor:darkred;text-align:center;font-size:300%;\x7d" ++
    ascii "#two\x7btext-align:center;font-size:150%;\x7d</style>" ++
    ascii "<p id=\"one\">" ++ line ++ ascii "</p>" ++
    ascii "<p id=\"two\"> The document has been moved to: </p>" ++ ascii "<ul>" ++
    ((hints.redirList.getD []).flatMap (listItem hints)) ++
    ascii "</ul>" ++ ascii "</body></html>"

def generateRedirBody (hints : ResHints) : Bytes :=
  if hints.status.tmod 100 = 0 ∨ hints.status.tmod 100 = 8 then generateListBody hints
  else generateSimpleRedirBody hints

/-- The last component of a directory path. -/
def extractDir (path : Bytes) : Bytes :=
  if path.length = 1 then ascii "root"
  else match rfind (ascii "/") (path.take (path.length - 1)) with
    | none => path
    | some idx => path.drop (idx + 1)

/-- An entry of a listing: regular files have type 8 and directories type 4. -/
def listingEntry (entry : Bytes × ℕ) : Bytes :=
  if entry.2 ≠ 8 ∧ entry.2 ≠ 4 then []
  else ascii "<li><a href = \"" ++ entry.1 ++ (if entry.2 = 4 then ascii "/" else []) ++
    ascii "\">" ++ entry.1 ++ ascii "</a></li>"

/-- The listing of a directory, when it can be opened. -/
def generateDirListing (fs : FileSystem) (hints : ResHints) : Option Bytes :=
  (fs.entries hints.path).map fun files =>
    ascii "<html><head><title> dir list </title></head><body><style>" ++
      ascii "#two\x7btext-align:center;font-size:200%;\x7d" ++
      ascii "#one\x7blist-style-type:disc; line-height:150%;\x7d</style>" ++
      ascii "<p id=\"two\"> Contents of " ++ extractDir hints.path ++ ascii " </p>" ++
      ascii "<ul id=\"one\">" ++ files.flatMap listingEntry ++ ascii "</ul></body></html>"

/-- The body of a dynamic response; only a listing can fail. -/
def generateBody (fs : FileSystem) (hints : ResHints) : Option Bytes :=
  if hints.status = RES_OK ∧ hints.type = .dir then generateDirListing fs hints
  else if hints.status.tdiv 100 = 3 then some (generateRedirBody hints)
  else some (generateVerboseBody hints)

def addSpecificHeaders (hints : ResHints) : ResHints :=
  if hints.status.tdiv 100 = 3 then hints.addHeader (ascii "Location") hints.redirection
  else hints

def dynamicResponse (fs : FileSystem) (date : Bytes) (hints : ResHints) :
    Option Response × ResHints :=
  let status := hints.status
  let description := hints.verboseError
  let hints := addSpecificHeaders (addUniversalHeaders date hints)
  match generateBody fs hints with
  | none => (none, hints)
  | some body =>
    (some (.dynamic status description body),
      (hints.addHeader (ascii "Content-Length") (IntToString body.length)).addHeader
        (ascii "Content-Type") (ascii "text/html"))

/-- The type of a file by its extension, kept for error pages. -/
def checkType (hints : ResHints) : ResHints :=
  match mimeType.find? fun entry => ascii entry.1 = hints.extension with
  | none => hints
  | some entry =>
    if hints.status < 400 then hints.addHeader (ascii "Content-Type") (ascii entry.2) else hints

/-- The stream of the file from the index of the hints on, unless the file cannot be
looked at or opened. -/
def inspectFile (fs : FileSystem) (hints : ResHints) : Option Bytes × ResHints :=
  match fs.stat hints.path, fs.content hints.path with
  | some (_, size), some content =>
    let length := IntToString (toSize (size - hints.index))
    (some (content.drop hints.index),
      checkType (({ hints with index := 0 } : ResHints).addHeader (ascii "Content-Length") length))
  | _, _ => (none, hints)

def fileResponse (fs : FileSystem) (date : Bytes) (hints : ResHints) :
    Option Response × ResHints :=
  let (stream, hints') := inspectFile fs (addUniversalHeaders date hints)
  (stream.map (.file hints.status hints.verboseError hints.path), hints')

def genResponse (fs : FileSystem) (date : Bytes) (hints : ResHints) :
    Option Response × ResHints :=
  if hints.status = 100 then (some (.singleLine hints.status hints.verboseError), hints)
  else if hints.path = [] ∨ hints.status = RES_OK ∧ hints.type = .dir then
    dynamicResponse fs date hints
  else fileResponse fs date hints

end Webserveau.Requests
