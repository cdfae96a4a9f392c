import Webserveau.Requests

/-!
Request targets and their parts.
A target loses its scheme and authority, is cut at the query, collapsed and resolved
segment by segment, and percent-decoded last. Every part that is kept is decoded on its
own. The loops carry bounds that the lengths of their texts never exceed.
-/
namespace Webserveau.Requests

open ByteStrings OrderedMaps Formats

def pruneScheme (uri : Bytes) : Checked (ℤ × Bytes) := do
  match find (ascii "://") uri with
  | none => return (0, uri)
  | some n =>
    if (← substr uri 0 (n + 3)) ≠ ascii "http://" then return (1, uri)
    return (0, ← erase uri 0 (n + 3))

def pruneDelim (uri delim : Bytes) : Checked Bytes := do
  match find delim uri with
  | none => return uri
  | some idx =>
    if idx + 1 ≠ uri.length then erase uri 0 (idx + delim.length) else return uri

/-- The path of a uri and what is left of the uri, the query. -/
def extractPath (uri : Bytes) : Checked (Bytes × Bytes) := do
  match find (ascii "?") uri with
  | none => return (uri, [])
  | some idx =>
    let path ← substr uri 0 idx
    return (path, ← erase uri 0 (idx + 1))

/-- Erase a number of bytes at the first occurrence of a pattern until there is none. -/
def eraseEach (pat : Bytes) (n : ℕ) : ℕ → Bytes → Checked Bytes
  | 0, path => return path
  | fuel + 1, path => do
    match find pat path with
    | none => return path
    | some idx => eraseEach pat n fuel (← erase path idx n)

/-- The loop of `checkPath` over the segments that end with a slash. -/
def resolveSegments : ℕ → Bytes → List Bytes → Checked (ℤ × Bytes × List Bytes)
  | 0, path, v => return (0, path, v)
  | fuel + 1, path, v => do
    match find (ascii "/") path with
    | none => return (0, path, v)
    | some idx =>
      let subpath ← substr path 0 idx
      let path ← erase path 0 (idx + 1)
      if subpath = ascii ".." ∧ v.length = 0 then return (1, path, v)
      else if subpath = ascii ".." ∧ v.length ≠ 0 then resolveSegments fuel path v.dropLast
      else resolveSegments fuel path (v ++ [subpath])

/-- A path is not to begin with `./`. -/
def eraseDotSlash (path : Bytes) : Checked Bytes :=
  if path[0]? = some 46 ∧ path[1]? = some 47 then erase path 0 2 else return path

def checkPath (path : Bytes) : Checked (ℤ × Bytes) := do
  let path ← eraseDotSlash path
  let path ← eraseEach (ascii "//") 1 (path.length + 1) path
  let path ← eraseEach (ascii "/./") 2 (path.length + 1) path
  let (res, path, v) ← resolveSegments (path.length + 1) path []
  if res ≠ 0 then return (1, path)
  let v := v ++ [path]
  return (0, ← erase (v.flatMap fun subpath => ascii "/" ++ subpath) 0 1)

/-- The directory part of a path whose last slash is at a position. -/
def rootOf (path : Bytes) (idx : Option ℕ) : Checked Bytes :=
  if idx = some 0 ∨ idx = none then return ascii "/" else substr path 0 (idx.elim 0 (· + 1))

def extensionOf (filename : Bytes) : Checked Bytes :=
  match rfind (ascii ".") filename with
  | none => return []
  | some idx => substrFrom filename idx

def prunePath (parsedUri : URI) : Checked URI := do
  if parsedUri.path = [] ∨ parsedUri.path.getLast? = some 47 then
    return { parsedUri with root := parsedUri.path, extension := ascii "/", filename := [] }
  let idx := rfind (ascii "/") parsedUri.path
  let root ← rootOf parsedUri.path idx
  let filename ← substrFrom parsedUri.path (idx.elim 0 (· + 1))
  let extension ← extensionOf filename
  return { parsedUri with root := root, filename := filename, extension := extension }

/-- Conversion of an `int` to a `char`. -/
def toByte (x : ℤ) : UInt8 := UInt8.ofNat (x % 256).toNat

/-- The loop of `translatePercent` from a position on. -/
def translateFrom : ℕ → Bytes → ℕ → Checked Bytes
  | 0, str, _ => return str
  | fuel + 1, str, idx => do
    match find (ascii "%") (str.drop idx) with
    | none => return str
    | some offset =>
      let cur := idx + offset
      -- the difference is unsigned and wraps around for a text of one byte
      let bound := if 2 ≤ str.length then str.length - 2
        else str.length + 18446744073709551616 - 2
      if cur < bound then
        let hexaChar ← substr str (cur + 1) 2
        let (failed, res) := getInt hexaChar 16 0
        let str ← if failed = 0 then erase (str.set cur (toByte res)) (cur + 1) 2 else pure str
        translateFrom fuel str (cur + 1)
      else return str

def translatePercent (str : Bytes) : Checked Bytes := translateFrom (str.length + 1) str 0

def prunePercent (parsedUri : URI) : Checked URI := do
  return { parsedUri with
    path := ← translatePercent parsedUri.path
    pathInfo := ← translatePercent parsedUri.pathInfo
    query := ← translatePercent parsedUri.query
    root := ← translatePercent parsedUri.root
    extension := ← translatePercent parsedUri.extension
    filename := ← translatePercent parsedUri.filename }

namespace Request

def setParsedUri (r : Request) (parsedUri : URI) : Request :=
  { r with resHints := { r.resHints with parsedUri := parsedUri } }

def parseURI (r : Request) : Checked (ℤ × Request) := do
  let uri := { r.resHints.parsedUri with query := r.uri, pathInfo := [] }
  let (res, query) ← pruneScheme uri.query
  let uri := { uri with query := query }
  if res ≠ 0 then return (r.setParsedUri uri).fillError 400 (ascii "Bad uri")
  let query ← pruneDelim uri.query (ascii "@")
  let query ← pruneDelim query (ascii "/")
  let (path, query) ← extractPath query
  let uri := { uri with query := query }
  let (res, path) ← checkPath path
  let uri := { uri with path := path }
  if res ≠ 0 then return (r.setParsedUri uri).fillError 400 (ascii "too many ../ in uri")
  let uri ← prunePath uri
  let uri ← prunePercent uri
  return (0, r.setParsedUri uri)

/-- The overload that appends a suffix to the uri. -/
def parseURISuffix (r : Request) (suffix : Bytes) : Checked (ℤ × Request) :=
  ({ r with uri := r.uri ++ suffix } : Request).parseURI

/-- The directory part and the last segment of the path before a path info. -/
def splitName (path : Bytes) : Checked (Bytes × Bytes) := do
  match rfind (ascii "/") path with
  | none => return (ascii "/", path)
  | some idx => return (← substr path 0 (idx + 1), ← substrFrom path (idx + 1))

/-- An extension that does not occur makes the cut wrap around to its last byte. -/
def extractPathInfo (r : Request) (extension : Bytes) : Checked Request := do
  let parsedUri := r.resHints.parsedUri
  let idx := match rfind extension parsedUri.path with
    | some idx => idx + extension.length
    | none => extension.length - 1
  let pathInfo ← substrFrom parsedUri.path idx
  let path ← substr parsedUri.path 0 idx
  let (root, filename) ← splitName path
  return r.setParsedUri { parsedUri with
    pathInfo := pathInfo
    path := path
    root := root
    filename := filename
    extension := extension }

end Request

end Webserveau.Requests
