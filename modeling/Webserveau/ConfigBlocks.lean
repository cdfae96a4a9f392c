import Webserveau.ConfigWords

/-!
The blocks of a configuration text.
A block is cut out line by line. The position behind its closing brace is found by going
back from the end of the line; a stream that is exhausted gives no line, so that the line
read last is scanned again.
-/
namespace Webserveau.ConfigBlocks

open ByteStrings ConfigWords

/-- A stream over a text that can be moved to any position. The place of the text in the
file is read by no function; it serves to state where something is read. -/
structure IStream extends Reader where
  text : Bytes
  offset : ℕ := 0
  deriving DecidableEq

namespace IStream

def ofText (text : Bytes) (offset : ℕ) : IStream :=
  { rest := text, text := text, offset := offset }

def clear (s : IStream) : IStream := { s with eof := false, fail := false }

def tellg (s : IStream) : ℤ × IStream :=
  if s.good then (s.text.length - s.rest.length, s) else (-1, { s with fail := true })

def seekg (s : IStream) (position : ℤ) : IStream :=
  let s := { s with eof := false }
  if s.fail then s
  else if 0 ≤ position ∧ position ≤ s.text.length then
    { s with rest := s.text.drop position.toNat }
  else { s with fail := true }

/-- The next line; what `line` holds stays there when the stream is not good. -/
def getline (s : IStream) (line : Bytes) : Bytes × IStream :=
  if s.good then
    let next := s.rest.takeWhile (· ≠ 10)
    if next.length < s.rest.length then (next, { s with rest := s.rest.drop (next.length + 1) })
    else (next, { s with rest := [], eof := true, fail := next = [] })
  else (line, { s with fail := true })

end IStream

/-- The state of the search for the braces of a block; `start` is a position in the line. -/
structure Scan where
  enclosedDepth : ℕ := 0
  isEscaped : Bool := false
  isQuoted : Bool := false
  start : ℕ := 0
  deriving DecidableEq

/-- What the rest of a line does to the search. -/
inductive LineEnd
  | passed (scan : Scan)
  | closed (scan : Scan) (it : ℕ)
  | unexpected
  deriving DecidableEq

/-- The characters of a line from a position on. -/
def scanLine (scan : Scan) (it : ℕ) : Bytes → LineEnd
  | [] => .passed scan
  | c :: rest =>
    if scan.isEscaped then scanLine { scan with isEscaped := false } (it + 1) rest
    else if c = 92 then scanLine { scan with isEscaped := true } (it + 1) rest
    else if c = 34 then scanLine { scan with isQuoted := !scan.isQuoted } (it + 1) rest
    else if scan.isQuoted = false ∧ c = 123 then
      scanLine { scan with
        enclosedDepth := scan.enclosedDepth + 1
        start := if scan.enclosedDepth = 0 then it + 1 else scan.start } (it + 1) rest
    else if scan.isQuoted = false ∧ c = 125 then
      if scan.enclosedDepth = 0 then .unexpected
      else if scan.enclosedDepth = 1 then .closed { scan with enclosedDepth := 0 } it
      else scanLine { scan with enclosedDepth := scan.enclosedDepth - 1 } (it + 1) rest
    else scanLine scan (it + 1) rest

/-- The position in the stream is set behind the brace at `it`. -/
def returnTo (s : IStream) (line : Bytes) (it : ℕ) : IStream :=
  if s.eof then
    let (position, s) := s.clear.tellg
    s.seekg (position - (line.length - 1 - it))
  else
    let (position, s) := s.tellg
    s.seekg (position - (line.length - it))

/-- The loop over the lines, with a bound on their number that is never reached. The line
read last is left behind with the outcome. -/
def blockLoop : ℕ → Scan → IStream → Bytes → Bytes →
    Bytes × Except ConfigException (Bytes × IStream)
  | 0, _, s, line, out => (line, .ok (out, s))
  | fuel + 1, scan, s, line, out =>
    let (line, s) := s.getline line
    match scanLine { scan with start := 0 } 0 line with
    | .unexpected => (line, .error .unexpectedBrace)
    | .closed scan it =>
      (line, .ok (out ++ (line.take it).drop scan.start, returnTo s line it))
    | .passed scan =>
      let out :=
        if scan.enclosedDepth ≠ 0 ∨ scan.start ≠ 0 then
          out ++ line.drop scan.start ++ (if scan.enclosedDepth ≠ 0 then [10] else [])
        else out
      if s.good then blockLoop fuel scan s line out
      else if scan.enclosedDepth > 0 then (line, .error .unclosedBlock)
      else if s.eof then (line, .error .lastBlock)
      else (line, .ok (out, s))

def getNextBlock (s : IStream) (line : Bytes) : Bytes × Except ConfigException (Bytes × IStream) :=
  blockLoop (s.rest.length + 1) {} s line []

end Webserveau.ConfigBlocks
