import Webserveau.Formats

/-!
The words of a configuration text.
A reader holds what is still unread of a text and the flags of its stream. A byte that is
read into a `char` cannot be told from the end of the text when it is 255.
-/
namespace Webserveau.ConfigWords

open ByteStrings Formats

/-- What a syntax error is reported as. -/
inductive ConfigException
  | host
  | unclosedQuote
  | unclosedBlock
  | unexpectedBrace
  | lastBlock
  | missingSemicolon
  | missingOpeningBrace
  | invalidPort
  | invalidMaxBodySize
  | invalidMethod
  | invalidBoolean
  | invalidRedirection
  | duplicateServerName
  | unexpectedToken (token : Bytes)
  | missingToken (token : String)
  | unknownToken (token : Bytes)
  deriving DecidableEq

/-- The input of a stream with its flags `eofbit` and `failbit`. -/
structure Reader where
  rest : Bytes
  eof : Bool := false
  fail : Bool := false
  deriving DecidableEq

/-- The value of `EOF` as a `char`. -/
def EOF : UInt8 := 255

/-- The value of an `int` read from a stream as a `char`. -/
def toChar (c : Option UInt8) : UInt8 := c.getD EOF

def isspace (c : UInt8) : Bool := c = 32 || (9 ≤ c && c ≤ 13)

namespace Reader

def good (r : Reader) : Bool := !r.eof && !r.fail

def peek (r : Reader) : Option UInt8 × Reader :=
  if r.good then
    match r.rest with
    | [] => (none, { r with eof := true })
    | c :: _ => (some c, r)
  else (none, { r with fail := true })

def get (r : Reader) : Option UInt8 × Reader :=
  if r.good then
    match r.rest with
    | [] => (none, { r with eof := true, fail := true })
    | c :: rest => (some c, { r with rest := rest })
  else (none, { r with fail := true })

def skipSpace (r : Reader) : Reader :=
  if r.good then
    match r.rest.dropWhile isspace with
    | [] => { r with rest := [], eof := true }
    | c :: rest => { r with rest := c :: rest }
  else { r with fail := true }

def checkSemiColon (r : Reader) : Bool × Reader :=
  let (next, r) := r.skipSpace.peek
  if next = some 59 then (true, r.get.2) else (false, r)

/-- What is left behind the end of a comment. -/
def commentRest : Bytes → Option Bytes
  | [] => none
  | c :: rest => if c = 10 ∨ c = EOF then some rest else commentRest rest

def skipComment (r : Reader) : Reader :=
  let (next, r) := r.peek
  if toChar next = EOF then r
  else match commentRest r.rest with
    | none => { r with rest := [], eof := true, fail := true }
    | some rest => { r with rest := rest }

/-- The text of a quotation, joined to `dest`, and what is left behind it. -/
def quoteFrom (isEscaped : Bool) (dest : Bytes) : Bytes → Option (Bytes × Bytes)
  | [] => none
  | c :: rest =>
    if c = 92 ∧ isEscaped = false then quoteFrom true dest rest
    else if c = 34 ∧ isEscaped = false then some (dest, rest)
    else quoteFrom false (dest ++ [c]) rest

def parseQuote (r : Reader) (dest : Bytes) : Except ConfigException (Bytes × Reader) :=
  if r.good = false then .error .unclosedQuote
  else match quoteFrom false dest r.rest with
    | none => .error .unclosedQuote
    | some (dest, rest) => .ok (dest, { r with rest := rest })

/-- The characters that end a word. -/
def endsWord (c : UInt8) : Bool := isspace c || c = EOF || c = 59 || c = 123 || c = 125

/-- The loop of `getNextWord`, with a bound on its turns that is never reached. -/
def wordLoop : ℕ → Reader → Bool → Bytes → Except ConfigException (UInt8 × Bytes × Reader)
  | 0, r, _, word => .ok (EOF, word, r)
  | fuel + 1, r, isEscaped, word =>
    let (next, r) := r.peek
    if isEscaped = false ∧ endsWord (toChar next) then .ok (toChar next, word, r)
    else
      let (cur, r) := r.get
      if isEscaped then wordLoop fuel r false (word ++ [toChar cur])
      else if cur = some 92 then wordLoop fuel r true word
      else if cur = some 34 then
        match r.parseQuote word with
        | .error e => .error e
        | .ok (word, r) => wordLoop fuel r false word
      else
        let (second, r) := if cur = some 47 ∧ word = [] then r.peek else (none, r)
        if second = some 47 ∨ cur = some 35 then wordLoop fuel r.skipComment.skipSpace false word
        else wordLoop fuel r false (word ++ [toChar cur])

/-- The next word is joined to `word`. The code is 0 when there is one then, and otherwise
the character that stands in its place. -/
def getNextWord (r : Reader) (word : Bytes) :
    Except ConfigException (UInt8 × Bytes × Reader) := do
  let r := r.skipSpace
  let (next, word, r) ← wordLoop (r.rest.length + 2) r false word
  return (if word ≠ [] then 0 else next, word, r)

end Reader

end Webserveau.ConfigWords
