import Webserveau.Requests

/-!
The incremental parser of request bodies.
A body is either measured by its content length or sent in chunks. The parser state and
the body stream travel together; the stream is absent for requests that store no body.
The loop over chunks carries a bound on the number of lines, as the one over header
lines does.
-/
namespace Webserveau.Requests

open ByteStrings OrderedMaps Formats

/-- The file a body is written to, with the bytes handed to it; they reach the file
system when the file could be opened. -/
structure BodyStream where
  opened : Bool
  written : Bytes := []
  closed : Bool := false
  deriving DecidableEq

namespace BodyStream

def write (stream : Option BodyStream) (bytes : Bytes) : Option BodyStream :=
  stream.map fun s => { s with written := s.written ++ bytes }

def close (stream : Option BodyStream) : Option BodyStream :=
  stream.map fun s => { s with closed := true }

end BodyStream

/-- What the body parser works on. -/
abbrev Body := Request × Option BodyStream

/-- A stored value followed by the value of a repeated trailer field. -/
def joinTrailer (stored value : Bytes) : Bytes :=
  (if stored ≠ [] then stored ++ ascii ", " else stored) ++ value

namespace Request

def parseMesured (b : Body) (buffer : Bytes) : Checked (ℤ × Body × Bytes) := do
  let (r, filestream) := b
  let left_to_complete := toSize (toInt (r.content_length - r.len))
  let cut := if left_to_complete > buffer.length then buffer.length else left_to_complete
  let extract ← substr buffer 0 cut
  let filestream := BodyStream.write filestream extract
  let r := { r with len := toInt (r.len + extract.length) }
  let buffer ← substrFrom buffer cut
  if r.len = r.content_length then
    return (-1, ({ r with b_status := .term, final_status := .complete },
      BodyStream.close filestream), buffer)
  return (0, (r, filestream), buffer)

def getChunkedSize (r : Request) (buffer : Bytes) : Checked (ℤ × Request × Bytes) := do
  if r.chunked_status then return (0, r, buffer)
  let (res, r, buffer) ← r.getLine buffer
  if res ≠ 0 then
    if r.line.length > BUFFER_SIZE then
      let (res, r) := r.fillError 400 (ascii "Chunked body length line too long")
      return (res, r, buffer)
    else return (0, r, buffer)
  let (failed, len) := getInt r.line 16 0
  if failed ≠ 0 ∨ len < 0 then
    let (res, r) := r.fillError 400 (ascii "Syntax error parsing chunked body")
    return (res, r, buffer)
  return (0, { r with
    chunked_body_size := toInt (r.chunked_body_size - (r.line.length + CRLF.length))
    len := len
    line := []
    chunked_status := true }, buffer)

def chunkLines : ℕ → Body → Bytes → Checked (ℤ × Body × Bytes)
  | 0, b, buffer => return (0, b, buffer)
  | fuel + 1, (r, filestream), buffer => do
    if buffer = [] then
      if r.chunked_body_size > r.body_max_size then
        let (res, r) := r.fillError 413 (ascii "Request entity too large")
        return (res, (r, filestream), buffer)
      return (0, (r, filestream), buffer)
    let (res, r, buffer) ← r.getChunkedSize buffer
    if res ≠ 0 then
      return (r.getError, (r, filestream), buffer)
    if r.chunked_status ∧ r.len = 0 then
      return (-1, ({ r with b_status := .term, final_status := .trailer, line := [] },
        BodyStream.close filestream), buffer)
    let (res, r, buffer) ← r.getLine buffer
    if res ≠ 0 then
      let (res, r) := r.checkSizes
      return (res, (r, filestream), buffer)
    if r.line.length ≠ toSize r.len then
      let (res, r) := r.fillError 400 (ascii "Size error in chunked body")
      return (res, (r, filestream), buffer)
    let filestream := BodyStream.write filestream r.line
    chunkLines fuel ({ r with line := [], len := -1, chunked_status := false }, filestream) buffer

/-- The `while` loop over chunks. -/
def chunkLoop (b : Body) (buffer : Bytes) : Checked (ℤ × Body × Bytes) :=
  chunkLines (b.1.line.length + buffer.length + 1) b buffer

def parseChunked (b : Body) (buffer : Bytes) : Checked (ℤ × Body × Bytes) := do
  let (r, filestream) := b
  if r.b_status = .term then return (0, b, buffer)
  chunkLoop ({ r with chunked_body_size := toInt (r.chunked_body_size + buffer.length) },
    filestream) buffer

def parseBody (b : Body) (buffer : Bytes) : Checked (ℤ × Body × Bytes) := do
  let (r, filestream) := b
  if r.b_status = .term ∨ buffer = [] then return (-1, b, buffer)
  let r := if r.b_status = .new then { r with b_status := .ongoing } else r
  if r.chunked then parseChunked (r, filestream) buffer
  else parseMesured (r, filestream) buffer

def trailerLines : ℕ → Request → Bytes → Checked (ℤ × Request × Bytes)
  | 0, r, buffer => return (0, r, buffer)
  | fuel + 1, r, buffer => do
    if buffer = [] then
      let (res, r) := r.checkSizes
      return (res, r, buffer)
    let (res, r, buffer) ← r.getLine buffer
    if res ≠ 0 then
      let (res, r) := r.checkSizes
      return (res, r, buffer)
    if r.line = [] then
      return (-1, { r with trailer_status := .term, final_status := .complete, line := [] }, buffer)
    let r := r.trimSpace
    match ← getHeaderName r.line with
    | none =>
      let (res, r) := r.fillError 400 (ascii "Invalid trailer header line")
      return (res, r, buffer)
    | some (header_name, line) =>
      let r := { r with line := line }
      if header_name = ascii "Trailer" ∨ header_name = ascii "Content-Length" ∨
          header_name = ascii "Transfer-Encoding" then
        let (res, r) := r.fillError 400 (ascii "Invalid trailer header line")
        return (res, r, buffer)
      if r.line.length > BUFFER_SIZE then
        let (res, r) := r.fillError 431
          (ascii "The " ++ header_name ++ ascii " header was too large")
        return (res, r, buffer)
      let r := r.trimSpace
      let value := joinTrailer (r.getHeader header_name) r.line
      trailerLines fuel { r with headers := r.headers.insert header_name value, line := [] } buffer

def parseTrailerHeaders (r : Request) (buffer : Bytes) : Checked (ℤ × Request × Bytes) := do
  if r.b_status ≠ .term then return (0, r, buffer)
  if r.chunked = false ∨ r.getHeader (ascii "Trailer") = [] then
    return (-1, { r with trailer_status := .term, final_status := .complete }, buffer)
  let r := { r with trailer_size := toInt (r.trailer_size + buffer.length) }
  trailerLines (r.line.length + buffer.length + 1) r buffer

def parseInput (b : Body) (buffer : Bytes) : Checked (ℤ × Body × Bytes) := do
  let (r, filestream) := b
  if r.final_status.index > FinalStatus.trailer.index ∨ buffer = [] then return (0, b, buffer)
  let (res, (r, filestream), buffer) ← parseBody (r, filestream) buffer
  if res ≠ 0 then return (res, (r, filestream), buffer)
  let (res, r, buffer) ← r.parseTrailerHeaders buffer
  return (res, (r, filestream), buffer)

/-- The data part of a turn of the loop, with what is done after a whole chunk. -/
def chunkData (next : Body → Bytes → Checked (ℤ × Body × Bytes)) (b : Body) (buffer : Bytes) :
    Checked (ℤ × Body × Bytes) :=
  let (r, filestream) := b
  if r.len = 0 then
    .ok (-1, ({ r with b_status := .term, final_status := .trailer, line := [] },
      BodyStream.close filestream), buffer)
  else match cutAt 13 10 (r.line ++ buffer) with
    | none =>
      let r := { r with line := r.line ++ buffer }
      .ok (r.checkSizes.1, (r.checkSizes.2, filestream), [])
    | some (line, rest) =>
      if line.length ≠ toSize r.len then
        .ok (400, ((({ r with line := line } : Request).fillError 400
          (ascii "Size error in chunked body")).2, filestream), rest)
      else
        next ({ r with line := [], len := -1, chunked_status := false },
          BodyStream.write filestream line) rest

/-- The size part of a turn, followed by the data part. -/
def chunkSize (next : Body → Bytes → Checked (ℤ × Body × Bytes)) (b : Body) (buffer : Bytes) :
    Checked (ℤ × Body × Bytes) :=
  let (r, filestream) := b
  match cutAt 13 10 (r.line ++ buffer) with
  | none =>
    let r := { r with line := r.line ++ buffer }
    if r.line.length > BUFFER_SIZE then
      .ok (400, ((r.fillError 400 (ascii "Chunked body length line too long")).2, filestream), [])
    else .ok (r.checkSizes.1, (r.checkSizes.2, filestream), [])
  | some (line, rest) =>
    if (getInt line 16 0).1 ≠ 0 ∨ (getInt line 16 0).2 < 0 then
      .ok (400, ((({ r with line := line } : Request).fillError 400
        (ascii "Syntax error parsing chunked body")).2, filestream), rest)
    else
      chunkData next ({ r with
        chunked_body_size := toInt (r.chunked_body_size - (line.length + 2))
        len := (getInt line 16 0).2
        line := []
        chunked_status := true }, filestream) rest

theorem getChunkedSize_eq (r : Request) (hs : r.chunked_status = false) (buffer : Bytes) :
    r.getChunkedSize buffer = .ok (match cutAt 13 10 (r.line ++ buffer) with
      | none =>
        let r := { r with line := r.line ++ buffer }
        if r.line.length > BUFFER_SIZE then
          (400, (r.fillError 400 (ascii "Chunked body length line too long")).2, [])
        else (0, r, [])
      | some (line, rest) =>
        if (getInt line 16 0).1 ≠ 0 ∨ (getInt line 16 0).2 < 0 then
          (400, (({ r with line := line } : Request).fillError 400
            (ascii "Syntax error parsing chunked body")).2, rest)
        else (0, { r with
          chunked_body_size := toInt (r.chunked_body_size - (line.length + 2))
          len := (getInt line 16 0).2
          line := []
          chunked_status := true }, rest)) := by
  rw [getChunkedSize, if_neg (by simp [hs]), getLine_eq]
  simp only [bind, Except.bind, pure, Except.pure]
  cases cutAt 13 10 (r.line ++ buffer) with
  | none =>
    simp only [ne_eq, Int.reduceEq, not_false_eq_true, if_true]
    split <;> rfl
  | some cut =>
    obtain ⟨line, rest⟩ := cut
    simp only [ne_eq, not_true_eq_false, if_false]
    split <;> rfl

/-- What the loop does with its buffer, the bound on the number of lines aside. -/
theorem chunkLines_succ (fuel : ℕ) (r : Request) (filestream : Option BodyStream)
    (buffer : Bytes) :
    chunkLines (fuel + 1) (r, filestream) buffer =
      if buffer = [] then
        if r.chunked_body_size > r.body_max_size then
          .ok (413, ((r.fillError 413 (ascii "Request entity too large")).2, filestream), [])
        else .ok (0, (r, filestream), [])
      else if r.chunked_status then chunkData (chunkLines fuel) (r, filestream) buffer
      else chunkSize (chunkLines fuel) (r, filestream) buffer := by
  have hdata : ∀ (r : Request) (buffer : Bytes), r.chunked_status = true →
      (do
        if r.chunked_status ∧ r.len = 0 then
          return (-1, ({ r with b_status := .term, final_status := .trailer, line := [] },
            BodyStream.close filestream), buffer)
        let (res, r, buffer) ← r.getLine buffer
        if res ≠ 0 then
          let (res, r) := r.checkSizes
          return (res, (r, filestream), buffer)
        if r.line.length ≠ toSize r.len then
          let (res, r) := r.fillError 400 (ascii "Size error in chunked body")
          return (res, (r, filestream), buffer)
        let filestream := BodyStream.write filestream r.line
        chunkLines fuel ({ r with line := [], len := -1, chunked_status := false }, filestream)
          buffer) = chunkData (chunkLines fuel) (r, filestream) buffer := by
    intro r buffer hs
    simp only [hs, chunkData, getLine_eq, bind, Except.bind, pure, Except.pure, ne_eq, true_and]
    split
    · rfl
    · cases cutAt 13 10 (r.line ++ buffer) with
      | none => rfl
      | some cut =>
        simp only [not_true_eq_false, if_false]
        split <;> rfl
  rw [chunkLines]
  by_cases hb : buffer = []
  · subst hb
    simp only [if_true]
    split <;> rfl
  · simp only [hb, if_false]
    by_cases hs : r.chunked_status = true
    · rw [if_pos hs, ← hdata r buffer hs, getChunkedSize, if_pos hs]
      rfl
    · have hsize : r.chunked_status = false := by simpa using hs
      rw [getChunkedSize_eq r hsize, chunkSize, if_neg hs]
      cases hcut : cutAt 13 10 (r.line ++ buffer) with
      | none =>
        by_cases hlong : (r.line ++ buffer).length > BUFFER_SIZE
        · simp only [hlong, if_true]
          rfl
        · simp only [hlong, if_false]
          have hline : ({ r with line := r.line ++ buffer } : Request).getLine [] =
              .ok (1, { r with line := r.line ++ buffer }, []) := by
            rw [getLine_eq, List.append_nil, hcut]
          simp only [bind, Except.bind, pure, Except.pure, hline]
          simp [hsize]
      | some cut =>
        obtain ⟨line, rest⟩ := cut
        by_cases hbad : (getInt line 16 0).1 ≠ 0 ∨ (getInt line 16 0).2 < 0
        · simp only [hbad, if_true]
          rfl
        · simp only [hbad, if_false]
          rw [← hdata _ _ rfl]
          rfl

/-- The data part only goes on with a buffer that is shorter than the joined text. -/
theorem chunkData_congr {next next' : Body → Bytes → Checked (ℤ × Body × Bytes)} (r : Request)
    (filestream : Option BodyStream) (buffer : Bytes)
    (h : ∀ b rest, b.1.line = [] → rest.length + 2 ≤ r.line.length + buffer.length →
      next b rest = next' b rest) :
    chunkData next (r, filestream) buffer = chunkData next' (r, filestream) buffer := by
  unfold chunkData
  simp only
  split
  · rfl
  · cases hcut : cutAt 13 10 (r.line ++ buffer) with
    | none => rfl
    | some cut =>
      obtain ⟨line, rest⟩ := cut
      have hlen := cutAt_length hcut
      rw [List.length_append] at hlen
      simp only
      split
      · rfl
      · exact h _ _ rfl (by omega)

theorem chunkSize_congr {next next' : Body → Bytes → Checked (ℤ × Body × Bytes)} (r : Request)
    (filestream : Option BodyStream) (buffer : Bytes)
    (h : ∀ b rest, b.1.line = [] → rest.length + 2 ≤ r.line.length + buffer.length →
      next b rest = next' b rest) :
    chunkSize next (r, filestream) buffer = chunkSize next' (r, filestream) buffer := by
  unfold chunkSize
  simp only
  cases hcut : cutAt 13 10 (r.line ++ buffer) with
  | none => rfl
  | some cut =>
    obtain ⟨line, rest⟩ := cut
    have hlen := cutAt_length hcut
    rw [List.length_append] at hlen
    simp only
    split
    · rfl
    · apply chunkData_congr
      intro b rest' hb hrest
      refine h b rest' hb ?_
      simp only [List.length_nil] at hrest
      omega

/-- A bound above the joined length is never reached. -/
theorem chunkLines_fuel (n m : ℕ) (b : Body) (buffer : Bytes)
    (hn : b.1.line.length + buffer.length < n) (hm : b.1.line.length + buffer.length < m) :
    chunkLines n b buffer = chunkLines m b buffer := by
  induction n generalizing m b buffer with
  | zero => omega
  | succ n ih =>
    obtain ⟨m, rfl⟩ : ∃ k, m = k + 1 := ⟨m - 1, by omega⟩
    obtain ⟨r, filestream⟩ := b
    have hnext : ∀ (b : Body) (rest : Bytes), b.1.line = [] →
        rest.length + 2 ≤ r.line.length + buffer.length →
        chunkLines n b rest = chunkLines m b rest := by
      intro b rest hb hrest
      simp only at hn hm
      apply ih
      · simp only [hb, List.length_nil]
        omega
      · simp only [hb, List.length_nil]
        omega
    rw [chunkLines_succ, chunkLines_succ, chunkData_congr r filestream buffer hnext,
      chunkSize_congr r filestream buffer hnext]

/-- One turn of the loop over chunks. -/
theorem chunkLoop_eq (r : Request) (filestream : Option BodyStream) (buffer : Bytes) :
    chunkLoop (r, filestream) buffer =
      if buffer = [] then
        if r.chunked_body_size > r.body_max_size then
          .ok (413, ((r.fillError 413 (ascii "Request entity too large")).2, filestream), [])
        else .ok (0, (r, filestream), [])
      else if r.chunked_status then chunkData chunkLoop (r, filestream) buffer
      else chunkSize chunkLoop (r, filestream) buffer := by
  have hnext : ∀ (b : Body) (rest : Bytes), b.1.line = [] →
      rest.length + 2 ≤ r.line.length + buffer.length →
      chunkLines (r.line.length + buffer.length) b rest = chunkLoop b rest := by
    intro b rest hb hrest
    apply chunkLines_fuel
    · simp only [hb, List.length_nil]
      omega
    · omega
  rw [chunkLoop, chunkLines_succ, chunkData_congr r filestream buffer hnext,
    chunkSize_congr r filestream buffer hnext]

theorem chunkLoop_data {r : Request} (hs : r.chunked_status = true)
    (filestream : Option BodyStream) {buffer : Bytes} (hb : buffer ≠ []) :
    chunkLoop (r, filestream) buffer = chunkData chunkLoop (r, filestream) buffer := by
  rw [chunkLoop_eq, if_neg hb, if_pos hs]

theorem chunkLoop_size {r : Request} (hs : r.chunked_status = false)
    (filestream : Option BodyStream) {buffer : Bytes} (hb : buffer ≠ []) :
    chunkLoop (r, filestream) buffer = chunkSize chunkLoop (r, filestream) buffer := by
  rw [chunkLoop_eq, if_neg hb, if_neg (by simp [hs])]

end Request

end Webserveau.Requests
