import Webserveau.Requests

/-!
The incremental parser of request heads.
Each call of `parseHeaders` sees the bytes left from earlier calls in `line` and the
new bytes in the buffer. The loop over header lines carries a bound on the number of
lines; `headerLoop_eq` shows that the bound given by `parseHeaders` is never reached.
-/
namespace Webserveau.Requests

open ByteStrings OrderedMaps Formats

def skipSpaces (idx : ℕ) (str : Bytes) : ℕ :=
  idx + ((str.drop idx).takeWhile isBlank).length

def nextSpace (idx : ℕ) (str : Bytes) : ℕ :=
  idx + ((str.drop idx).takeWhile fun c => !isBlank c).length

def checkVersion (str : Bytes) : Checked ℤ := do
  if str.length < 8 ∨ find (ascii "HTTP/") str ≠ some 0 then return 1
  let version ← substr str 5 str.length
  if version ≠ ascii "1.1" ∧ version ≠ ascii "1.0" then return 505
  return 0

/-- A repeated field is joined to the stored value, unless that value is empty. -/
def joinValue (stored value : Bytes) : Bytes :=
  if stored ≠ [] then stored ++ ascii ", " ++ value else value

namespace Request

def parseRequestLine (r : Request) : Checked (ℤ × Request) := do
  let idx := nextSpace 0 r.line
  let method_str ← substr r.line 0 idx
  let r := { r with method := getMethodIndex method_str }
  if r.method = none then
    return r.fillError RES_NOT_IMPLEMENTED (ascii "Method Not Implemented")
  let idx := skipSpaces idx r.line
  let r_idx := nextSpace idx r.line
  let uri ← substr r.line idx (r_idx - idx)
  let r := { r with uri := uri }
  let version ← substrFrom r.line (r_idx + 1)
  if (← checkVersion version) ≠ 0 then
    return r.fillError RES_HTTP_VERSION_NOT_SUPPORTED (ascii "HTTP version not implemented")
  return (0, r)

def storeHeader (r : Request) (name value : Bytes) : Request :=
  { r with headers := r.headers.insert name (joinValue (r.getHeader name) value) }

def headerLines : ℕ → Request → Bytes → Checked (ℤ × Request × Bytes)
  | 0, r, buffer => return (0, r, buffer)
  | fuel + 1, r, buffer => do
    if buffer = [] then
      let r := { r with header_size := toInt (r.header_size - buffer.length) }
      let (res, r) := r.checkSizes
      return (res, r, buffer)
    let (res, r, buffer) ← r.getLine buffer
    if res ≠ 0 then
      let (res, r) := r.checkSizes
      return (res, r, buffer)
    if r.line = [] then
      return (-1, { r with status := .term, final_status := .host, line := [] }, buffer)
    let r := r.trimSpace
    match ← getHeaderName r.line with
    | none =>
      let (res, r) := r.fillError 400 (ascii "Invalid header line")
      return (res, r, buffer)
    | some (header_name, line) =>
      let r := { r with line := line }
      if r.line.length > BUFFER_SIZE then
        let (res, r) := r.fillError 431
          (ascii "The " ++ header_name ++ ascii " header was too large")
        return (res, r, buffer)
      let r := r.trimSpace
      let r := r.storeHeader header_name r.line
      headerLines fuel { r with line := [] } buffer

/-- The `while` loop over header lines. -/
def headerLoop (r : Request) (buffer : Bytes) : Checked (ℤ × Request × Bytes) :=
  headerLines (r.line.length + buffer.length + 1) r buffer

/-- The `RLINE` block and what follows it. -/
def requestLine (r : Request) (buffer : Bytes) : Checked (ℤ × Request × Bytes) := do
  if r.status = .rline then
    let (res, r, buffer) ← r.getLine buffer
    if res ≠ 0 then
      let (res, r) := r.checkSizes
      return (res, r, buffer)
    if r.line.length > BUFFER_SIZE then
      let (res, r) := r.fillError 414 (ascii "Request uri too long")
      return (res, r, buffer)
    let (res, r) ← r.parseRequestLine
    if res ≠ 0 then
      return (r.getError, r, buffer)
    headerLoop { r with line := [], status := .ongoing } buffer
  else headerLoop r buffer

def parseHeaders (r : Request) (buffer : Bytes) : Checked (ℤ × Request × Bytes) := do
  if r.status = .term then return (0, r, buffer)
  let r := { r with header_size := toInt (r.header_size + buffer.length) }
  if r.status = .new then
    let buffer := buffer.dropWhile fun c => !isalpha c
    if buffer = [] then
      let (res, r) := r.checkSizes
      return (res, r, buffer)
    requestLine { r with status := .rline, header_size := toInt buffer.length } buffer
  else requestLine r buffer

end Request

namespace Request

/-- What the loop does with the next line, the bound on the number of lines aside. -/
theorem headerLines_succ (fuel : ℕ) (r : Request) (buffer : Bytes) :
    headerLines (fuel + 1) r buffer =
      if buffer = [] then
        let r := { r with header_size := toInt r.header_size }
        .ok (r.checkSizes.1, r.checkSizes.2, [])
      else match cutAt 13 10 (r.line ++ buffer) with
        | none =>
          let r := { r with line := r.line ++ buffer }
          .ok (r.checkSizes.1, r.checkSizes.2, [])
        | some (line, rest) =>
          if line = [] then
            .ok (-1, { r with status := .term, final_status := .host, line := [] }, rest)
          else match splitColon (line.dropWhile isBlank) with
            | none => .ok (400, (r.fillError 400 (ascii "Invalid header line")).2, rest)
            | some (name, value) =>
              if value.length > BUFFER_SIZE then
                .ok (431, (r.fillError 431
                  (ascii "The " ++ name ++ ascii " header was too large")).2, rest)
              else
                headerLines fuel
                  { r.storeHeader name (value.dropWhile isBlank) with line := [] } rest := by
  rw [headerLines]
  by_cases hb : buffer = []
  · subst hb
    simp [pure, Except.pure]
  · simp only [hb, if_false, getLine_eq]
    cases hcut : cutAt 13 10 (r.line ++ buffer) with
    | none => simp [bind, Except.bind, pure, Except.pure]
    | some cut =>
      obtain ⟨line, rest⟩ := cut
      by_cases hl : line = []
      · subst hl
        simp [bind, Except.bind, pure, Except.pure]
      · simp only [hl, trimSpace, getHeaderName_eq, bind, Except.bind, pure, Except.pure,
          ne_eq, not_true_eq_false, if_false]
        cases splitColon (line.dropWhile isBlank) with
        | none => simp [fillError]
        | some header =>
          obtain ⟨name, value⟩ := header
          simp only
          split
          · simp [fillError]
          · rfl

/-- A bound above the joined length is never reached. -/
theorem headerLines_fuel (n m : ℕ) (r : Request) (buffer : Bytes)
    (hn : r.line.length + buffer.length < n) (hm : r.line.length + buffer.length < m) :
    headerLines n r buffer = headerLines m r buffer := by
  induction n generalizing m r buffer with
  | zero => omega
  | succ n ih =>
    obtain ⟨m, rfl⟩ : ∃ k, m = k + 1 := ⟨m - 1, by omega⟩
    rw [headerLines_succ, headerLines_succ]
    split
    · rfl
    · cases hcut : cutAt 13 10 (r.line ++ buffer) with
      | none => rfl
      | some cut =>
        obtain ⟨line, rest⟩ := cut
        have hlen := cutAt_length hcut
        simp only [List.length_append] at hlen
        simp only
        split
        · rfl
        · split
          · rfl
          · split
            · rfl
            · apply ih
              · simp only [List.length_nil]
                omega
              · simp only [List.length_nil]
                omega

/-- One turn of the loop over header lines. -/
theorem headerLoop_eq (r : Request) (buffer : Bytes) :
    headerLoop r buffer =
      if buffer = [] then
        let r := { r with header_size := toInt r.header_size }
        .ok (r.checkSizes.1, r.checkSizes.2, [])
      else match cutAt 13 10 (r.line ++ buffer) with
        | none =>
          let r := { r with line := r.line ++ buffer }
          .ok (r.checkSizes.1, r.checkSizes.2, [])
        | some (line, rest) =>
          if line = [] then
            .ok (-1, { r with status := .term, final_status := .host, line := [] }, rest)
          else match splitColon (line.dropWhile isBlank) with
            | none => .ok (400, (r.fillError 400 (ascii "Invalid header line")).2, rest)
            | some (name, value) =>
              if value.length > BUFFER_SIZE then
                .ok (431, (r.fillError 431
                  (ascii "The " ++ name ++ ascii " header was too large")).2, rest)
              else
                headerLoop
                  { r.storeHeader name (value.dropWhile isBlank) with line := [] } rest := by
  rw [headerLoop, headerLines_succ]
  split
  · rfl
  · cases hcut : cutAt 13 10 (r.line ++ buffer) with
    | none => rfl
    | some cut =>
      obtain ⟨line, rest⟩ := cut
      have hlen := cutAt_length hcut
      simp only [List.length_append] at hlen
      simp only
      split
      · rfl
      · split
        · rfl
        · split
          · rfl
          · apply headerLines_fuel
            · simp only [List.length_nil]
              omega
            · simp only [List.length_nil]
              omega

end Request

/-- What is done with the request line, in terms of the first CRLF of the joined text. -/
theorem Request.requestLine_eq (r : Request) (hr : r.status = .rline) (buffer : Bytes) :
    r.requestLine buffer =
      match cutAt 13 10 (r.line ++ buffer) with
      | none =>
        let r := { r with line := r.line ++ buffer }
        .ok (r.checkSizes.1, r.checkSizes.2, [])
      | some (line, rest) =>
        let r := { r with line := line }
        if line.length > BUFFER_SIZE then
          .ok (414, (r.fillError 414 (ascii "Request uri too long")).2, rest)
        else match r.parseRequestLine with
          | .error e => .error e
          | .ok (res, r) =>
            if res ≠ 0 then .ok (r.getError, r, rest)
            else headerLoop { r with line := [], status := .ongoing } rest := by
  rw [requestLine, if_pos hr, getLine_eq]
  simp only [bind, Except.bind, pure, Except.pure]
  cases cutAt 13 10 (r.line ++ buffer) with
  | none => rfl
  | some cut =>
    obtain ⟨line, rest⟩ := cut
    simp only [ne_eq, not_true_eq_false, if_false]
    split
    · rfl
    · cases ({ r with line := line } : Request).parseRequestLine with
      | error e => rfl
      | ok out => rfl

/-- The first word of a request line. -/
def methodWord (line : Bytes) : Bytes := line.takeWhile fun c => !isBlank c

/-- A request line from its second word on. -/
def targetPart (line : Bytes) : Bytes :=
  (line.dropWhile fun c => !isBlank c).dropWhile isBlank

theorem drop_nextSpace (idx : ℕ) (s : Bytes) :
    s.drop (nextSpace idx s) = (s.drop idx).dropWhile fun c => !isBlank c := by
  rw [nextSpace, ← List.drop_drop, drop_length_takeWhile]

theorem drop_skipSpaces (idx : ℕ) (s : Bytes) :
    s.drop (skipSpaces idx s) = (s.drop idx).dropWhile isBlank := by
  rw [skipSpaces, ← List.drop_drop, drop_length_takeWhile]

theorem drop_targetPart (line : Bytes) :
    line.drop (skipSpaces (nextSpace 0 line) line) = targetPart line := by
  rw [drop_skipSpaces, drop_nextSpace, List.drop_zero, targetPart]

theorem nextSpace_le {idx : ℕ} {s : Bytes} (h : idx ≤ s.length) : nextSpace idx s ≤ s.length := by
  have hlen := (List.takeWhile_prefix (fun c => !isBlank c) (l := s.drop idx)).length_le
  rw [List.length_drop] at hlen
  unfold nextSpace
  omega

theorem skipSpaces_le {idx : ℕ} {s : Bytes} (h : idx ≤ s.length) : skipSpaces idx s ≤ s.length := by
  have hlen := (List.takeWhile_prefix isBlank (l := s.drop idx)).length_le
  rw [List.length_drop] at hlen
  unfold skipSpaces
  omega

/-- The result of `checkVersion`, which never cuts past the end. -/
def versionCode (str : Bytes) : ℤ :=
  if str.length < 8 ∨ find (ascii "HTTP/") str ≠ some 0 then 1
  else if str.drop 5 ≠ ascii "1.1" ∧ str.drop 5 ≠ ascii "1.0" then 505
  else 0

theorem checkVersion_eq (str : Bytes) : checkVersion str = .ok (versionCode str) := by
  unfold checkVersion versionCode
  by_cases h : str.length < 8 ∨ find (ascii "HTTP/") str ≠ some 0
  · simp only [h, if_true]
    rfl
  · have hlen : 8 ≤ str.length := by
      have := (not_or.mp h).1
      omega
    have htake : (str.drop 5).take str.length = str.drop 5 := by
      apply List.take_of_length_le
      rw [List.length_drop]
      omega
    simp only [h, if_false]
    rw [substr_of_le _ (by omega), htake]
    simp only [bind, Except.bind, pure, Except.pure]
    split <;> rfl

/-- A request line that ends with its target: nothing is left for the version. -/
def EndsAtTarget (line : Bytes) : Prop := ∀ c ∈ targetPart line, isBlank c = false

instance (line : Bytes) : Decidable (EndsAtTarget line) := by
  unfold EndsAtTarget
  infer_instance

/-- The cut of a request line into words, in terms of the words themselves. -/
theorem Request.parseRequestLine_eq (r : Request) :
    r.parseRequestLine =
      if getMethodIndex (methodWord r.line) = none then
        .ok (({ r with method := none } : Request).fillError RES_NOT_IMPLEMENTED
          (ascii "Method Not Implemented"))
      else match (targetPart r.line).dropWhile fun c => !isBlank c with
        | [] => .error .position
        | _ :: version =>
          let r := { r with
            method := getMethodIndex (methodWord r.line)
            uri := (targetPart r.line).takeWhile fun c => !isBlank c }
          if versionCode version ≠ 0 then
            .ok (r.fillError RES_HTTP_VERSION_NOT_SUPPORTED
              (ascii "HTTP version not implemented"))
          else .ok (0, r) := by
  have hword : r.line.take (nextSpace 0 r.line) = methodWord r.line := by
    simp [nextSpace, methodWord, take_length_takeWhile]
  have hidx : skipSpaces (nextSpace 0 r.line) r.line ≤ r.line.length :=
    skipSpaces_le (nextSpace_le (Nat.zero_le _))
  unfold parseRequestLine
  simp only [substr_zero, hword, bind, Except.bind]
  by_cases hm : getMethodIndex (methodWord r.line) = none
  · simp [hm, pure, Except.pure]
  · have htarget := drop_targetPart r.line
    generalize skipSpaces (nextSpace 0 r.line) r.line = idx at hidx htarget ⊢
    have hsub : nextSpace idx r.line - idx =
        ((targetPart r.line).takeWhile fun c => !isBlank c).length := by
      rw [nextSpace, htarget]
      omega
    have hdrop : r.line.drop (nextSpace idx r.line) =
        (targetPart r.line).dropWhile fun c => !isBlank c := by
      rw [drop_nextSpace, htarget]
    simp only [hm, if_false, substr_of_le _ hidx, htarget, hsub, take_length_takeWhile]
    cases hrest : (targetPart r.line).dropWhile fun c => !isBlank c with
    | nil =>
      have hlen := congrArg List.length (hdrop.trans hrest)
      rw [List.length_drop, List.length_nil] at hlen
      rw [(substrFrom_eq_error_iff _ _).mpr (by omega)]
    | cons c version =>
      have hlen := congrArg List.length (hdrop.trans hrest)
      rw [List.length_drop, List.length_cons] at hlen
      have hversion : r.line.drop (nextSpace idx r.line + 1) = version := by
        rw [← List.drop_drop, hdrop, hrest, List.drop_one, List.tail_cons]
      rw [substrFrom_of_le (by omega), hversion]
      simp only [checkVersion_eq, pure, Except.pure]

end Webserveau.Requests
