import Webserveau.ChunkedSizes
import Webserveau.UploadStarts

/-!
The answers of the body parser, by the shape of the body.
How a body is framed and how many of its bytes have come settles what the parser answers
and what size it takes the body to have. The headers and the stream do not matter to it.
-/
namespace Webserveau.BodyShapes

open ByteStrings OrderedMaps Formats Requests Clients EventLoop Checks Segmentation
  HeadSegmentation BodySegmentation BodyIntake Acceptance ContentLength ChunkedDecoding
  ChunkedMessages TrailerSections ChunkedSizes ParserFrames UploadStarts UploadChecks

/-- An answer of the parser, with other headers and without a stream. -/
def bare (headers : HeaderMap) (out : ℤ × Body × Bytes) : ℤ × Body × Bytes :=
  (out.1, ({ out.2.1.1 with headers := headers }, none), out.2.2)

theorem checkSizes_headers (r : Request) (headers : HeaderMap) :
    ({ r with headers := headers } : Request).checkSizes =
      (r.checkSizes.1, { r.checkSizes.2 with headers := headers }) := by
  unfold Request.checkSizes
  dsimp only
  split
  · split
    · rfl
    · rfl
  · split
    · split
      · rfl
      · rfl
    · split
      · split
        · rfl
        · rfl
      · rfl

/-- The data of a chunk, where the loop goes on alike. -/
theorem chunkData_headers {next : Body → Bytes → Checked (ℤ × Body × Bytes)} (headers : HeaderMap)
    (r : Request) (stream : Option BodyStream) (buffer : Bytes)
    (hnext : ∀ (s : Request) (t : Option BodyStream) (rest : Bytes),
      s.line.length + rest.length < r.line.length + buffer.length →
        next ({ s with headers := headers }, none) rest =
          (next (s, t) rest).map (bare headers)) :
    Request.chunkData next ({ r with headers := headers }, none) buffer =
      (Request.chunkData next (r, stream) buffer).map (bare headers) := by
  unfold Request.chunkData
  dsimp only
  by_cases hend : r.len = 0
  · rw [if_pos hend, if_pos hend]
    rfl
  · rw [if_neg hend, if_neg hend]
    cases hcut : cutAt 13 10 (r.line ++ buffer) with
    | none =>
      have hsizes := checkSizes_headers { r with line := r.line ++ buffer } headers
      dsimp only at hsizes ⊢
      rw [hsizes]
      rfl
    | some cut =>
      obtain ⟨line, rest⟩ := cut
      have hshort := cutAt_length hcut
      rw [List.length_append] at hshort
      dsimp only
      by_cases hsize : line.length ≠ toSize r.len
      · rw [if_pos hsize, if_pos hsize]
        rfl
      · rw [if_neg hsize, if_neg hsize]
        refine hnext { r with line := [], len := -1, chunked_status := false } _ rest ?_
        simp only [List.length_nil]
        omega

theorem chunkLoop_headers (headers : HeaderMap) (r : Request) (stream : Option BodyStream)
    (buffer : Bytes) :
    Request.chunkLoop ({ r with headers := headers }, none) buffer =
      (Request.chunkLoop (r, stream) buffer).map (bare headers) := by
  induction hm : r.line.length + buffer.length using Nat.strong_induction_on
    generalizing r stream buffer with
  | h m ih =>
    have hnext : ∀ (s : Request) (t : Option BodyStream) (rest : Bytes),
        s.line.length + rest.length < m → Request.chunkLoop ({ s with headers := headers }, none)
          rest = (Request.chunkLoop (s, t) rest).map (bare headers) := by
      intro s t rest hlt
      exact ih _ hlt s t rest rfl
    rw [Request.chunkLoop_eq, Request.chunkLoop_eq]
    dsimp only
    by_cases hempty : buffer = []
    · rw [if_pos hempty, if_pos hempty]
      split
      · rfl
      · rfl
    · rw [if_neg hempty, if_neg hempty]
      by_cases hstatus : r.chunked_status = true
      · rw [if_pos hstatus, if_pos hstatus]
        exact chunkData_headers headers r stream buffer fun s t rest hlt =>
          hnext s t rest (by omega)
      · rw [if_neg hstatus, if_neg hstatus]
        unfold Request.chunkSize
        dsimp only
        cases hcut : cutAt 13 10 (r.line ++ buffer) with
        | none =>
          have hsizes := checkSizes_headers { r with line := r.line ++ buffer } headers
          dsimp only at hsizes ⊢
          rw [hsizes]
          split
          · rfl
          · rfl
        | some cut =>
          obtain ⟨line, rest⟩ := cut
          have hshort := cutAt_length hcut
          rw [List.length_append] at hshort
          dsimp only
          split
          · rfl
          · refine chunkData_headers headers { r with
              chunked_body_size := toInt (r.chunked_body_size - (line.length + 2))
              len := (getInt line 16 0).2
              line := []
              chunked_status := true } stream rest ?_
            intro s t rest' hlt
            simp only [List.length_nil] at hlt
            exact hnext s t rest' (by omega)

/-- Neither the headers nor the stream matter to the parser of a body that is open. -/
theorem parseInput_headers {r : Request} (h : Receiving r) (headers : HeaderMap)
    (stream : Option BodyStream) (x : Bytes) :
    Request.parseInput ({ r with headers := headers }, none) x =
      (Request.parseInput (r, stream) x).map (bare headers) := by
  have hopen : Receiving { r with headers := headers } :=
    ⟨h.head_done, h.body_open, h.unfinished, h.framed⟩
  by_cases hx : x = []
  · subst hx
    rw [parseInput_nil, parseInput_nil]
    rfl
  · by_cases hc : r.chunked = true
    · rw [parseInput_chunked h hc stream hx, parseInput_chunked hopen hc none hx]
      exact chunkLoop_headers headers (growBody (entered r) x.length) stream x
    · have hplain : r.chunked = false := by simpa using hc
      obtain ⟨hlow, hlt, hhigh⟩ := h.framed.resolve_left hc
      rw [parseInput_mesured h hplain stream hx, parseInput_mesured hopen hplain none hx,
        parseMesured_eq (entered r) stream x hlow hlt hhigh,
        parseMesured_eq (entered { r with headers := headers }) none x hlow hlt hhigh]
      by_cases hshort : (x.length : ℤ) < r.content_length - r.len
      · rw [if_pos (by exact hshort), if_pos (by exact hshort)]
        rfl
      · rw [if_neg (by exact hshort), if_neg (by exact hshort)]
        rfl

/-- The parser leaves the headers alone, and makes no stream. -/
theorem parseInput_bare {r : Request} (h : Receiving r) {x : Bytes} {out : ℤ × Body × Bytes}
    (hout : Request.parseInput (r, none) x = .ok out) :
    out.2.1.1.headers = r.headers ∧ out.2.1.2 = none := by
  have hsame := parseInput_headers h r.headers none x
  rw [show ({ r with headers := r.headers } : Request) = r from rfl, hout] at hsame
  have heq : out = bare r.headers out := by
    change Except.ok out = Except.ok (bare r.headers out) at hsame
    exact Except.ok.inj hsame
  rw [heq]
  exact ⟨rfl, rfl⟩

/-- How a body is framed. -/
inductive Shape
  | empty
  | measured (length : ℕ)
  | chunked (body : ChunkedBody)

namespace Shape

/-- The head of a request announces a body of the shape. -/
def Announced (r : Request) : Shape → Prop
  | .empty => bodyLength r ≤ 0 ∧ isChunked r = false
  | .measured length => bodyLength r = length ∧ 0 < length ∧ isChunked r = false
  | .chunked _ => isChunked r = true

/-- Whether a body is to be read. -/
def bodyStatus : Shape → BodyStatus
  | .empty => .none
  | .measured _ => .ongoing
  | .chunked _ => .ongoing

/-- Some bytes begin with a whole body. -/
def Begins : Shape → Bytes → Prop
  | .empty, _ => True
  | .measured length, bytes => length ≤ bytes.length
  | .chunked body, bytes => body.bytes <+: bytes

/-- The answer of the parser when `n` bytes have come behind the head. -/
def codeAfter (limit : ℤ) : Shape → ℕ → ℤ
  | .empty, _ => -1
  | .measured length, n => if n < length then 0 else -1
  | .chunked body, n => if n = 0 then 0 else codeAt body limit n

/-- The size that the body is then taken to have. -/
def sizeAfter : Shape → ℕ → ℤ
  | .empty, _ => -1
  | .measured length, _ => length
  | .chunked body, n =>
    toInt (body.payload.length + 2 * body.chunks.length + (n - body.bytes.length : ℕ))

end Shape

/-- A request in front of its body, whose head has been accepted. -/
inductive Before (limit : ℤ) : Shape → Request → Prop
  | empty {q : Request} : q.chunked = false → q.content_length = -1 → Before limit .empty q
  | measured {q : Request} {length : ℕ} : Receiving q → q.chunked = false →
      q.content_length = length → q.len = 0 → Before limit (.measured length) q
  | chunked {q : Request} {body : ChunkedBody} : BeforeBody q → q.body_max_size = limit →
      Before limit (.chunked body) q

theorem Before.of_hints {limit : ℤ} {shape : Shape} {q : Request} (h : Before limit shape q)
    (headers : HeaderMap) (hints : ResHints) :
    Before limit shape { q with headers := headers, resHints := hints } := by
  cases h with
  | empty hplain hlength => exact .empty hplain hlength
  | measured hreceiving hplain hlength hlen =>
    exact .measured ⟨hreceiving.head_done, hreceiving.body_open, hreceiving.unfinished,
      hreceiving.framed⟩ hplain hlength hlen
  | chunked hbefore hlimit =>
    exact .chunked ⟨hbefore.head_done, hbefore.body_new, hbefore.unfinished, hbefore.chunked,
      hbefore.line, hbefore.at_size, hbefore.counter⟩ hlimit

theorem Before.receiving {limit : ℤ} {shape : Shape} {q : Request} (h : Before limit shape q)
    (hshape : shape ≠ .empty) : Receiving q := by
  cases h with
  | empty => exact absurd rfl hshape
  | measured hreceiving => exact hreceiving
  | chunked hbefore => exact hbefore.receiving

theorem bytes_length_pos (body : ChunkedBody) : 0 < body.bytes.length :=
  List.length_pos_iff.mpr (wire_ne_nil body.last body.chunks)

/-- The parser has answered that the body is complete exactly when all of it has come. -/
theorem codeAfter_eq_iff (limit : ℤ) {shape : Shape} {sent x : Bytes} (hx : x <+: sent)
    (hsent : shape.Begins sent) : shape.codeAfter limit x.length = -1 ↔ shape.Begins x := by
  cases shape with
  | empty => exact ⟨fun _ => trivial, fun _ => rfl⟩
  | measured length =>
    show (if x.length < length then (0 : ℤ) else -1) = -1 ↔ length ≤ x.length
    by_cases hshort : x.length < length
    · rw [if_pos hshort]
      constructor
      · intro h
        cases h
      · omega
    · rw [if_neg hshort]
      exact ⟨fun _ => by omega, fun _ => rfl⟩
  | chunked body =>
    have hpos := bytes_length_pos body
    have hwhole : body.bytes <+: x ↔ body.bytes.length ≤ x.length :=
      ⟨fun h => h.length_le, fun h => List.prefix_of_prefix_length_le hsent hx h⟩
    show (if x.length = 0 then (0 : ℤ) else codeAt body limit x.length) = -1 ↔ body.bytes <+: x
    rw [hwhole]
    by_cases hnone : x.length = 0
    · rw [if_pos hnone]
      constructor
      · intro h
        cases h
      · omega
    · rw [if_neg hnone, codeAt]
      by_cases hshort : x.length < body.bytes.length
      · rw [if_pos hshort]
        constructor
        · intro h
          exact absurd h (answer_ne _ _ _ _)
        · omega
      · rw [if_neg hshort]
        exact ⟨fun _ => by omega, fun _ => rfl⟩

/-- What the parser answers to a front part of what is sent, and what it leaves of the
request once the body is complete. -/
theorem parseInput_codeAfter {limit : ℤ} {shape : Shape} {q : Request}
    (h : Before limit shape q) (hshape : shape ≠ .empty) {sent x : Bytes} (hx : x <+: sent)
    (hsent : shape.Begins sent) :
    ∃ out rest, Request.parseInput (q, none) x = .ok (shape.codeAfter limit x.length, out, rest) ∧
      (shape.codeAfter limit x.length = -1 → out.1.getBodySize = shape.sizeAfter x.length ∧
        out.1.type = q.type ∧ out.1.method = q.method ∧ out.1.resHints = q.resHints) := by
  cases h with
  | empty => exact absurd rfl hshape
  | @measured _ length hreceiving hplain hlength hlen =>
    obtain ⟨hwaits, hdone⟩ := parseInput_counts hreceiving hplain hlength
      (by rw [hlen]; rfl : q.len = (0 : ℕ)) none x
    have hcode : Shape.codeAfter limit (.measured length) x.length =
        if x.length < length then 0 else -1 := rfl
    rw [hcode]
    by_cases hshort : x.length < length
    · obtain ⟨r, -, -, -, hparse⟩ := hwaits (by omega)
      rw [if_pos hshort]
      refine ⟨_, _, hparse, ?_⟩
      intro h
      cases h
    · obtain ⟨r, hcounted, hparse⟩ := hdone (by omega)
      rw [if_neg hshort]
      refine ⟨_, _, hparse, fun _ => ?_⟩
      obtain ⟨len, b_status, final_status, rfl⟩ := hcounted
      refine ⟨?_, rfl, rfl, rfl⟩
      show (if q.chunked = true then q.chunked_body_size else q.content_length) = (length : ℤ)
      rw [hplain, hlength]
      rfl
  | @chunked _ body hbefore hlimit =>
    have hcode : Shape.codeAfter limit (.chunked body) x.length =
        if x.length = 0 then 0 else codeAt body limit x.length := rfl
    rw [hcode]
    by_cases hnone : x.length = 0
    · obtain rfl := List.length_eq_zero_iff.mp hnone
      rw [if_pos hnone]
      refine ⟨_, _, parseInput_nil _, ?_⟩
      intro h
      cases h
    · obtain ⟨tail, htail⟩ := hsent
      rw [← htail] at hx
      obtain ⟨out, rest, hparse, hbehind⟩ := @parseInput_codeAt _ _ none _ hbefore _ hx
        (fun hnil => hnone (by rw [hnil]; rfl))
      rw [if_neg hnone]
      rw [hlimit] at hparse
      refine ⟨out, rest, hparse, ?_⟩
      intro hdone
      have hlong : body.bytes.length ≤ x.length := by
        by_contra hshort
        rw [codeAt, if_pos (by omega)] at hdone
        exact answer_ne _ _ _ _ hdone
      rw [hbehind hlong]
      exact ⟨getBodySize_behind hbefore hlong, rfl, rfl, rfl⟩

theorem Shape.bodyStatus_eq {r : Request} {shape : Shape} (h : shape.Announced r) :
    (if bodyLength r > 0 ∨ isChunked r = true then .ongoing else .none) = shape.bodyStatus := by
  cases shape with
  | empty =>
    obtain ⟨hlength, hplain⟩ := h
    apply if_neg
    rw [hplain]
    simpa using hlength
  | measured length =>
    obtain ⟨hlength, hpos, -⟩ := h
    exact if_pos (Or.inl (by omega))
  | chunked body => exact if_pos (Or.inr h)

/-- An accepted request that is not left in the error status stands in front of its body. -/
theorem before_of_resolved {input rest : Bytes} {r : Request}
    (hparse : Request.parseHeaders {} input = .ok (-1, r, rest)) {host : Host} {limit : ℤ}
    {q : Request} (h : Resolved host (announcedRequest limit r) q)
    (hfinal : q.final_status ≠ .error) {shape : Shape} (hshape : shape.Announced r) :
    Before limit shape q := by
  have hread := headRead_of_parse hparse
  obtain ⟨hsize, hline⟩ := parseHeaders_headEnd _ _ _ hparse
  obtain ⟨headers, uri, status, header_size, line, final_status, method, hints, hwritten⟩ :=
    parseHeaders_written _ _ _ hparse
  have hcounter : r.chunked_body_size = 0 ∧ r.content_length = -1 := by
    change r = _ at hwritten
    rw [hwritten]
    exact ⟨rfl, rfl⟩
  have hserved : ∃ suffix type hints, q =
      { announcedRequest limit r with
        uri := r.uri ++ suffix
        type := type
        resHints := hints } := by
    cases h with
    | served suffix _ _ hserved =>
      obtain ⟨type, hints, hserved⟩ := hserved
      exact ⟨suffix, type, hints, hserved⟩
    | broken suffix _ _ hbroken =>
      obtain ⟨type, hints, hbroken⟩ := hbroken
      rw [hbroken] at hfinal
      exact absurd rfl hfinal
  obtain ⟨suffix, type, hints', hserved⟩ := hserved
  have hunfinished : r.final_status.index ≤ FinalStatus.trailer.index := by
    rw [hread.final_status]
    decide
  rw [hserved]
  cases shape with
  | empty =>
    obtain ⟨hlength, hplain⟩ := hshape
    refine .empty ?_ ?_
    · show (isChunked r || r.chunked) = false
      rw [hplain, hread.chunked]
      rfl
    · show (if bodyLength r > 0 then bodyLength r else r.content_length) = -1
      rw [if_neg (by omega), hcounter.2]
  | measured length =>
    obtain ⟨hlength, hpos, hplain⟩ := hshape
    have hannounced : bodyLength r > 0 := by omega
    have hle := bodyLength_le r
    have hcontent : (if bodyLength r > 0 then bodyLength r else r.content_length) = length := by
      rw [if_pos hannounced, hlength]
    refine .measured ⟨hread.status, Or.inl hread.b_status, hunfinished, Or.inr ?_⟩ ?_ hcontent
      hread.len
    · show 0 ≤ r.len ∧ r.len < (if bodyLength r > 0 then bodyLength r else r.content_length) ∧
        (if bodyLength r > 0 then bodyLength r else r.content_length) ≤ INT32_MAX
      rw [hread.len, if_pos hannounced]
      exact ⟨Int.le_refl 0, hannounced, hle⟩
    · show (isChunked r || r.chunked) = false
      rw [hplain, hread.chunked]
      rfl
  | chunked body =>
    have hchunked : isChunked r = true := hshape
    refine .chunked ⟨hread.status, hread.b_status, hunfinished, ?_, hline rfl, hsize,
      hcounter.1⟩ ?_
    · show (isChunked r || r.chunked) = true
      rw [hchunked]
      rfl
    · show (if bodyLength r > 0 ∨ isChunked r = true then limit else r.body_max_size) = _
      rw [if_pos (Or.inr hchunked)]

/-- An accepted request that is served as a file stands in front of its body. -/
theorem before_of_passed {input rest : Bytes} {r : Request}
    (hparse : Request.parseHeaders {} input = .ok (-1, r, rest)) {c d : Client}
    (hget : c.getRequest = r) (hbody : c.bodyStatus = .none) (h : Passed c d)
    (htype : d.getRequest.type = .static) {shape : Shape} (hshape : shape.Announced r) :
    Before (hostOf c).getMaxSize shape d.getRequest ∧
      d.bodyStatus = shape.bodyStatus := by
  have hresolved := h.resolved
  rw [hget] at hresolved
  have hfinal : d.getRequest.final_status ≠ .error := by
    rw [h.unmoved htype, hget, (headRead_of_parse hparse).final_status]
    exact nofun
  refine ⟨before_of_resolved hparse hresolved hfinal hshape, ?_⟩
  rw [h.rest, ← Shape.bodyStatus_eq hshape, ← hget, ← hbody]

end Webserveau.BodyShapes
