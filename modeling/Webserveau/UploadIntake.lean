import Webserveau.ChunkedIntake
import Webserveau.ContentLength

/-!
The file of an upload while its request is held.
The stream receives the body as it comes in, measured or in chunks. While the body is
open the parser can go on; once it has failed it stays failed; and a body that is complete
stands in the stream as the bytes behind the head spell it.
-/
namespace Webserveau.UploadIntake

open ByteStrings OrderedMaps Formats Requests Clients EventLoop Checks HeadSafety ParserFrames
  Transitions BodySegmentation Acceptance BodyIntake ContentLength ChunkedMessages ChunkedIntake

/-- The bytes behind a head begin with its complete body. -/
inductive IsBody (r : Request) (seen : Bytes) : Bytes → Prop
  | measured : isChunked r = false → (bodyLength r).toNat ≤ seen.length →
      IsBody r seen (seen.take (bodyLength r).toNat)
  | chunked (b : ChunkedBody) (rest : Bytes) : isChunked r = true → seen = b.bytes ++ rest →
      IsBody r seen b.payload

theorem IsBody.append {r : Request} {seen body : Bytes} (h : IsBody r seen body) (x : Bytes) :
    IsBody r (seen ++ x) body := by
  cases h with
  | measured hplain hlength =>
    rw [← List.take_append_of_le_length hlength]
    exact .measured hplain (by rw [List.length_append]; omega)
  | chunked b rest hchunked hseen =>
    refine .chunked b (rest ++ x) hchunked ?_
    rw [hseen, List.append_assoc]

/-- A body that is open: what was seen of it is in the parser and in the stream. -/
inductive BodyOpen (r : Request) (seen : Bytes) (q : Request) (written : Bytes) : Prop
  | measured : isChunked r = false → Receiving q → q.chunked = false →
      q.content_length = (bodyLength r).toNat → q.len = seen.length → written = seen →
      BodyOpen r seen q written
  | chunked : isChunked r = true → Receiving q → q.chunked = true → Midway q seen written →
      BodyOpen r seen q written

/-- The headers and the hints do not matter to the body parser. -/
theorem BodyOpen.of_hints {r q : Request} {seen written : Bytes} (h : BodyOpen r seen q written)
    (headers : HeaderMap) (hints : ResHints) :
    BodyOpen r seen { q with headers := headers, resHints := hints } written := by
  have hkept : Receiving q → Receiving { q with headers := headers, resHints := hints } :=
    fun h => ⟨h.head_done, h.body_open, h.unfinished, h.framed⟩
  cases h with
  | measured hplain hreceiving hq hlength hlen hwritten =>
    exact .measured hplain (hkept hreceiving) hq hlength hlen hwritten
  | chunked hchunked hreceiving hq hmidway =>
    refine .chunked hchunked (hkept hreceiving) hq ?_
    obtain ⟨cs, tail, hseen, hpayload, hpending⟩ := hmidway
    refine ⟨cs, tail, hseen, hpayload, ?_⟩
    cases hpending with
    | size hstatus => exact .size hstatus
    | data hstatus hsize hn hlen => exact .data hstatus hsize hn hlen

/-- The answer of the body parser to more bytes. -/
structure Parses (r : Request) (seen : Bytes) (opened : Bool) (out : ℤ × Body × Bytes) : Prop where
  answer : Answer out.1
  stream : ∃ stream, out.2.1.2 = some stream ∧ stream.opened = opened ∧
    (out.1 = 0 → out.2.2 = [] ∧ BodyOpen r seen out.2.1.1 stream.written) ∧
    (out.1 = -1 → IsBody r seen stream.written)
  fails : 0 < out.1 → out.2.1.1.final_status = .error

theorem parseInput_parses {r q : Request} {seen : Bytes} {stream : BodyStream}
    (h : BodyOpen r seen q stream.written) (x : Bytes) :
    Ends (Request.parseInput (q, some stream) x) (Parses r (seen ++ x) stream.opened) := by
  intro out hout
  have hanswer := (parseInput_call _ _ _ hout).1
  by_cases hx : x = []
  · subst hx
    rw [parseInput_nil, Except.ok.injEq] at hout
    subst hout
    refine ⟨hanswer, ⟨stream, rfl, rfl, fun _ => ⟨rfl, ?_⟩, ?_⟩, ?_⟩
    · rw [List.append_nil]
      exact h
    · intro hdone
      cases hdone
    · intro hpos
      exact absurd hpos (Int.lt_irrefl 0)
  · cases h with
    | measured hplain hreceiving hq hlength hlen hwritten =>
      obtain ⟨hlow, hlt, hhigh⟩ := hreceiving.framed.resolve_left (by simp [hq])
      rw [hlength, hlen] at hlt
      have hbefore : seen.length ≤ (bodyLength r).toNat := by omega
      obtain ⟨hshort, hfull⟩ := parseInput_counts hreceiving hq hlength hlen (some stream) x
      by_cases hmore : x.length < (bodyLength r).toNat - seen.length
      · obtain ⟨q', hcounted, hreceiving', hlen', hparse⟩ := hshort hmore
        rw [hout, Except.ok.injEq] at hparse
        subst hparse
        refine ⟨hanswer, ⟨_, rfl, rfl, fun _ => ⟨rfl, ?_⟩, ?_⟩, ?_⟩
        · obtain ⟨len, b_status, final_status, rfl⟩ := hcounted
          refine .measured hplain hreceiving' hq hlength ?_ ?_
          · rw [List.length_append]
            exact hlen'
          · show stream.written ++ x = seen ++ x
            rw [hwritten]
        · intro hdone
          cases hdone
        · intro hpos
          exact absurd hpos (Int.lt_irrefl 0)
      · obtain ⟨q', -, hparse⟩ := hfull (by omega)
        rw [hout, Except.ok.injEq] at hparse
        subst hparse
        refine ⟨hanswer, ⟨_, rfl, rfl, ?_, fun _ => ?_⟩, ?_⟩
        · intro hzero
          cases hzero
        · have htake : stream.written ++ x.take ((bodyLength r).toNat - seen.length) =
              (seen ++ x).take (bodyLength r).toNat := by
            rw [hwritten, List.take_append, List.take_of_length_le hbefore]
          show IsBody r (seen ++ x) (stream.written ++ x.take ((bodyLength r).toNat - seen.length))
          rw [htake]
          refine .measured hplain ?_
          rw [List.length_append]
          omega
        · intro hpos
          exact absurd hpos (by decide : ¬ (0 : ℤ) < -1)
    | chunked hchunked hreceiving hq hmidway =>
      have hgrown : Midway (growBody (entered q) x.length) seen stream.written := by
        obtain ⟨cs, tail, hseen, hpayload, hpending⟩ := hmidway
        refine ⟨cs, tail, hseen, hpayload, ?_⟩
        cases hpending with
        | size hstatus => exact .size hstatus
        | data hstatus hsize hn hlen => exact .data hstatus hsize hn hlen
      rw [parseInput_chunked hreceiving hq (some stream) hx] at hout
      obtain ⟨⟨stream', hstream, hopened, hwaits, hdone⟩, hrest, hfails⟩ :=
        chunkLoop_takenIn _ x stream seen hgrown _ hout
      refine ⟨hanswer, ⟨stream', hstream, hopened, fun hzero => ⟨hrest hzero, ?_⟩, ?_⟩, hfails⟩
      · obtain ⟨res, ⟨q', stream''⟩, rest⟩ := out
        dsimp only at hzero hwaits ⊢
        subst hzero
        obtain ⟨hphase, -, -⟩ := chunkLoop_append _ _ x rfl _ _ _ hout
        have hphase' : SamePhase (entered q) q' := hphase
        refine .chunked hchunked (hreceiving.entered.of_samePhase hphase' hq) ?_ (hwaits rfl)
        rw [hphase'.2.2.2.1]
        exact hq
      · intro hend
        obtain ⟨b, hbytes, hpayload⟩ := hdone hend
        rw [hpayload]
        exact .chunked b _ hchunked hbytes

/-- How far the body of a held request has come. -/
inductive Phase (r : Request) (seen : Bytes) (d : Client) (written : Bytes) : Prop
  | filling : d.bodyStatus = .ongoing → d.buffer = [] → BodyOpen r seen d.getRequest written →
      Phase r seen d written
  | failed : d.bodyStatus = .ongoing → d.getRequest.final_status = .error →
      Phase r seen d written
  | complete : d.bodyStatus ≠ .ongoing → IsBody r seen written → Phase r seen d written

/-- A client that holds an upload and has not released it. -/
structure Storing (r : Request) (target : Bytes) (opened : Bool) (seen : Bytes) (d : Client) :
    Prop where
  request : d.request.isSome = true
  header : d.headerStatus = .done
  type : d.getRequest.type = .static
  unlink : d.getRequest.resHints.unlink = false
  file : d.bodyFileName = target
  process : d.cgiProcess = none
  stream : ∃ stream, d.bodyStream = some stream ∧ stream.opened = opened ∧
    Phase r seen d stream.written

/-- What the body parser works on is untouched, and so is the file it writes to. -/
structure SameUpload (c d : Client) : Prop where
  header : d.headerStatus = c.headerStatus
  body : d.bodyStatus = c.bodyStatus
  buffer : d.buffer = c.buffer
  stream : d.bodyStream = c.bodyStream
  file : d.bodyFileName = c.bodyFileName
  process : d.cgiProcess = c.cgiProcess
  isSome : c.request.isSome = true → d.request.isSome = true
  request : ∃ headers hints, d.getRequest =
      { c.getRequest with headers := headers, resHints := hints } ∧
    (c.getRequest.resHints.unlink = false → hints.unlink = false)

theorem SameUpload.refl (c : Client) : SameUpload c c :=
  ⟨rfl, rfl, rfl, rfl, rfl, rfl, fun h => h, c.getRequest.headers, c.getRequest.resHints, rfl,
    fun h => h⟩

theorem SameUpload.trans {c d e : Client} (h : SameUpload c d) (h' : SameUpload d e) :
    SameUpload c e := by
  obtain ⟨headers, hints, hrequest, hunlink⟩ := h.request
  obtain ⟨headers', hints', hrequest', hunlink'⟩ := h'.request
  refine ⟨h'.header.trans h.header, h'.body.trans h.body, h'.buffer.trans h.buffer,
    h'.stream.trans h.stream, h'.file.trans h.file, h'.process.trans h.process,
    fun hsome => h'.isSome (h.isSome hsome), headers', hints', ?_, ?_⟩
  · rw [hrequest', hrequest]
  · intro hkept
    refine hunlink' ?_
    rw [hrequest]
    exact hunlink hkept

theorem Storing.same {r : Request} {target seen : Bytes} {opened : Bool} {c d : Client}
    (h : Storing r target opened seen c) (hsame : SameUpload c d) :
    Storing r target opened seen d := by
  obtain ⟨headers, hints, hrequest, hunlink⟩ := hsame.request
  obtain ⟨stream, hstream, hopened, hphase⟩ := h.stream
  refine ⟨hsame.isSome h.request, hsame.header.trans h.header, ?_, ?_, hsame.file.trans h.file,
    hsame.process.trans h.process, stream, hsame.stream.trans hstream, hopened, ?_⟩
  · rw [hrequest]
    exact h.type
  · rw [hrequest]
    exact hunlink h.unlink
  · cases hphase with
    | filling hbody hbuffer hopen =>
      refine .filling (hsame.body.trans hbody) (hsame.buffer.trans hbuffer) ?_
      rw [hrequest]
      exact hopen.of_hints headers hints
    | failed hbody herror =>
      refine .failed (hsame.body.trans hbody) ?_
      rw [hrequest]
      exact herror
    | complete hbody hcomplete =>
      refine .complete ?_ hcomplete
      rw [hsame.body]
      exact hbody

end Webserveau.UploadIntake
