import Webserveau.ChunkedMessages

/-!
What follows the last chunk.
The body parser answers -1 at the line of the last chunk, so the trailer section stays in
the buffer and is what the next request begins with. The head parser of that request skips
everything before the first letter.
-/
namespace Webserveau.TrailerSections

open ByteStrings OrderedMaps Formats Requests Segmentation BodySegmentation ChunkedDecoding
open ChunkedMessages

/-- A trailer header line: a name, a colon and the rest of the line. -/
structure Trailer where
  name : Bytes
  raw : Bytes
  named : name ≠ []
  split : splitColon (name ++ [58] ++ raw) = some (name, raw)
  unbroken : ¬ [13, 10] <:+: name ++ [58] ++ raw
  allowed : name ≠ ascii "Trailer" ∧ name ≠ ascii "Content-Length" ∧
    name ≠ ascii "Transfer-Encoding"

namespace Trailer

def value (t : Trailer) : Bytes := t.raw.dropWhile isBlank

def bytes (t : Trailer) : Bytes := t.name ++ [58] ++ t.raw ++ [13, 10]

end Trailer

/-- The trailer header lines and the blank line. -/
def trailerBytes (ts : List Trailer) : Bytes := (ts.map Trailer.bytes).flatten ++ [13, 10]

/-- The request with trailer fields added to its headers, each behind the value already
stored. -/
def addTrailers (r : Request) (ts : List Trailer) : Request :=
  ts.foldl (fun r t =>
    { r with headers := r.headers.insert t.name (joinTrailer (r.getHeader t.name) t.value) }) r

/-- The bytes at which the head parser of a new request begins. -/
def nextStart (buffer : Bytes) : Bytes := buffer.dropWhile fun c => !isalpha c

theorem parseHeaders_nextStart {r : Request} (hr : r.status = .new) {buffer : Bytes}
    (hne : nextStart buffer ≠ []) :
    r.parseHeaders buffer = Request.requestLine
      { r with status := .rline, header_size := toInt (nextStart buffer).length }
      (nextStart buffer) := by
  unfold nextStart at hne ⊢
  rw [Request.parseHeaders, if_neg (by simp [hr]), if_pos hr]
  dsimp only
  rw [if_neg hne]

/-- Bytes in front are skipped when there is no letter among them. -/
theorem nextStart_append_iff (x y : Bytes) :
    nextStart (x ++ y) = nextStart y ↔ ∀ c ∈ x, isalpha c = false := by
  unfold nextStart
  constructor
  · intro heq c hc
    by_contra hletter
    have hsome : x.dropWhile (fun c => !isalpha c) ≠ [] := by
      rw [ne_eq, List.dropWhile_eq_nil_iff]
      intro hall
      have hskipped := hall c hc
      simp [hletter] at hskipped
    rw [List.dropWhile_append, if_neg (by simpa using hsome)] at heq
    have hlen := congrArg List.length heq
    have hpos := List.length_pos_iff.mpr hsome
    have hle := (List.dropWhile_suffix (l := y) fun c => !isalpha c).length_le
    rw [List.length_append] at hlen
    omega
  · intro hall
    have hnil : x.dropWhile (fun c => !isalpha c) = [] := by
      rw [List.dropWhile_eq_nil_iff]
      intro c hc
      simp [hall c hc]
    rw [List.dropWhile_append, if_pos (by simp [hnil])]

section Accepted

variable {r : Request} (b : ChunkedBody) {stream : Option BodyStream}

/-- An answer inside a body is never -1. -/
theorem answer_ne (limit : ℤ) (cs : List Chunk) (counter : ℤ) (n : ℕ) :
    answer limit cs counter n ≠ -1 := by
  unfold answer
  split
  · decide
  · split
    · decide
    · decide

/-- A run that is answered -1 has read the body, and leaves what it read behind it. -/
theorem endsWith_accepted (h : BeforeBody r) {tail : Bytes} {reads after : List Bytes} {out : Body}
    {rest : Bytes} (hstream : (reads ++ after).flatten = b.bytes ++ tail)
    (hrun : EndsWith r stream reads (-1) out rest) :
    reads.flatten = b.bytes ++ rest ∧ rest ++ after.flatten = tail ∧
      out = (behind (growBody (entered r) reads.flatten.length) (framing b.last b.chunks),
        BodyStream.close (BodyStream.write stream b.payload)) := by
  have hne : reads ≠ [] := by
    rintro rfl
    simp [EndsWith, callAll] at hrun
  obtain ⟨before, read, rfl⟩ : ∃ before read, reads = before ++ [read] :=
    ⟨_, _, (List.dropLast_append_getLast hne).symm⟩
  obtain ⟨-, hcall⟩ := (endsWith_iff stream h before read (-1) out rest).mp hrun
  rw [List.flatten_append] at hstream
  generalize (before ++ [read]).flatten = x at hstream hcall ⊢
  by_cases hshort : x.length < b.bytes.length
  · have hprefix : x <+: b.bytes := by
      have hlong : x <+: b.bytes ++ tail := by
        rw [← hstream]
        exact List.prefix_append _ _
      exact List.prefix_of_prefix_length_le hlong (List.prefix_append _ _) (by omega)
    by_cases hempty : x = []
    · rw [hempty, parseInput_nil] at hcall
      simp at hcall
    · have hproper : x ≠ b.bytes := by
        rintro rfl
        omega
      obtain ⟨s, left, hfront⟩ := parseInput_front b stream h hprefix hproper hempty
      rw [hcall, Except.ok.injEq, Prod.mk.injEq] at hfront
      exact absurd hfront.1.symm (answer_ne _ _ _ _)
  · have hprefix : b.bytes <+: x := by
      have hlong : x <+: b.bytes ++ tail := by
        rw [← hstream]
        exact List.prefix_append _ _
      exact List.prefix_of_prefix_length_le (List.prefix_append _ _) hlong (by omega)
    obtain ⟨t, rfl⟩ := hprefix
    rw [parseInput_whole b stream h t, Except.ok.injEq, Prod.mk.injEq, Prod.mk.injEq] at hcall
    obtain ⟨-, rfl, rfl⟩ := hcall
    rw [List.append_assoc, List.append_cancel_left_eq] at hstream
    exact ⟨rfl, hstream, rfl⟩

/-- One read with a whole body and bytes behind it. -/
theorem endsWith_single (h : BeforeBody r) (tail : Bytes) :
    EndsWith r stream [b.bytes ++ tail] (-1)
      (behind (growBody (entered r) (b.bytes ++ tail).length) (framing b.last b.chunks),
        BodyStream.close (BodyStream.write stream b.payload)) tail := by
  refine (endsWith_iff stream h [] (b.bytes ++ tail) _ _ _).mpr ⟨⟨_, _, rfl⟩, ?_⟩
  rw [List.nil_append, List.flatten_singleton]
  exact parseInput_whole b stream h tail

/-- The trailer fields reach the headers and the next request begins behind the trailer
section, on every cut into reads, exactly when the section holds no letter and its fields
change nothing. -/
theorem trailers_taken_iff (h : BeforeBody r) (ts : List Trailer) (further : Bytes)
    {reads after : List Bytes} {r' : Request} {stream' : Option BodyStream} {rest : Bytes}
    (hstream : (reads ++ after).flatten = b.bytes ++ (trailerBytes ts ++ further))
    (hrun : EndsWith r stream reads (-1) (r', stream') rest) :
    (r'.headers = (addTrailers r ts).headers ∧
        nextStart (rest ++ after.flatten) = nextStart further) ↔
      (addTrailers r ts).headers = r.headers ∧ ∀ c ∈ trailerBytes ts, isalpha c = false := by
  obtain ⟨-, hleft, hout⟩ := endsWith_accepted b h hstream hrun
  have hheaders : r'.headers = r.headers := congrArg (fun out : Body => out.1.headers) hout
  rw [hleft, nextStart_append_iff, hheaders]
  exact and_congr_left' eq_comm

end Accepted

/-- A body without chunks. -/
def emptyBody : ChunkedBody where
  chunks := []
  last := ascii "0"
  zero := ⟨by decide, by decide⟩

theorem chunkedRequest_beforeBody : BeforeBody chunkedRequest :=
  ⟨rfl, rfl, by decide, rfl, rfl, rfl, rfl⟩

theorem no_trailers_taken :
    ∃ r' stream' rest, EndsWith chunkedRequest none [emptyBody.bytes ++ ascii "\r\nGET"] (-1)
        (r', stream') rest ∧
      r'.headers = (addTrailers chunkedRequest []).headers ∧
      nextStart (rest ++ [ascii " / HTTP/1.1"].flatten) = nextStart (ascii "GET / HTTP/1.1") := by
  have hrun : EndsWith chunkedRequest none _ _ _ _ :=
    endsWith_single emptyBody chunkedRequest_beforeBody (ascii "\r\nGET")
  refine ⟨_, _, _, hrun, ?_⟩
  have hstream : ([emptyBody.bytes ++ ascii "\r\nGET"] ++ [ascii " / HTTP/1.1"]).flatten =
      emptyBody.bytes ++ (trailerBytes [] ++ ascii "GET / HTTP/1.1") := by decide
  exact (trailers_taken_iff emptyBody chunkedRequest_beforeBody [] _ hstream hrun).mpr
    ⟨rfl, by decide +kernel⟩

/-- A request that announces the trailer field `x`. -/
def announcing : Request :=
  { chunkedRequest with headers := chunkedRequest.headers.insert (ascii "Trailer") (ascii "x") }

def oneTrailer : Trailer where
  name := ascii "x"
  raw := ascii " 1"
  named := by decide
  split := by decide
  unbroken := by decide
  allowed := by decide

/-- An announced trailer field is not stored, and its line is read as a request line. -/
theorem trailer_left_behind :
    ∃ r' rest, EndsWith announcing none
        [emptyBody.bytes ++ (trailerBytes [oneTrailer] ++ ascii "GET / HTTP/1.1\r\n\r\n")] (-1)
        (r', none) rest ∧
      r'.getHeader (ascii "x") ≠ (addTrailers announcing [oneTrailer]).getHeader (ascii "x") ∧
      nextStart rest = trailerBytes [oneTrailer] ++ ascii "GET / HTTP/1.1\r\n\r\n" ∧
      ((Request.parseHeaders {} rest).toOption.map fun out => out.1) = some 501 := by
  have hbefore : BeforeBody announcing := ⟨rfl, rfl, by decide, rfl, rfl, rfl, rfl⟩
  refine ⟨_, _, endsWith_single emptyBody hbefore _, ?_, ?_, ?_⟩
  · decide
  · decide
  · decide +kernel

end Webserveau.TrailerSections
