import Webserveau.ChunkedDecoding

/-!
Chunked bodies in the spelling of their sender, and the loop over chunks on every front
part of one.
A size line may be any text that is read as the length of its chunk. Where the front part
ends decides the answer: the counter holds the bytes read less the size lines that are
complete, and is compared with the limit wherever more bytes are asked for.
-/
namespace Webserveau.ChunkedMessages

open ByteStrings OrderedMaps Formats Requests Segmentation BodySegmentation ChunkedDecoding

/-- A chunk with its size line. -/
structure Chunk where
  line : Bytes
  data : Bytes
  size : SizeLine line data.length
  nonempty : data ≠ []
  unbroken : ¬ [13, 10] <:+: data

namespace Chunk

def bytes (c : Chunk) : Bytes := c.line ++ [13, 10] ++ (c.data ++ [13, 10])

end Chunk

/-- Chunks in order, and the line of the last chunk. -/
structure ChunkedBody where
  chunks : List Chunk
  last : Bytes
  zero : SizeLine last 0

/-- The bytes of chunks and of the last chunk. -/
def wire (last : Bytes) : List Chunk → Bytes
  | [] => last ++ [13, 10]
  | c :: cs => c.bytes ++ wire last cs

/-- The payload of chunks. -/
def payload (cs : List Chunk) : Bytes := (cs.map Chunk.data).flatten

/-- The size lines that end in the first `n` bytes of chunks. -/
def sizeBytes : List Chunk → ℕ → ℕ
  | [], _ => 0
  | c :: cs, n =>
    if n < c.line.length + 2 then 0 else c.line.length + 2 + sizeBytes cs (n - c.bytes.length)

/-- The first `n` bytes of chunks end in a size line, too far behind its start. -/
def overlong : List Chunk → ℕ → Bool
  | [], n => BUFFER_SIZE < n
  | c :: cs, n =>
    if n < c.line.length + 2 then BUFFER_SIZE < n else overlong cs (n - c.bytes.length)

/-- The answer to the first `n` bytes of chunks, of which the counter stands at `counter`. -/
def answer (limit : ℤ) (cs : List Chunk) (counter : ℤ) (n : ℕ) : ℤ :=
  if overlong cs n then 400
  else if toInt (counter - sizeBytes cs n) > limit then 413
  else 0

namespace ChunkedBody

def bytes (b : ChunkedBody) : Bytes := wire b.last b.chunks

def payload (b : ChunkedBody) : Bytes := ChunkedMessages.payload b.chunks

end ChunkedBody

theorem wire_ne_nil (last : Bytes) (cs : List Chunk) : wire last cs ≠ [] := by
  cases cs with
  | nil => simp [wire]
  | cons c cs => simp [wire, Chunk.bytes]

theorem length_bytes (c : Chunk) : c.bytes.length = c.line.length + 2 + (c.data.length + 2) := by
  simp only [Chunk.bytes, List.length_append, List.length_cons, List.length_nil]

/-- A request inside a chunked body, in front of a size line. -/
structure InBody (r : Request) : Prop where
  head_done : r.status = .term
  body_open : r.b_status = .ongoing
  chunked : r.chunked = true
  line : r.line = []
  at_size : r.chunked_status = false
  counter : toInt r.chunked_body_size = r.chunked_body_size

theorem checkSizes_body {r : Request} (hs : r.status = .term) (hb : r.b_status = .ongoing)
    (hc : r.chunked = true) :
    r.checkSizes.1 = if r.chunked_body_size > r.body_max_size then 413 else 0 := by
  rw [Request.checkSizes, if_neg (by simp [hs]), if_pos ⟨hs, hb⟩]
  by_cases hbig : r.chunked_body_size > r.body_max_size
  · rw [if_pos ⟨hc, hbig⟩, if_pos hbig]
    rfl
  · rw [if_neg (by simp [hbig]), if_neg hbig]

theorem InBody.filled {r : Request} (h : InBody r) (line : Bytes) (n : ℕ) :
    InBody (ChunkedDecoding.filled r line n) :=
  ⟨h.head_done, h.body_open, h.chunked, rfl, rfl, HeadSegmentation.toInt_toInt _⟩

/-- The answer to a buffer that ends in a size line. -/
theorem chunkLoop_in_size {r : Request} (h : InBody r) (stream : Option BodyStream) {p : Bytes}
    (hcut : cutAt 13 10 p = none) :
    ∃ b rest, Request.chunkLoop (r, stream) p =
      .ok (if BUFFER_SIZE < p.length then 400
        else if r.chunked_body_size > r.body_max_size then 413 else 0, b, rest) := by
  by_cases hempty : p = []
  · subst hempty
    have hshort : ¬ BUFFER_SIZE < ([] : Bytes).length := by simp
    rw [Request.chunkLoop_eq, if_pos rfl, if_neg hshort]
    by_cases hbig : r.chunked_body_size > r.body_max_size
    · rw [if_pos hbig, if_pos hbig]
      exact ⟨_, _, rfl⟩
    · rw [if_neg hbig, if_neg hbig]
      exact ⟨_, _, rfl⟩
  · rw [Request.chunkLoop_size h.at_size stream hempty, Request.chunkSize]
    simp only [h.line, List.nil_append, hcut]
    by_cases hlong : BUFFER_SIZE < p.length
    · rw [if_pos hlong, if_pos hlong]
      exact ⟨_, _, rfl⟩
    · rw [if_neg hlong, if_neg hlong]
      rw [checkSizes_body (r := { r with line := p }) h.head_done h.body_open h.chunked]
      exact ⟨_, _, rfl⟩

/-- The answer to a buffer that ends in the data of a chunk. -/
theorem chunkLoop_in_data {r : Request} (h : InBody r) (stream : Option BodyStream) {line : Bytes}
    {n : ℕ} (hn : SizeLine line n) (hpos : n ≠ 0) {q : Bytes} (hcut : cutAt 13 10 q = none) :
    ∃ b rest, Request.chunkLoop (r, stream) (line ++ [13, 10] ++ q) =
      .ok (if toInt (r.chunked_body_size - (line.length + 2)) > r.body_max_size then 413 else 0,
        b, rest) := by
  have hne : (sized r line n).len ≠ 0 := by
    show (n : ℤ) ≠ 0
    omega
  have hcut' : cutAt 13 10 ((sized r line n).line ++ q) = none := hcut
  rw [chunkLoop_sized h.line h.at_size stream hn, Request.chunkData]
  simp only [hne, if_false, hcut']
  rw [checkSizes_body (r := { sized r line n with line := (sized r line n).line ++ q }) h.head_done
    h.body_open h.chunked]
  exact ⟨_, _, rfl⟩

/-- The answer to every proper front part of a body. -/
theorem chunkLoop_front (last : Bytes) (hlast : SizeLine last 0) (cs : List Chunk) (r : Request)
    (h : InBody r) (stream : Option BodyStream) (p : Bytes) (hp : p <+: wire last cs)
    (hne : p ≠ wire last cs) :
    ∃ b rest, Request.chunkLoop (r, stream) p =
      .ok (answer r.body_max_size cs r.chunked_body_size p.length, b, rest) := by
  induction cs generalizing r stream p with
  | nil =>
    have hcut : cutAt 13 10 (wire last []) = some (last, []) :=
      (cutAt_eq_some_iff (by decide)).mpr ⟨by simp [wire], hlast.unbroken⟩
    have hshort : p.length < last.length + 2 := by
      have hlen := hp.length_le
      have hproper : p.length ≠ (wire last []).length := fun heq => hne (hp.eq_of_length heq)
      simp only [wire, List.length_append, List.length_cons, List.length_nil] at hlen hproper
      omega
    obtain ⟨b, rest, hloop⟩ := chunkLoop_in_size h stream (cutAt_short_front hcut hp hshort)
    refine ⟨b, rest, ?_⟩
    rw [hloop]
    simp only [answer, overlong, sizeBytes, Int.natCast_zero, Int.sub_zero, h.counter,
      decide_eq_true_eq]
  | cons c cs ih =>
    have hwire : wire last (c :: cs) = c.line ++ [13, 10] ++ (c.data ++ [13, 10] ++ wire last cs) := by
      simp [wire, Chunk.bytes]
    have hsize : cutAt 13 10 (wire last (c :: cs)) =
        some (c.line, c.data ++ [13, 10] ++ wire last cs) :=
      (cutAt_eq_some_iff (by decide)).mpr ⟨hwire, c.size.unbroken⟩
    by_cases hfirst : p.length < c.line.length + 2
    · obtain ⟨b, rest, hloop⟩ := chunkLoop_in_size h stream (cutAt_short_front hsize hp hfirst)
      refine ⟨b, rest, ?_⟩
      rw [hloop]
      simp only [answer, overlong, sizeBytes, hfirst, if_true, Int.natCast_zero, Int.sub_zero,
        h.counter, decide_eq_true_eq]
    · obtain ⟨q, -, hq, rfl⟩ := cutAt_long_front (by decide) hsize hp (by omega)
      have hdata : cutAt 13 10 (c.data ++ [13, 10] ++ wire last cs) = some (c.data, wire last cs) :=
        (cutAt_eq_some_iff (by decide)).mpr ⟨rfl, c.unbroken⟩
      have hpos : c.data.length ≠ 0 := fun hzero => c.nonempty (List.length_eq_zero_iff.mp hzero)
      have hlen := length_bytes c
      by_cases hsecond : q.length < c.data.length + 2
      · obtain ⟨b, rest, hloop⟩ :=
          chunkLoop_in_data h stream c.size hpos (cutAt_short_front hdata hq hsecond)
        refine ⟨b, rest, ?_⟩
        have hback : (c.line ++ [13, 10] ++ q).length - c.bytes.length = 0 := by
          simp only [List.length_append, List.length_cons, List.length_nil]
          omega
        have hstart : overlong cs 0 = false ∧ sizeBytes cs 0 = 0 := by
          cases cs with
          | nil => exact ⟨rfl, rfl⟩
          | cons d ds => simp [overlong, sizeBytes]
        rw [hloop]
        simp only [answer, overlong, sizeBytes, hfirst, if_false, hback, hstart, Bool.false_eq_true,
          Nat.add_zero]
        push_cast
        rfl
      · obtain ⟨t, -, ht, rfl⟩ := cutAt_long_front (by decide) hdata hq (by omega)
        have hproper : t ≠ wire last cs := by
          intro heq
          apply hne
          rw [hwire, heq]
        obtain ⟨b, rest, hloop⟩ := ih (ChunkedDecoding.filled r c.line c.data.length)
          (h.filled _ _) (BodyStream.write stream c.data) t ht hproper
        refine ⟨b, rest, ?_⟩
        have hback : (c.line ++ [13, 10] ++ (c.data ++ [13, 10] ++ t)).length - c.bytes.length =
            t.length := by
          simp only [List.length_append, List.length_cons, List.length_nil]
          omega
        have hcounter : toInt (toInt (r.chunked_body_size - (c.line.length + 2)) -
            sizeBytes cs t.length) =
            toInt (r.chunked_body_size - ((c.line.length + 2 + sizeBytes cs t.length : ℕ) : ℤ)) := by
          unfold toInt
          omega
        rw [chunkLoop_chunk h.line h.at_size stream c.nonempty c.unbroken c.size, hloop]
        simp only [answer, overlong, sizeBytes, hfirst, if_false, hback, ← hcounter]
        rfl

/-- The request behind a body, of which the counter stood at `r.chunked_body_size`. -/
def behind (r : Request) (framing : ℕ) : Request :=
  { r with
    b_status := .term
    final_status := .trailer
    line := []
    len := 0
    chunked_status := true
    chunked_body_size := toInt (r.chunked_body_size - framing) }

/-- The size lines of chunks and of the last chunk. -/
def framing (last : Bytes) (cs : List Chunk) : ℕ :=
  (cs.map fun c => c.line.length + 2).sum + (last.length + 2)

/-- A whole body is taken, and nothing behind it. -/
theorem chunkLoop_whole (last : Bytes) (hlast : SizeLine last 0) (cs : List Chunk) (r : Request)
    (hline : r.line = []) (hs : r.chunked_status = false) (stream : Option BodyStream)
    (tail : Bytes) :
    Request.chunkLoop (r, stream) (wire last cs ++ tail) =
      .ok (-1, (behind r (framing last cs),
        BodyStream.close (BodyStream.write stream (payload cs))), tail) := by
  induction cs generalizing r stream with
  | nil =>
    rw [wire, chunkLoop_sized hline hs stream hlast, Request.chunkData]
    simp only [sized, Int.natCast_zero, if_true, payload, List.map_nil, List.flatten_nil, write_nil,
      behind, framing, List.sum_nil, Nat.zero_add]
    push_cast
    rfl
  | cons c cs ih =>
    have hwire : wire last (c :: cs) ++ tail =
        c.line ++ [13, 10] ++ (c.data ++ [13, 10] ++ (wire last cs ++ tail)) := by
      simp [wire, Chunk.bytes]
    have hcounter : toInt (toInt (r.chunked_body_size - (c.line.length + 2)) - framing last cs) =
        toInt (r.chunked_body_size - framing last (c :: cs)) := by
      simp only [framing, List.map_cons, List.sum_cons]
      push_cast
      unfold toInt
      omega
    have hpayload : payload (c :: cs) = c.data ++ payload cs := by
      simp [payload]
    rw [hwire, chunkLoop_chunk hline hs stream c.nonempty c.unbroken c.size,
      ih (ChunkedDecoding.filled r c.line c.data.length) rfl rfl, write_write, hpayload]
    simp only [behind, ChunkedDecoding.filled, sized, hcounter]

section Runs

/-- A chunked request in front of its body. -/
structure BeforeBody (r : Request) : Prop where
  head_done : r.status = .term
  body_new : r.b_status = .new
  unfinished : r.final_status.index ≤ FinalStatus.trailer.index
  chunked : r.chunked = true
  line : r.line = []
  at_size : r.chunked_status = false
  counter : r.chunked_body_size = 0

variable {r : Request} (b : ChunkedBody) (stream : Option BodyStream)

theorem BeforeBody.receiving (h : BeforeBody r) : Receiving r :=
  ⟨h.head_done, Or.inl h.body_new, h.unfinished, Or.inl h.chunked⟩

theorem BeforeBody.inBody (h : BeforeBody r) (n : ℕ) : InBody (growBody (entered r) n) :=
  ⟨h.head_done, rfl, h.chunked, h.line, h.at_size, HeadSegmentation.toInt_toInt _⟩

/-- A single call on a front part of the body. -/
theorem parseInput_front (h : BeforeBody r) {p : Bytes} (hp : p <+: b.bytes)
    (hproper : p ≠ b.bytes) (hne : p ≠ []) :
    ∃ s rest, Request.parseInput (r, stream) p =
      .ok (answer r.body_max_size b.chunks p.length p.length, s, rest) := by
  have hcounter : (growBody (entered r) p.length).chunked_body_size = toInt p.length := by
    show toInt (r.chunked_body_size + p.length) = _
    rw [h.counter, Int.zero_add]
  obtain ⟨s, rest, hloop⟩ :=
    chunkLoop_front b.last b.zero b.chunks _ (h.inBody p.length) stream p hp hproper
  refine ⟨s, rest, ?_⟩
  rw [parseInput_chunked h.receiving h.chunked stream hne, hloop, hcounter]
  simp only [answer, toInt_sub_toInt]
  rfl

/-- A single call on a body with bytes behind it. -/
theorem parseInput_whole (h : BeforeBody r) (tail : Bytes) :
    Request.parseInput (r, stream) (b.bytes ++ tail) =
      .ok (-1, (behind (growBody (entered r) (b.bytes ++ tail).length) (framing b.last b.chunks),
        BodyStream.close (BodyStream.write stream b.payload)), tail) := by
  have hne : b.bytes ++ tail ≠ [] := by
    intro heq
    exact wire_ne_nil b.last b.chunks (List.append_eq_nil_iff.mp heq).1
  rw [parseInput_chunked h.receiving h.chunked stream hne]
  exact chunkLoop_whole b.last b.zero b.chunks (growBody (entered r) _) h.line h.at_size stream tail

/-- All calls but the last ask for more, and the last answers `code`. -/
def EndsWith (r : Request) (stream : Option BodyStream) (reads : List Bytes) (code : ℤ) (out : Body)
    (rest : Bytes) : Prop :=
  callAll Request.parseInput (r, stream) [] reads =
    .ok (List.replicate (reads.length - 1) 0 ++ [code], out, rest)

/-- Reads that end a run are as good as one read of their bytes. -/
theorem endsWith_iff (h : BeforeBody r) (before : List Bytes) (read : Bytes) (code : ℤ) (out : Body)
    (rest : Bytes) :
    EndsWith r stream (before ++ [read]) code out rest ↔
      (∃ s left, callAll Request.parseInput (r, stream) [] before =
        .ok (List.replicate before.length 0, s, left)) ∧
      Request.parseInput (r, stream) (before ++ [read]).flatten = .ok (code, out, rest) := by
  unfold EndsWith
  have hlength : (before ++ [read]).length - 1 = before.length := by simp
  have hflat : (before ++ [read]).flatten = before.flatten ++ read := by simp
  rw [hlength, hflat]
  constructor
  · intro hrun
    obtain ⟨s, left, hbefore, hfeed⟩ := callAll_last hrun
    obtain ⟨rfl, hstand⟩ := callAll_zeros parseInput_incremental [] (standsFor_nil h.receiving)
      before hbefore (fun code hcode => (List.mem_replicate.mp hcode).2)
    refine ⟨⟨s, [], hbefore⟩, ?_⟩
    rw [List.nil_append, hstand.2 read, List.nil_append] at hfeed
    exact hfeed
  · intro ⟨⟨s, left, hbefore⟩, hfeed⟩
    obtain ⟨rfl, hstand⟩ := callAll_zeros parseInput_incremental [] (standsFor_nil h.receiving)
      before hbefore (fun code hcode => (List.mem_replicate.mp hcode).2)
    rw [callAll_append, hbefore]
    simp only [callAll, List.nil_append, hstand.2 read, hfeed]

end Runs

end Webserveau.ChunkedMessages
