import Webserveau.BodySegmentation

/-!
Chunked bodies and their decoding.
The encoding gives each chunk with its length in hexadecimal. The decoder looks for
chunk data up to the next CRLF, so it gives back the chunks on every cut of the encoding
exactly when no chunk contains a CRLF itself.
-/
namespace Webserveau.ChunkedDecoding

open ByteStrings OrderedMaps Numerals Formats Requests Segmentation BodySegmentation

def encodeChunk (chunk : Bytes) : Bytes :=
  numeral 16 chunk.length ++ [13, 10] ++ chunk ++ [13, 10]

/-- The chunks in order and the last chunk of length zero. -/
def encode : List Bytes → Bytes
  | [] => ascii "0" ++ [13, 10]
  | chunk :: chunks => encodeChunk chunk ++ encode chunks

theorem encode_cons (chunk : Bytes) (chunks : List Bytes) :
    encode (chunk :: chunks) =
      numeral 16 chunk.length ++ [13, 10] ++ (chunk ++ [13, 10] ++ encode chunks) := by
  simp [encode, encodeChunk]

/-- Size lines have no CRLF. -/
theorem unbroken_numeral (n : ℕ) : ¬ [13, 10] <:+: numeral 16 n := by
  intro hin
  have hdenotes : Denotes 16 (numeral 16 n) n := denotes_numeral (by omega) (by omega) n
  have hdigit := hdenotes.2.1 13 (hin.subset (by simp))
  exact absurd hdigit (by decide)

theorem getInt_numeral {n : ℕ} (h : (n : ℤ) ≤ INT32_MAX) :
    getInt (numeral 16 n) 16 0 = (0, (n : ℤ)) := by
  have hrange : ¬ (n : ℤ) > LONG_MAX := by
    unfold INT32_MAX at h
    unfold LONG_MAX
    omega
  unfold INT32_MAX at h
  rw [getInt_denotes (Or.inr rfl) (denotes_numeral (by omega) (by omega) n), if_neg hrange,
    toInt_of_range (by omega) (by omega)]

theorem numeral_length_le {n : ℕ} (h : (n : ℤ) ≤ INT32_MAX) : (numeral 16 n).length ≤ 8 := by
  unfold INT32_MAX at h
  rw [numeral, List.length_map, Nat.length_toDigits_le_iff (by omega) (by omega)]
  omega

/-- A request in front of a chunk, with the buffer counted. -/
structure AtChunk (r : Request) (buffered : ℕ) : Prop where
  head_done : r.status = .term
  body_open : r.b_status = .ongoing
  line : r.line = []
  at_size : r.chunked_status = false
  counted : (buffered : ℤ) ≤ r.chunked_body_size
  bounded : r.chunked_body_size ≤ r.body_max_size
  limit : r.body_max_size ≤ INT32_MAX

theorem checkSizes_counted {r : Request} (hs : r.status = .term) (hb : r.b_status = .ongoing)
    (h : r.chunked_body_size ≤ r.body_max_size) : r.checkSizes = (0, r) := by
  have hsize : ¬ (r.chunked = true ∧ r.chunked_body_size > r.body_max_size) := by omega
  rw [Request.checkSizes, if_neg (by simp [hs]), if_pos ⟨hs, hb⟩, if_neg hsize]

/-- The request behind a size line. -/
def sized (r : Request) (line : Bytes) (n : ℕ) : Request :=
  { r with
    chunked_body_size := toInt (r.chunked_body_size - (line.length + 2))
    len := n
    line := []
    chunked_status := true }

/-- The request behind the data of a chunk. -/
def filled (r : Request) (line : Bytes) (n : ℕ) : Request :=
  { sized r line n with line := [], len := -1, chunked_status := false }

theorem AtChunk.filled {r : Request} {line : Bytes} {n buffered : ℕ}
    (h : AtChunk r (line.length + 2 + (n + 2 + buffered))) :
    AtChunk (ChunkedDecoding.filled r line n) buffered := by
  have hcounted := h.counted
  have hlimit := h.limit
  have hbounded := h.bounded
  unfold INT32_MAX at hlimit
  push_cast at hcounted
  have hint : (ChunkedDecoding.filled r line n).chunked_body_size =
      r.chunked_body_size - (line.length + 2) := toInt_of_range (by omega) (by omega)
  refine ⟨h.head_done, h.body_open, rfl, rfl, ?_, ?_, h.limit⟩
  · rw [hint]
    omega
  · rw [hint]
    change _ ≤ r.body_max_size
    omega

theorem getInt_le (str : Bytes) (base : ℕ) : (getInt str base 0).2 ≤ INT32_MAX := by
  unfold getInt INT32_MAX
  extract_lets s sbase front idx
  split
  · decide
  · split
    · decide
    · obtain ⟨x, errno⟩ := strtol s base
      dsimp only
      split
      · exact (toInt_range x).2
      · exact (toInt_range x).2

/-- A size line that is read as a length. -/
structure SizeLine (line : Bytes) (n : ℕ) : Prop where
  unbroken : ¬ [13, 10] <:+: line
  size : getInt line 16 0 = (0, (n : ℤ))

theorem SizeLine.small {line : Bytes} {n : ℕ} (h : SizeLine line n) : (n : ℤ) ≤ INT32_MAX := by
  have hle := getInt_le line 16
  rw [h.size] at hle
  exact hle

theorem sizeLine_numeral {n : ℕ} (hn : (n : ℤ) ≤ INT32_MAX) : SizeLine (numeral 16 n) n :=
  ⟨unbroken_numeral n, getInt_numeral hn⟩

/-- The turn of the loop behind a complete size line. -/
theorem chunkLoop_sized {r : Request} (hline : r.line = []) (hs : r.chunked_status = false)
    (stream : Option BodyStream) {line : Bytes} {n : ℕ} (hn : SizeLine line n) (rest : Bytes) :
    Request.chunkLoop (r, stream) (line ++ [13, 10] ++ rest) =
      Request.chunkData Request.chunkLoop (sized r line n, stream) rest := by
  have hcut : cutAt 13 10 (r.line ++ (line ++ [13, 10] ++ rest)) = some (line, rest) := by
    rw [hline, List.nil_append, cutAt_eq_some_iff (by decide)]
    exact ⟨rfl, hn.unbroken⟩
  have hgood : ¬ ((getInt line 16 0).1 ≠ 0 ∨ (getInt line 16 0).2 < 0) := by
    rw [hn.size]
    simp
  rw [Request.chunkLoop_size hs stream (by simp), Request.chunkSize]
  simp only [hcut, hgood, if_false]
  rw [hn.size]
  rfl

theorem toSize_length {n : ℕ} (hn : (n : ℤ) ≤ INT32_MAX) : toSize (n : ℤ) = n := by
  unfold INT32_MAX at hn
  unfold toSize
  omega

/-- A chunk without CRLF is written and left behind. -/
theorem chunkLoop_chunk {r : Request} (hline : r.line = []) (hs : r.chunked_status = false)
    (stream : Option BodyStream) {line chunk : Bytes} (hne : chunk ≠ [])
    (hfree : ¬ [13, 10] <:+: chunk) (hn : SizeLine line chunk.length) (rest : Bytes) :
    Request.chunkLoop (r, stream) (line ++ [13, 10] ++ (chunk ++ [13, 10] ++ rest)) =
      Request.chunkLoop (filled r line chunk.length, BodyStream.write stream chunk) rest := by
  have hcut : cutAt 13 10 (chunk ++ [13, 10] ++ rest) = some (chunk, rest) :=
    (cutAt_eq_some_iff (by decide)).mpr ⟨rfl, hfree⟩
  have hpos : ((chunk.length : ℕ) : ℤ) ≠ 0 := by
    have := List.length_pos_iff.mpr hne
    omega
  rw [chunkLoop_sized hline hs stream hn, Request.chunkData]
  simp only [sized, hpos, if_false, List.nil_append, hcut, toSize_length hn.small, ne_eq,
    not_true_eq_false]
  rfl

/-- The encoding of CRLF-free chunks is read to its end. -/
theorem chunkLoop_encode (chunks : List Bytes)
    (hchunks : ∀ c ∈ chunks, c ≠ [] ∧ (c.length : ℤ) ≤ INT32_MAX)
    (hfree : ∀ c ∈ chunks, ¬ [13, 10] <:+: c) (r : Request) (hline : r.line = [])
    (hs : r.chunked_status = false) (stream : Option BodyStream) (tail : Bytes) :
    ∃ r', Request.chunkLoop (r, stream) (encode chunks ++ tail) =
      .ok (-1, (r', BodyStream.close (BodyStream.write stream chunks.flatten)), tail) := by
  induction chunks generalizing r stream with
  | nil =>
    have hzero : encode [] ++ tail = numeral 16 0 ++ [13, 10] ++ tail := rfl
    rw [hzero, chunkLoop_sized hline hs stream (sizeLine_numeral (by decide)), Request.chunkData]
    simp only [sized, Int.natCast_zero, if_true, List.flatten_nil, write_nil]
    exact ⟨_, rfl⟩
  | cons chunk chunks ih =>
    obtain ⟨hne, hn⟩ := hchunks chunk (List.mem_cons_self ..)
    obtain ⟨r', hr'⟩ := ih (fun c hc => hchunks c (List.mem_cons_of_mem _ hc))
      (fun c hc => hfree c (List.mem_cons_of_mem _ hc))
      (filled r (numeral 16 chunk.length) chunk.length) rfl rfl (BodyStream.write stream chunk)
    refine ⟨r', ?_⟩
    rw [encode_cons, List.append_assoc, List.append_assoc (chunk ++ [13, 10]),
      chunkLoop_chunk hline hs stream hne (hfree chunk (List.mem_cons_self ..)) (sizeLine_numeral hn),
      hr', write_write,
      List.flatten_cons]

/-- A chunk with a CRLF in it is refused. -/
theorem chunkLoop_broken (chunks : List Bytes)
    (hchunks : ∀ c ∈ chunks, c ≠ [] ∧ (c.length : ℤ) ≤ INT32_MAX)
    (hbroken : ∃ c ∈ chunks, [13, 10] <:+: c) (r : Request) (hline : r.line = [])
    (hs : r.chunked_status = false) (stream : Option BodyStream) :
    ∃ b rest, Request.chunkLoop (r, stream) (encode chunks) = .ok (400, b, rest) := by
  induction chunks generalizing r stream with
  | nil => simp at hbroken
  | cons chunk chunks ih =>
    obtain ⟨hne, hn⟩ := hchunks chunk (List.mem_cons_self ..)
    by_cases hfree : [13, 10] <:+: chunk
    · obtain ⟨⟨front, back⟩, hcut⟩ : ∃ cut, cutAt 13 10 chunk = some cut := by
        apply Option.ne_none_iff_exists'.mp
        rw [ne_eq, cutAt_eq_none_iff, not_not]
        exact hfree
      have hlen := cutAt_length hcut
      have hjoined := cutAt_append (cutAt_append hcut [13, 10]) (encode chunks)
      have hpos : ((chunk.length : ℕ) : ℤ) ≠ 0 := by omega
      have hshort : front.length ≠ chunk.length := by omega
      rw [encode_cons, chunkLoop_sized hline hs stream (sizeLine_numeral hn), Request.chunkData]
      simp only [sized, hpos, if_false, List.nil_append, hjoined, toSize_length hn, ne_eq, hshort,
        not_false_eq_true, if_true]
      exact ⟨_, _, rfl⟩
    · have hlater : ∃ c ∈ chunks, [13, 10] <:+: c := by
        obtain ⟨c, hc, hin⟩ := hbroken
        rcases List.mem_cons.mp hc with rfl | hc
        · exact absurd hin hfree
        · exact ⟨c, hc, hin⟩
      rw [encode_cons, chunkLoop_chunk hline hs stream hne hfree (sizeLine_numeral hn)]
      exact ih (fun c hc => hchunks c (List.mem_cons_of_mem _ hc)) hlater _ rfl rfl _

/-- A buffer without a complete size line asks for more. -/
theorem chunkLoop_no_size {r : Request} {p : Bytes} (h : AtChunk r p.length)
    (stream : Option BodyStream) (hcut : cutAt 13 10 p = none) (hp : p.length ≤ BUFFER_SIZE) :
    ∃ b rest, Request.chunkLoop (r, stream) p = .ok (0, b, rest) := by
  by_cases hempty : p = []
  · subst hempty
    have hbound := h.bounded
    rw [Request.chunkLoop_eq, if_pos rfl, if_neg (by omega)]
    exact ⟨_, _, rfl⟩
  · have hshort : ¬ p.length > BUFFER_SIZE := by omega
    rw [Request.chunkLoop_size h.at_size stream hempty, Request.chunkSize]
    simp only [h.line, List.nil_append, hcut, hshort, if_false]
    rw [checkSizes_counted (r := { r with line := p }) h.head_done h.body_open h.bounded]
    exact ⟨_, _, rfl⟩

/-- Behind a size line the loop asks for more until the data is complete. -/
theorem chunkLoop_no_data {r : Request} {n : ℕ} {q : Bytes}
    (h : AtChunk r (numeral 16 n ++ [13, 10] ++ q).length) (stream : Option BodyStream)
    (hpos : 0 < n) (hn : (n : ℤ) ≤ INT32_MAX) (hcut : cutAt 13 10 q = none) :
    ∃ b rest, Request.chunkLoop (r, stream) (numeral 16 n ++ [13, 10] ++ q) =
      .ok (0, b, rest) := by
  have hcounted := h.counted
  have hlimit := h.limit
  have hbounded := h.bounded
  simp only [List.length_append, List.length_cons, List.length_nil] at hcounted
  unfold INT32_MAX at hlimit
  push_cast at hcounted
  have hint : (sized r (numeral 16 n) n).chunked_body_size =
      r.chunked_body_size - ((numeral 16 n).length + 2) :=
    toInt_of_range (by omega) (by omega)
  have hfits : (sized r (numeral 16 n) n).chunked_body_size ≤ r.body_max_size := by omega
  have hne : (sized r (numeral 16 n) n).len ≠ 0 := by
    change (n : ℤ) ≠ 0
    omega
  have hcut' : cutAt 13 10 ((sized r (numeral 16 n) n).line ++ q) = none := hcut
  rw [chunkLoop_sized h.line h.at_size stream (sizeLine_numeral hn), Request.chunkData]
  simp only [hne, if_false, hcut']
  rw [checkSizes_counted (r := { sized r (numeral 16 n) n with
    line := (sized r (numeral 16 n) n).line ++ q }) h.head_done h.body_open hfits]
  exact ⟨_, _, rfl⟩

/-- A proper front part of the encoding asks for more. -/
theorem chunkLoop_waits (chunks : List Bytes)
    (hchunks : ∀ c ∈ chunks, c ≠ [] ∧ (c.length : ℤ) ≤ INT32_MAX)
    (hfree : ∀ c ∈ chunks, ¬ [13, 10] <:+: c) (r : Request) (stream : Option BodyStream)
    (p : Bytes) (h : AtChunk r p.length) (hp : p <+: encode chunks) (hne : p ≠ encode chunks) :
    ∃ b rest, Request.chunkLoop (r, stream) p = .ok (0, b, rest) := by
  induction chunks generalizing r stream p with
  | nil =>
    have hlen := hp.length_le
    have hshort : p.length < 3 := by
      refine lt_of_le_of_ne hlen ?_
      intro heq
      exact hne (hp.eq_of_length heq)
    have hcut : cutAt 13 10 (encode []) = some (ascii "0", []) := by decide
    apply chunkLoop_no_size h stream (cutAt_short_front hcut hp hshort)
    unfold BUFFER_SIZE
    omega
  | cons chunk chunks ih =>
    obtain ⟨hcne, hn⟩ := hchunks chunk (List.mem_cons_self ..)
    have hcfree := hfree chunk (List.mem_cons_self ..)
    have hsize : cutAt 13 10 (encode (chunk :: chunks)) =
        some (numeral 16 chunk.length, chunk ++ [13, 10] ++ encode chunks) := by
      rw [encode_cons]
      exact (cutAt_eq_some_iff (by decide)).mpr ⟨rfl, unbroken_numeral _⟩
    by_cases hfirst : p.length < (numeral 16 chunk.length).length + 2
    · apply chunkLoop_no_size h stream (cutAt_short_front hsize hp hfirst)
      have hsmall := numeral_length_le hn
      unfold BUFFER_SIZE
      omega
    · obtain ⟨q, -, hq, rfl⟩ := cutAt_long_front (by decide) hsize hp (by omega)
      have hdata : cutAt 13 10 (chunk ++ [13, 10] ++ encode chunks) = some (chunk, encode chunks) :=
        (cutAt_eq_some_iff (by decide)).mpr ⟨rfl, hcfree⟩
      by_cases hsecond : q.length < chunk.length + 2
      · exact chunkLoop_no_data h stream (List.length_pos_iff.mpr hcne) hn
          (cutAt_short_front hdata hq hsecond)
      · obtain ⟨t, -, ht, rfl⟩ := cutAt_long_front (by decide) hdata hq (by omega)
        rw [chunkLoop_chunk h.line h.at_size stream hcne hcfree (sizeLine_numeral hn)]
        refine ih (fun c hc => hchunks c (List.mem_cons_of_mem _ hc))
          (fun c hc => hfree c (List.mem_cons_of_mem _ hc)) _ _ t ?_ ht ?_
        · apply AtChunk.filled
          convert h using 1
          simp only [List.length_append, List.length_cons, List.length_nil]
        · rintro rfl
          exact hne (encode_cons chunk chunks).symm

/-- A chunked request in front of its body. -/
structure Fresh (r : Request) (limit : ℤ) : Prop where
  head_done : r.status = .term
  body_new : r.b_status = .new
  unfinished : r.final_status.index ≤ FinalStatus.trailer.index
  chunked : r.chunked = true
  line : r.line = []
  at_size : r.chunked_status = false
  counter : r.chunked_body_size = 0
  enough : limit ≤ r.body_max_size
  int_range : r.body_max_size ≤ INT32_MAX

theorem Fresh.receiving {r : Request} {limit : ℤ} (h : Fresh r limit) : Receiving r :=
  ⟨h.head_done, Or.inl h.body_new, h.unfinished, Or.inl h.chunked⟩

theorem Fresh.atChunk {r : Request} {limit : ℤ} (h : Fresh r limit) {n : ℕ} (hn : (n : ℤ) ≤ limit) :
    AtChunk (growBody (entered r) n) n := by
  have henough := h.enough
  have hrange := h.int_range
  have hlimit := hrange
  unfold INT32_MAX at hlimit
  have hcount : (growBody (entered r) n).chunked_body_size = n := by
    change toInt (r.chunked_body_size + n) = n
    rw [h.counter, Int.zero_add]
    exact toInt_of_range (by omega) (by omega)
  refine ⟨h.head_done, rfl, h.line, h.at_size, ?_, ?_, hrange⟩
  · exact Int.le_of_eq hcount.symm
  · rw [hcount]
    change (n : ℤ) ≤ r.body_max_size
    omega

/-- All calls but the last answer 0, the last answers -1, and the stream has received the
chunks and nothing else. -/
def DecodesTo (r : Request) (stream : BodyStream) (chunks : List Bytes) (reads : List Bytes) :
    Prop :=
  ∃ r', callAll Request.parseInput (r, some stream) [] reads =
    .ok (List.replicate (reads.length - 1) 0 ++ [-1],
      (r', some { stream with written := stream.written ++ chunks.flatten, closed := true }), [])

theorem encode_ne_nil (chunks : List Bytes) : encode chunks ≠ [] := by
  cases chunks with
  | nil => decide
  | cons chunk chunks => simp [encode, encodeChunk]

theorem length_le_encode {chunks : List Bytes} {c : Bytes} (hc : c ∈ chunks) :
    c.length ≤ (encode chunks).length := by
  induction chunks with
  | nil => simp at hc
  | cons chunk chunks ih =>
    simp only [encode, encodeChunk, List.length_append]
    rcases List.mem_cons.mp hc with rfl | hc
    · omega
    · have := ih hc
      omega

section Decoding

variable {r : Request} {chunks : List Bytes}

theorem Fresh.chunks_small (h : Fresh r (encode chunks).length) (hne : ∀ c ∈ chunks, c ≠ []) :
    ∀ c ∈ chunks, c ≠ [] ∧ (c.length : ℤ) ≤ INT32_MAX := by
  intro c hc
  have hlen := length_le_encode hc
  have henough := h.enough
  have hrange := h.int_range
  exact ⟨hne c hc, by omega⟩

theorem parseInput_waits (h : Fresh r (encode chunks).length) (hne : ∀ c ∈ chunks, c ≠ [])
    (hfree : ∀ c ∈ chunks, ¬ [13, 10] <:+: c) (stream : Option BodyStream) (p : Bytes)
    (hp : p <+: encode chunks) (hproper : p ≠ encode chunks) :
    ∃ b rest, Request.parseInput (r, stream) p = .ok (0, b, rest) := by
  by_cases hempty : p = []
  · subst hempty
    exact ⟨_, _, parseInput_nil _⟩
  · rw [parseInput_chunked h.receiving h.chunked stream hempty]
    have hlen := hp.length_le
    exact chunkLoop_waits chunks (h.chunks_small hne) hfree _ stream p
      (h.atChunk (by omega)) hp hproper

theorem decodesTo_of_free (h : Fresh r (encode chunks).length) (hne : ∀ c ∈ chunks, c ≠ [])
    (stream : BodyStream) {reads : List Bytes} (hreads : ∀ read ∈ reads, read ≠ [])
    (hcut : reads.flatten = encode chunks) (hfree : ∀ c ∈ chunks, ¬ [13, 10] <:+: c) :
    DecodesTo r stream chunks reads := by
  obtain ⟨before, read, after, rfl, -, hreach, hrun⟩ :=
    callAll_message parseInput_incremental (s := (r, some stream)) h.receiving (encode chunks)
      (encode_ne_nil chunks) [] (parseInput_waits h hne hfree (some stream)) reads
      (by rw [hcut, List.append_nil])
  have hflat : (before ++ [read]).flatten ++ after.flatten = encode chunks := by
    rw [← hcut]
    simp
  have hnil : after.flatten = [] := by
    have hlen := congrArg List.length hflat
    rw [List.length_append] at hlen
    exact List.length_eq_zero_iff.mp (by omega)
  have hafter : after = [] := by
    cases after with
    | nil => rfl
    | cons next after =>
      have hnext := hreads next (by simp)
      simp only [List.flatten_cons, List.append_eq_nil_iff] at hnil
      exact absurd hnil.1 hnext
  subst hafter
  rw [List.flatten_nil, List.append_nil] at hflat
  obtain ⟨r', hr'⟩ := chunkLoop_encode chunks (h.chunks_small hne) hfree
    (growBody (entered r) (encode chunks).length) h.line h.at_size (some stream) []
  rw [List.append_nil] at hr'
  rw [hflat, parseInput_chunked h.receiving h.chunked (some stream) (encode_ne_nil chunks),
    hr'] at hrun
  refine ⟨r', ?_⟩
  rw [hrun]
  simp [BodyStream.write, BodyStream.close]

theorem free_of_decodesTo (h : Fresh r (encode chunks).length) (hne : ∀ c ∈ chunks, c ≠ [])
    (stream : BodyStream) {reads : List Bytes} (hcut : reads.flatten = encode chunks)
    (hdec : DecodesTo r stream chunks reads) : ∀ c ∈ chunks, ¬ [13, 10] <:+: c := by
  by_contra hbroken
  push Not at hbroken
  obtain ⟨r', hrun⟩ := hdec
  have hlast : reads ≠ [] := by
    rintro rfl
    exact encode_ne_nil chunks hcut.symm
  obtain ⟨before, read, rfl⟩ : ∃ before read, reads = before ++ [read] :=
    ⟨_, _, (List.dropLast_append_getLast hlast).symm⟩
  obtain ⟨s, left, hbefore, hfeed⟩ := callAll_last hrun
  obtain ⟨rfl, hstand⟩ := callAll_zeros parseInput_incremental []
    (standsFor_nil h.receiving) before hbefore
    (fun code hcode => (List.mem_replicate.mp hcode).2)
  obtain ⟨b, rest, hrefused⟩ := chunkLoop_broken chunks (h.chunks_small hne) hbroken
    (growBody (entered r) (encode chunks).length) h.line h.at_size (some stream)
  have hflat : before.flatten ++ read = encode chunks := by
    rw [← hcut]
    simp
  rw [List.nil_append, hstand.2 read, List.nil_append, hflat,
    parseInput_chunked h.receiving h.chunked (some stream) (encode_ne_nil chunks),
    hrefused] at hfeed
  simp at hfeed

/-- Chunked decoding undoes the encoding, on every cut of it into reads, exactly when no
chunk contains a CRLF. -/
theorem decodesTo_iff (h : Fresh r (encode chunks).length) (hne : ∀ c ∈ chunks, c ≠ [])
    (stream : BodyStream) (reads : List Bytes) (hreads : ∀ read ∈ reads, read ≠ [])
    (hcut : reads.flatten = encode chunks) :
    DecodesTo r stream chunks reads ↔ ∀ c ∈ chunks, ¬ [13, 10] <:+: c :=
  ⟨free_of_decodesTo h hne stream hcut, decodesTo_of_free h hne stream hreads hcut⟩

end Decoding

/-- A chunked request that may hold a hundred bytes. -/
def chunkedRequest : Request :=
  { status := .term, chunked := true, body_max_size := 100 }

theorem chunkedRequest_fresh {limit : ℤ} (h : limit ≤ 100) : Fresh chunkedRequest limit :=
  ⟨rfl, rfl, by decide, rfl, rfl, rfl, rfl, h, by decide⟩

theorem hello_decoded :
    DecodesTo chunkedRequest { opened := true } [ascii "hello"] [ascii "5\r", ascii "\nhello\r\n0\r\n"] :=
  (decodesTo_iff (chunkedRequest_fresh (by decide)) (by decide) _ _ (by decide) (by decide)).mpr
    (by decide)

/-- A chunk that consists of a CRLF is not given back. -/
theorem not_all_decoded :
    ¬ ∀ (r : Request) (chunks : List Bytes) (stream : BodyStream) (reads : List Bytes),
      Fresh r (encode chunks).length → (∀ c ∈ chunks, c ≠ []) → (∀ read ∈ reads, read ≠ []) →
        reads.flatten = encode chunks → DecodesTo r stream chunks reads := by
  intro h
  have hfresh : Fresh chunkedRequest (encode [[13, 10]]).length := chunkedRequest_fresh (by decide)
  have hne : ∀ c ∈ [([13, 10] : Bytes)], c ≠ [] := by decide
  have hdec := h chunkedRequest [[13, 10]] { opened := true } [encode [[13, 10]]] hfresh hne
    (by decide) (by simp)
  exact free_of_decodesTo hfresh hne _ (by simp) hdec [13, 10] (by simp) (List.infix_refl _)

end Webserveau.ChunkedDecoding
