import Webserveau.Checks
import Webserveau.ChunkedMessages

/-!
What the loop over chunks has taken in, whatever it is given.
Of the bytes seen so far the whole chunks have been written; behind them stands a part of
a size line, or a size line with a part of its data. The loop only reports the end of a
body behind the last chunk of one.
-/
namespace Webserveau.ChunkedIntake

open ByteStrings OrderedMaps Formats Requests Checks HeadSegmentation BodySegmentation
  ChunkedDecoding ChunkedMessages

/-- The bytes behind the whole chunks. -/
inductive Pending (r : Request) : Bytes → Prop
  | size : r.chunked_status = false → Pending r r.line
  | data {line : Bytes} {n : ℕ} : r.chunked_status = true → SizeLine line n → n ≠ 0 →
      r.len = n → Pending r (line ++ [13, 10] ++ r.line)

/-- The whole chunks of what was seen have been written. -/
def Midway (r : Request) (seen written : Bytes) : Prop :=
  ∃ cs tail, seen = (cs.map Chunk.bytes).flatten ++ tail ∧ written = payload cs ∧ Pending r tail

/-- What a turn of the loop, or many, has made of its buffer. -/
structure TakenIn (seen buffer : Bytes) (opened : Bool) (out : ℤ × Body × Bytes) : Prop where
  stream : ∃ stream, out.2.1.2 = some stream ∧ stream.opened = opened ∧
    (out.1 = 0 → Midway out.2.1.1 (seen ++ buffer) stream.written) ∧
    (out.1 = -1 → ∃ b : ChunkedBody, seen ++ buffer = b.bytes ++ out.2.2 ∧
      stream.written = b.payload)
  waits : out.1 = 0 → out.2.2 = []
  fails : 0 < out.1 → out.2.1.1.final_status = .error

theorem wire_eq (last : Bytes) (cs : List Chunk) :
    wire last cs = (cs.map Chunk.bytes).flatten ++ (last ++ [13, 10]) := by
  induction cs with
  | nil => rfl
  | cons c cs ih =>
    show c.bytes ++ wire last cs = _
    rw [ih, List.map_cons, List.flatten_cons, List.append_assoc]

theorem payload_append (cs : List Chunk) (c : Chunk) : payload (cs ++ [c]) = payload cs ++ c.data := by
  unfold payload
  rw [List.map_append, List.flatten_append]
  simp

theorem takenIn_error {r : Request} {error : ℤ} (h : 0 < error) (verbose : Bytes)
    (seen buffer rest : Bytes) (stream : BodyStream) :
    TakenIn seen buffer stream.opened (error, ((r.fillError error verbose).2, some stream), rest) where
  stream := by
    refine ⟨stream, rfl, rfl, ?_, ?_⟩
    · intro hzero
      change error = 0 at hzero
      omega
    · intro hdone
      change error = -1 at hdone
      omega
  waits := by
    intro hzero
    change error = 0 at hzero
    omega
  fails := fun _ => rfl

/-- Where more bytes are asked for, everything is in. -/
theorem takenIn_waits {r : Request} {seen buffer : Bytes} {stream : BodyStream}
    (h : Midway r (seen ++ buffer) stream.written) :
    TakenIn seen buffer stream.opened (r.checkSizes.1, (r.checkSizes.2, some stream), []) := by
  rcases checkSizes_cases r with hpass | ⟨error, verbose, hcode, hfail⟩
  · rw [hpass]
    refine ⟨⟨stream, rfl, rfl, fun _ => h, ?_⟩, fun _ => rfl, ?_⟩
    · intro hdone
      cases hdone
    · intro hpos
      exact absurd hpos (Int.lt_irrefl 0)
  · rw [hfail]
    have hpos : 0 < error := by omega
    exact takenIn_error hpos verbose seen buffer [] stream

/-- The data of a chunk, once its size line is complete. -/
theorem chunkData_takenIn {next : Body → Bytes → Checked (ℤ × Body × Bytes)} {r : Request}
    {seen buffer line : Bytes} {n : ℕ} {stream : BodyStream} {cs : List Chunk}
    (hnext : ∀ (s : Request) (rest : Bytes) (t : BodyStream) (x : Bytes),
      s.line.length + rest.length < r.line.length + buffer.length → Midway s x t.written →
        Ends (next (s, some t) rest) (TakenIn x rest t.opened))
    (hseen : seen = (cs.map Chunk.bytes).flatten ++ (line ++ [13, 10] ++ r.line))
    (hwritten : stream.written = payload cs) (hstatus : r.chunked_status = true)
    (hsize : SizeLine line n) (hlen : r.len = n) (hzero : n = 0 → r.line = []) :
    Ends (Request.chunkData next (r, some stream) buffer) (TakenIn seen buffer stream.opened) := by
  unfold Request.chunkData
  dsimp only
  split
  · rename_i hend
    obtain rfl : n = 0 := by omega
    refine ends_ok.mpr ⟨⟨{ stream with closed := true }, rfl, rfl, ?_, fun _ => ?_⟩, ?_, ?_⟩
    · intro h
      cases h
    · refine ⟨⟨cs, line, hsize⟩, ?_, hwritten⟩
      show seen ++ buffer = wire line cs ++ buffer
      rw [wire_eq, hseen, hzero rfl, List.append_nil]
    · intro h
      cases h
    · intro h
      exact absurd h (by decide : ¬ (0 : ℤ) < -1)
  · rename_i hne
    have hn : n ≠ 0 := by
      intro hn
      exact hne (by rw [hlen, hn]; rfl)
    split
    · refine ends_ok.mpr (takenIn_waits ⟨cs, line ++ [13, 10] ++ (r.line ++ buffer), ?_, hwritten,
        .data hstatus hsize hn hlen⟩)
      rw [hseen]
      simp only [List.append_assoc]
    · rename_i data rest hcut
      obtain ⟨hsplit, hunbroken⟩ := (cutAt_eq_some_iff (by decide)).mp hcut
      have hshort := cutAt_length hcut
      rw [List.length_append] at hshort
      split
      · exact ends_ok.mpr (takenIn_error (by decide) _ _ _ _ _)
      · rename_i hlength
        rw [hlen, toSize_length hsize.small] at hlength
        have hdata : data.length = n := not_not.mp hlength
        subst hdata
        have hnonempty : data ≠ [] := fun hnil => hn (by rw [hnil]; rfl)
        let c : Chunk := ⟨line, data, hsize, hnonempty, hunbroken⟩
        have hmidway : Midway { r with line := [], len := -1, chunked_status := false }
            (((cs ++ [c]).map Chunk.bytes).flatten) (stream.written ++ data) := by
          refine ⟨cs ++ [c], [], (List.append_nil _).symm, ?_, .size rfl⟩
          rw [payload_append, hwritten]
        have hjoined : seen ++ buffer = ((cs ++ [c]).map Chunk.bytes).flatten ++ rest := by
          have hbytes : c.bytes = line ++ [13, 10] ++ (data ++ [13, 10]) := rfl
          rw [List.map_append, List.flatten_append, hseen]
          simp only [List.map_cons, List.map_nil, List.flatten_cons, List.flatten_nil,
            List.append_nil, hbytes, List.append_assoc]
          rw [hsplit]
          simp
        have hrec := hnext _ rest { stream with written := stream.written ++ data } _
          (by simp only [List.length_nil]; omega) hmidway
        refine hrec.mono ?_
        intro out hout
        obtain ⟨⟨stream', hstream, hopened, hwaits, hdone⟩, hrest, hfails⟩ := hout
        rw [← hjoined] at hwaits hdone
        exact ⟨⟨stream', hstream, hopened, hwaits, hdone⟩, hrest, hfails⟩

/-- The loop over chunks, from any state between two calls. -/
theorem chunkLoop_takenIn (r : Request) (buffer : Bytes) (stream : BodyStream) (seen : Bytes)
    (h : Midway r seen stream.written) :
    Ends (Request.chunkLoop (r, some stream) buffer) (TakenIn seen buffer stream.opened) := by
  induction hm : r.line.length + buffer.length using Nat.strong_induction_on
    generalizing r buffer stream seen with
  | h m ih =>
    obtain ⟨cs, tail, hseen, hwritten, hpending⟩ := h
    have hnext : ∀ (s : Request) (rest : Bytes) (t : BodyStream) (x : Bytes),
        s.line.length + rest.length < r.line.length + buffer.length → Midway s x t.written →
          Ends (Request.chunkLoop (s, some t) rest) (TakenIn x rest t.opened) := by
      intro s rest t x hlt hmidway
      exact ih _ (by omega) s rest t x hmidway rfl
    rw [Request.chunkLoop_eq]
    split
    · rename_i hempty
      subst hempty
      split
      · exact ends_ok.mpr (takenIn_error (by decide) _ _ _ _ _)
      · refine ends_ok.mpr ⟨⟨stream, rfl, rfl, fun _ => ?_, ?_⟩, fun _ => rfl, ?_⟩
        · rw [List.append_nil]
          exact ⟨cs, tail, hseen, hwritten, hpending⟩
        · intro hdone
          cases hdone
        · intro hpos
          exact absurd hpos (Int.lt_irrefl 0)
    · split
      · rename_i hstatus
        cases hpending with
        | size hsize =>
          rw [hstatus] at hsize
          cases hsize
        | data _ hline hn hlen =>
          exact chunkData_takenIn hnext hseen hwritten hstatus hline hlen fun h => absurd h hn
      · rename_i hstatus
        have hopen : r.chunked_status = false := by simpa using hstatus
        cases hpending with
        | data hclosed => exact absurd hclosed hstatus
        | size =>
          unfold Request.chunkSize
          dsimp only
          split
          · have hmidway : Midway { r with line := r.line ++ buffer } (seen ++ buffer)
                stream.written := by
              refine ⟨cs, r.line ++ buffer, ?_, hwritten, .size hopen⟩
              rw [hseen, List.append_assoc]
            split
            · exact ends_ok.mpr (takenIn_error (by decide) _ _ _ _ _)
            · exact ends_ok.mpr (takenIn_waits hmidway)
          · rename_i line rest hcut
            obtain ⟨hsplit, hunbroken⟩ := (cutAt_eq_some_iff (by decide)).mp hcut
            have hshort := cutAt_length hcut
            rw [List.length_append] at hshort
            split
            · exact ends_ok.mpr (takenIn_error (by decide) _ _ _ _ _)
            · rename_i hgood
              rw [not_or, not_not, Int.not_lt] at hgood
              obtain ⟨hread, hlow⟩ := hgood
              have hline : SizeLine line (getInt line 16 0).2.toNat := by
                refine ⟨hunbroken, ?_⟩
                rw [Int.toNat_of_nonneg hlow]
                exact Prod.ext hread rfl
              have hdata : Ends (Request.chunkData Request.chunkLoop ({ r with
                  chunked_body_size := toInt (r.chunked_body_size - (line.length + 2))
                  len := (getInt line 16 0).2
                  line := []
                  chunked_status := true }, some stream) rest)
                  (TakenIn ((cs.map Chunk.bytes).flatten ++ (line ++ [13, 10])) rest
                    stream.opened) := by
                refine chunkData_takenIn ?_ (by simp) hwritten rfl hline
                  (Int.toNat_of_nonneg hlow).symm fun _ => rfl
                intro s rest' t x hlt hmidway
                simp only [List.length_nil] at hlt
                exact hnext s rest' t x (by omega) hmidway
              refine hdata.mono ?_
              intro out hout
              have hjoined : (cs.map Chunk.bytes).flatten ++ (line ++ [13, 10]) ++ rest =
                  seen ++ buffer := by
                rw [hseen, List.append_assoc, List.append_assoc _ r.line, hsplit]
              obtain ⟨⟨stream', hstream, hopened, hwaits, hdone⟩, hrest, hfails⟩ := hout
              rw [hjoined] at hwaits hdone
              exact ⟨⟨stream', hstream, hopened, hwaits, hdone⟩, hrest, hfails⟩

end Webserveau.ChunkedIntake
