import Webserveau.BodySegmentation
import Webserveau.Intake

/-!
The intake of a body whose length is known.
Of the bytes that arrive the body takes as many as are missing; the rest stays in the
buffer, and so does everything that arrives once the body is complete.
-/
namespace Webserveau.BodyIntake

open ByteStrings OrderedMaps Formats Requests Clients EventLoop Checks Transitions Intake
  BodySegmentation

/-- A client whose body has a known length, with the number of bytes that are in. -/
structure Measures (c : Client) (length count : ℕ) : Prop where
  header : c.headerStatus = .done
  body : c.bodyStatus = .ongoing
  receiving : Receiving c.getRequest
  measured : c.getRequest.chunked = false
  length_eq : c.getRequest.content_length = length
  count_eq : c.getRequest.len = count

/-- The counters of the body are all that changes while it is read. -/
def Counted (r r' : Request) : Prop :=
  ∃ len b_status final_status,
    r' = { r with len := len, b_status := b_status, final_status := final_status }

theorem Measures.missing {c : Client} {length count : ℕ} (h : Measures c length count) :
    count < length ∧ (length : ℤ) ≤ INT32_MAX := by
  have hmeasured := h.measured
  obtain ⟨-, hlt, hhigh⟩ := h.receiving.framed.resolve_left (by simp [hmeasured])
  rw [h.length_eq, h.count_eq] at hlt
  rw [h.length_eq] at hhigh
  exact ⟨by omega, hhigh⟩

/-- One call of the body parser, on any number of bytes. -/
theorem parseInput_counts {r : Request} {length count : ℕ} (h : Receiving r)
    (hmeasured : r.chunked = false) (hlength : r.content_length = length)
    (hcount : r.len = count) (stream : Option BodyStream) (x : Bytes) :
    (x.length < length - count → ∃ r', Counted r r' ∧ Receiving r' ∧ r'.len = (count + x.length : ℕ) ∧
      Request.parseInput (r, stream) x = .ok (0, (r', BodyStream.write stream x), [])) ∧
      (length - count ≤ x.length → ∃ r', Counted r r' ∧ Request.parseInput (r, stream) x =
        .ok (-1, (r', BodyStream.close (BodyStream.write stream (x.take (length - count)))),
          x.drop (length - count))) := by
  obtain ⟨hlow, hlt, hhigh⟩ := h.framed.resolve_left (by simp [hmeasured])
  rw [hlength, hcount] at hlt
  by_cases hx : x = []
  · subst hx
    constructor
    · intro _
      refine ⟨r, ⟨r.len, r.b_status, r.final_status, rfl⟩, h, by simpa using hcount, ?_⟩
      rw [parseInput_nil, write_nil]
    · intro hfull
      simp only [List.length_nil] at hfull
      omega
  · have hcall := (parseInput_mesured h hmeasured stream hx).trans
      (parseMesured_eq (entered r) stream x hlow (by rw [← hlength, ← hcount] at hlt; exact hlt)
        hhigh)
    have hdiff : (entered r).content_length - (entered r).len = (length - count : ℕ) := by
      show r.content_length - r.len = _
      omega
    rw [hdiff] at hcall
    constructor
    · intro hshort
      rw [if_pos (by omega)] at hcall
      refine ⟨_, ⟨_, _, r.final_status, rfl⟩, ?_, ?_, hcall⟩
      · refine ⟨h.head_done, Or.inr rfl, h.unfinished, Or.inr ⟨?_, ?_, hhigh⟩⟩
        · show 0 ≤ r.len + x.length
          omega
        · show r.len + x.length < r.content_length
          omega
      · show r.len + x.length = _
        omega
    · intro hfull
      rw [if_neg (by omega)] at hcall
      dsimp only at hcall
      rw [Int.toNat_natCast] at hcall
      exact ⟨_, ⟨_, _, _, rfl⟩, hcall⟩

/-- The client after more bytes of its body, none of which completes it. -/
def filling (c : Client) (r : Request) (x : Bytes) : Client :=
  { c with request := some r, buffer := [], bodyStream := BodyStream.write c.bodyStream x }

/-- The client after the last bytes of its body, with what is left over. -/
def filled (c : Client) (r : Request) (x rest : Bytes) : Client :=
  { c with
    request := some r
    buffer := rest
    bodyStream := BodyStream.close (BodyStream.write c.bodyStream x)
    bodyStatus := .done }

theorem parseRequest_filling {c : Client} {length count : ℕ} (h : Measures c length count)
    (bytes : Bytes) (hshort : (c.buffer ++ bytes).length < length - count) :
    ∃ r, Counted c.getRequest r ∧
      Measures (filling c r (c.buffer ++ bytes)) length (count + (c.buffer ++ bytes).length) ∧
      c.parseRequest bytes = .ok (0, filling c r (c.buffer ++ bytes)) := by
  obtain ⟨r, hcounted, hreceiving, hcount, hparse⟩ := (parseInput_counts h.receiving h.measured
    h.length_eq h.count_eq c.bodyStream (c.buffer ++ bytes)).1 hshort
  refine ⟨r, hcounted, ⟨h.header, h.body, hreceiving, ?_, ?_, hcount⟩, ?_⟩
  · obtain ⟨len, b_status, final_status, rfl⟩ := hcounted
    exact h.measured
  · obtain ⟨len, b_status, final_status, rfl⟩ := hcounted
    exact h.length_eq
  · have hheader : ¬ c.headerStatus = .ongoing := by
      rw [h.header]
      decide
    unfold Client.parseRequest
    rw [if_neg hheader, if_pos ⟨h.header, h.body⟩]
    simp only [hparse, bind, Except.bind, pure, Except.pure, Except.ok.injEq, Prod.mk.injEq,
      true_and, filling, Client.setRequest, h.body]
    rfl

theorem parseRequest_filled {c : Client} {length count : ℕ} (h : Measures c length count)
    (bytes : Bytes) (hfull : length - count ≤ (c.buffer ++ bytes).length) :
    ∃ r, Counted c.getRequest r ∧ c.parseRequest bytes = .ok (-1, filled c r
      ((c.buffer ++ bytes).take (length - count)) ((c.buffer ++ bytes).drop (length - count))) := by
  obtain ⟨r, hcounted, hparse⟩ := (parseInput_counts h.receiving h.measured h.length_eq h.count_eq
    c.bodyStream (c.buffer ++ bytes)).2 hfull
  have hheader : ¬ c.headerStatus = .ongoing := by
    rw [h.header]
    decide
  refine ⟨r, hcounted, ?_⟩
  unfold Client.parseRequest
  rw [if_neg hheader, if_pos ⟨h.header, h.body⟩]
  simp only [hparse, bind, Except.bind, pure, Except.pure, filled, Client.setRequest]
  rfl

/-- Bytes that come too early only enter the buffer. -/
theorem parseRequest_idle {c : Client} (h : Idle c) (bytes : Bytes) :
    c.parseRequest bytes =
      .ok (0, { c.setRequest c.getRequest with buffer := c.buffer ++ bytes }) := by
  unfold Client.parseRequest
  rw [if_neg h.1, if_neg h.2]
  rfl

theorem receive_idle (env : Env) {c : Client} (h : Idle c) (bytes : Bytes) :
    receive env c bytes =
      .ok (0, { c.setRequest c.getRequest with buffer := c.buffer ++ bytes }) := by
  unfold receive
  rw [parseRequest_idle h]
  rfl

theorem receive_filling (env : Env) {c : Client} {length count : ℕ} (h : Measures c length count)
    (bytes : Bytes) (hshort : (c.buffer ++ bytes).length < length - count) :
    ∃ r, Counted c.getRequest r ∧
      Measures (filling c r (c.buffer ++ bytes)) length (count + (c.buffer ++ bytes).length) ∧
      receive env c bytes = .ok (0, filling c r (c.buffer ++ bytes)) := by
  obtain ⟨r, hcounted, hmeasures, hparse⟩ := parseRequest_filling h bytes hshort
  refine ⟨r, hcounted, hmeasures, ?_⟩
  unfold receive
  rw [hparse]
  rfl

/-- The bytes that complete the body hand the request over. -/
theorem receive_filled (env : Env) {c : Client} {length count : ℕ} (h : Measures c length count)
    (bytes : Bytes) (hfull : length - count ≤ (c.buffer ++ bytes).length) :
    ∃ r, Counted c.getRequest r ∧ receive env c bytes = .ok (handleRequestBodyDone (filled c r
      ((c.buffer ++ bytes).take (length - count)) ((c.buffer ++ bytes).drop (length - count)))) := by
  obtain ⟨r, hcounted, hparse⟩ := parseRequest_filled h bytes hfull
  have hready : ¬ c.headerStatus = .ready := by
    rw [h.header]
    decide
  refine ⟨r, hcounted, ?_⟩
  unfold receive
  rw [hparse]
  simp only [bind, Except.bind]
  rw [if_neg (by decide), if_neg (by exact hready)]
  rfl

theorem startBody_filling {c : Client} {length count : ℕ} (h : Measures c length count)
    (hshort : c.buffer.length < length - count) :
    ∃ r, Counted c.getRequest r ∧
      Measures (filling c r c.buffer) length (count + c.buffer.length) ∧
      startBody c = .ok (0, filling c r c.buffer) := by
  have hnil : c.buffer ++ [] = c.buffer := List.append_nil _
  obtain ⟨r, hcounted, hmeasures, hparse⟩ := parseRequest_filling h [] (by rwa [hnil])
  rw [hnil] at hmeasures hparse
  refine ⟨r, hcounted, hmeasures, ?_⟩
  have hbody : c.bodyStatus ≠ .none := by
    rw [h.body]
    decide
  unfold startBody parseRest
  rw [if_pos hbody, hparse]
  simp only [bind, Except.bind]
  unfold finishBody
  rw [if_neg (fun hdone => hdone.2 h.body)]
  rfl

theorem startBody_filled {c : Client} {length count : ℕ} (h : Measures c length count)
    (hfull : length - count ≤ c.buffer.length) :
    ∃ r, Counted c.getRequest r ∧ startBody c = .ok (handleRequestBodyDone
      (filled c r (c.buffer.take (length - count)) (c.buffer.drop (length - count)))) := by
  have hnil : c.buffer ++ [] = c.buffer := List.append_nil _
  obtain ⟨r, hcounted, hparse⟩ := parseRequest_filled h [] (by rwa [hnil])
  rw [hnil] at hparse
  refine ⟨r, hcounted, ?_⟩
  have hbody : c.bodyStatus ≠ .none := by
    rw [h.body]
    decide
  unfold startBody parseRest
  rw [if_pos hbody, hparse]
  rfl

/-- A request without a body is handed over at once. -/
theorem startBody_none {c : Client} (h : c.bodyStatus = .none) :
    startBody c = .ok (handleRequestBodyDone c) := by
  unfold startBody parseRest
  rw [if_neg (not_not_intro h)]
  simp only [bind, Except.bind]
  unfold finishBody
  rw [if_pos ⟨Int.le_refl 0, by rw [h]; decide⟩]
  rfl

/-- What the parsers work on is untouched, the hints of the request aside. -/
structure SameIntake (c d : Client) : Prop where
  header : d.headerStatus = c.headerStatus
  body : d.bodyStatus = c.bodyStatus
  buffer : d.buffer = c.buffer
  stream : d.bodyStream = c.bodyStream
  request : ∃ hints, d.getRequest = { c.getRequest with resHints := hints }

theorem SameIntake.refl (c : Client) : SameIntake c c :=
  ⟨rfl, rfl, rfl, rfl, c.getRequest.resHints, rfl⟩

theorem SameIntake.trans {c d e : Client} (h : SameIntake c d) (h' : SameIntake d e) :
    SameIntake c e := by
  obtain ⟨hints, hrequest⟩ := h.request
  obtain ⟨hints', hrequest'⟩ := h'.request
  refine ⟨h'.header.trans h.header, h'.body.trans h.body, h'.buffer.trans h.buffer,
    h'.stream.trans h.stream, hints', ?_⟩
  rw [hrequest', hrequest]

theorem handleRequestBodyDone_same (c : Client) : SameIntake c (handleRequestBodyDone c).2 := by
  unfold handleRequestBodyDone
  dsimp only
  split
  · exact ⟨rfl, rfl, rfl, rfl, c.getRequest.resHints, rfl⟩
  · split
    · exact ⟨rfl, rfl, rfl, rfl, _, rfl⟩
    · exact ⟨rfl, rfl, rfl, rfl, c.getRequest.resHints, rfl⟩

theorem tryResponse_same (env : Env) (c : Client) (status : ℤ) :
    SameIntake c (tryResponse env c status).2 := by
  have hrequest : ∀ hints, ∃ hints', ({ (if status ≠ 0 then c.getRequest.setHintStatus status
      else c.getRequest) with resHints := hints } : Request) =
        { c.getRequest with resHints := hints' } := by
    intro hints
    refine ⟨hints, ?_⟩
    split
    · rfl
    · rfl
  unfold tryResponse
  dsimp only
  split
  · exact ⟨rfl, rfl, rfl, rfl, hrequest _⟩
  · exact ⟨rfl, rfl, rfl, rfl, hrequest _⟩

theorem clearResponse_same (c : Client) : SameIntake c c.clearResponse :=
  ⟨rfl, rfl, rfl, rfl, c.getRequest.resHints, rfl⟩

theorem generateResponse_same (env : Env) (c : Client) (status : ℤ) :
    SameIntake c (generateResponse env c status).2 := by
  have hfirst := tryResponse_same env c status
  unfold generateResponse
  split
  · exact SameIntake.refl c
  · dsimp only
    split
    · exact hfirst
    · split
      · exact hfirst.trans (clearResponse_same _)
      · have hsecond := (hfirst.trans (clearResponse_same _)).trans
          (tryResponse_same env _ RES_INTERNAL_ERROR)
        split
        · exact hsecond
        · exact hsecond.trans (clearResponse_same _)

theorem deleteCGIProcess_same (c : Client) : SameIntake c c.deleteCGIProcess := by
  unfold Client.deleteCGIProcess
  split
  · exact SameIntake.refl c
  · exact ⟨rfl, rfl, rfl, rfl, c.getRequest.resHints, rfl⟩

theorem generateCGIProcess_same (env : Env) (c : Client) :
    SameIntake c (generateCGIProcess env c).2 := by
  unfold generateCGIProcess execCGI
  dsimp only
  by_cases hpid : env.pid > 0
  · rw [if_pos hpid]
    exact ⟨rfl, rfl, rfl, rfl, _, rfl⟩
  · rw [if_neg hpid]
    exact ⟨rfl, rfl, rfl, rfl, _, rfl⟩

theorem handleClientResponse_same (env : Env) (c : Client) (response : ℤ) :
    SameIntake c (handleClientResponse env c response).2 := by
  unfold handleClientResponse
  split
  · exact generateResponse_same env c response
  · dsimp only
    split
    · exact (generateCGIProcess_same env c).trans (generateResponse_same env _ _)
    · exact generateCGIProcess_same env c

/-- A reply leaves alone what is still to be read. -/
theorem respondTo_same (env : Env) (out : ℤ × Client) : SameIntake out.2 (respondTo env out).2 := by
  unfold respondTo
  split
  · exact handleClientResponse_same env out.2 out.1
  · exact SameIntake.refl out.2

end Webserveau.BodyIntake
