import Webserveau.UploadChecks
import Webserveau.BodyIntake
import Webserveau.LoopSteps

/-!
The framing of a body by its content length.
The result code of `getInt` is not looked at, so an accepted request may have any text as
its content length. A numeral counts its body right when it fits an `int`, unless the
default URI of a directory has left the request in the error status.
-/
namespace Webserveau.ContentLength

open ByteStrings OrderedMaps Numerals Formats Requests Clients EventLoop Checks HeadSafety
  HeadSegmentation ParserFrames Transitions Intake BodySegmentation Acceptance UploadChecks BodyIntake
  LoopSteps

/-- A call of the head parser leaves the body alone and says when the head is complete. -/
def HeadCall (r : Request) (out : ℤ × Request × Bytes) : Prop :=
  (out.2.1.len = r.len ∧ out.2.1.b_status = r.b_status ∧ out.2.1.chunked = r.chunked) ∧
    (out.1 = -1 → out.2.1.status = .term ∧ out.2.1.final_status = .host)

theorem HeadCall.congr {r s : Request} {out : ℤ × Request × Bytes} (h : HeadCall s out)
    (hlen : s.len = r.len) (hb : s.b_status = r.b_status) (hchunked : s.chunked = r.chunked) :
    HeadCall r out := by
  obtain ⟨⟨hlen', hb', hchunked'⟩, hdone⟩ := h
  exact ⟨⟨hlen'.trans hlen, hb'.trans hb, hchunked'.trans hchunked⟩, hdone⟩

theorem checkSizes_headCall (r : Request) (buffer : Bytes) :
    HeadCall r (r.checkSizes.1, r.checkSizes.2, buffer) := by
  rcases checkSizes_cases r with hpass | ⟨error, verbose, hcode, hfail⟩
  · rw [hpass]
    exact ⟨⟨rfl, rfl, rfl⟩, fun h => absurd h (by decide : (0 : ℤ) ≠ -1)⟩
  · rw [hfail]
    refine ⟨⟨rfl, rfl, rfl⟩, ?_⟩
    intro h
    change error = -1 at h
    omega

theorem headerLines_headCall (fuel : ℕ) (r : Request) (buffer : Bytes) :
    Ends (r.headerLines fuel buffer) (HeadCall r) := by
  induction fuel generalizing r buffer with
  | zero => exact ends_pure.mpr ⟨⟨rfl, rfl, rfl⟩, fun h => absurd h (by decide : (0 : ℤ) ≠ -1)⟩
  | succ fuel ih =>
    rw [Request.headerLines_succ]
    split
    · exact ends_ok.mpr ((checkSizes_headCall _ _).congr rfl rfl rfl)
    · split
      · exact ends_ok.mpr ((checkSizes_headCall _ _).congr rfl rfl rfl)
      · split
        · exact ends_ok.mpr ⟨⟨rfl, rfl, rfl⟩, fun _ => ⟨rfl, rfl⟩⟩
        · split
          · exact ends_ok.mpr ⟨⟨rfl, rfl, rfl⟩, fun h => absurd h (by decide : (400 : ℤ) ≠ -1)⟩
          · split
            · exact ends_ok.mpr ⟨⟨rfl, rfl, rfl⟩, fun h => absurd h (by decide : (431 : ℤ) ≠ -1)⟩
            · exact (ih _ _).mono fun out hout => hout.congr rfl rfl rfl

theorem parseRequestLine_headCall (r : Request) (buffer : Bytes) :
    Ends r.parseRequestLine fun out => HeadCall r (out.1, out.2, buffer) ∧
      (out.1 ≠ 0 → out.2.getError ≠ -1) := by
  rw [Request.parseRequestLine_eq]
  split
  · refine ends_ok.mpr ⟨⟨⟨rfl, rfl, rfl⟩, ?_⟩, ?_⟩
    · exact fun h => absurd h (by decide : (501 : ℤ) ≠ -1)
    · exact fun _ => (by decide : (501 : ℤ) ≠ -1)
  · split
    · exact ends_error
    · simp only
      split
      · refine ends_ok.mpr ⟨⟨⟨rfl, rfl, rfl⟩, ?_⟩, ?_⟩
        · exact fun h => absurd h (by decide : (505 : ℤ) ≠ -1)
        · exact fun _ => (by decide : (505 : ℤ) ≠ -1)
      · exact ends_ok.mpr ⟨⟨⟨rfl, rfl, rfl⟩, fun h => absurd h (by decide : (0 : ℤ) ≠ -1)⟩,
          fun h => absurd rfl h⟩

theorem requestLine_headCall (r : Request) (buffer : Bytes) :
    Ends (r.requestLine buffer) (HeadCall r) := by
  by_cases hr : r.status = .rline
  · rw [Request.requestLine_eq r hr]
    split
    · exact ends_ok.mpr ((checkSizes_headCall _ _).congr rfl rfl rfl)
    · dsimp only
      split
      · exact ends_ok.mpr ⟨⟨rfl, rfl, rfl⟩, fun h => absurd h (by decide : (414 : ℤ) ≠ -1)⟩
      · split
        · exact ends_error
        · rename_i hline
          obtain ⟨hcall, herror⟩ := parseRequestLine_headCall _ [] _ hline
          split
          · rename_i hres
            refine ends_ok.mpr ⟨hcall.1, ?_⟩
            intro h
            exact absurd h (herror hres)
          · refine (headerLines_headCall _ _ _).mono ?_
            intro out hout
            exact hout.congr hcall.1.1 hcall.1.2.1 hcall.1.2.2
  · rw [Request.requestLine, if_neg hr]
    exact headerLines_headCall _ _ _

theorem parseHeaders_headCall (r : Request) (buffer : Bytes) :
    Ends (r.parseHeaders buffer) (HeadCall r) := by
  unfold Request.parseHeaders
  split
  · exact ends_pure.mpr ⟨⟨rfl, rfl, rfl⟩, fun h => absurd h (by decide : (0 : ℤ) ≠ -1)⟩
  · dsimp only
    split
    · split
      · exact ends_pure.mpr ((checkSizes_headCall _ _).congr rfl rfl rfl)
      · exact (requestLine_headCall _ _).mono fun out hout => hout.congr rfl rfl rfl
    · exact (requestLine_headCall _ _).mono fun out hout => hout.congr rfl rfl rfl

/-- A request whose head has just been read. -/
structure HeadRead (r : Request) : Prop where
  status : r.status = .term
  final_status : r.final_status = .host
  b_status : r.b_status = .new
  len : r.len = 0
  chunked : r.chunked = false
  cgiRedir : r.resHints.cgiRedir = .none

theorem headRead_of_parse {input rest : Bytes} {r : Request}
    (h : Request.parseHeaders {} input = .ok (-1, r, rest)) : HeadRead r := by
  obtain ⟨⟨hlen, hb, hchunked⟩, hdone⟩ := parseHeaders_headCall _ _ _ h
  obtain ⟨hstatus, hfinal⟩ := hdone rfl
  obtain ⟨-, status, verbose, hhints⟩ := parseHeaders_keeps _ _ _ h
  refine ⟨hstatus, hfinal, hb, hlen, hchunked, ?_⟩
  show r.resHints.cgiRedir = .none
  rw [hhints]

/-- A read from the connection, with what is answered to it. -/
def readOn (c : Client) (event : EpollEvent) : Checked Client := do
  let out ← handleReadable event c
  return out.2

/-- What follows an accepted head, up to the next read. -/
def goOn (env : Env) (c : Client) : Checked Client := do
  let out ← startBody c
  return (respondTo env out).2

/-- Of the bytes that followed the head, the first `n` have gone into the body. -/
structure Framed (start : Client) (n : ℕ) (input : Bytes) (c : Client) : Prop where
  header : c.headerStatus = .done
  body : c.bodyStatus = .ongoing ↔ input.length < n
  buffer : c.buffer = input.drop n
  stream : c.bodyStream.map BodyStream.written =
    start.bodyStream.map fun s => s.written ++ input.take n

/-- The body is what the next `n` bytes of the connection hold, however they are read. -/
def TakesBody (c : Client) (n : ℕ) : Prop :=
  ∀ (env : Env) (events : List EpollEvent) (reads : List Bytes),
    events.map EpollEvent.incoming = reads.map some → (∀ read ∈ reads, read ≠ []) →
      ∃ d, (goOn env c >>= fun d => events.foldlM readOn d) = .ok d ∧
        Framed c n (c.buffer ++ reads.flatten) d

/-- A client in the course of its body: what comes next is either missing or kept. -/
structure Takes (start : Client) (n : ℕ) (input : Bytes) (c : Client) : Prop where
  framed : Framed start n input c
  measures : input.length < n → Measures c n input.length

theorem map_written_write (stream : Option BodyStream) (x : Bytes) :
    (BodyStream.write stream x).map BodyStream.written = stream.map fun s => s.written ++ x := by
  cases stream with
  | none => rfl
  | some s => rfl

theorem map_written_close (stream : Option BodyStream) :
    (BodyStream.close stream).map BodyStream.written = stream.map BodyStream.written := by
  cases stream with
  | none => rfl
  | some s => rfl

/-- What is written behind the bytes written before. -/
theorem map_written_append {stream start : Option BodyStream} {x : Bytes}
    (h : stream.map BodyStream.written = start.map fun s => s.written ++ x) (y : Bytes) :
    (stream.map fun s => s.written ++ y) = start.map fun s => s.written ++ (x ++ y) := by
  cases stream with
  | none =>
    cases start with
    | none => rfl
    | some s => cases h
  | some t =>
    cases start with
    | none => cases h
    | some s =>
      have hwritten : t.written = s.written ++ x := Option.some.inj h
      show some (t.written ++ y) = some (s.written ++ (x ++ y))
      rw [hwritten, List.append_assoc]

theorem handleReadable_reading (event : EpollEvent) (c : Client) {bytes : Bytes}
    (hbytes : event.incoming = some bytes) (hne : bytes ≠ []) :
    readOn c event = receive event.env c bytes >>= fun out => .ok (respondTo event.env out).2 := by
  unfold readOn handleReadable handleClientIn
  rw [hbytes]
  dsimp only
  rw [if_neg hne]
  cases receive event.env c bytes with
  | error e => rfl
  | ok out => rfl

/-- More bytes of a body that stays incomplete, and the start of one. -/
theorem filling_takes {start c : Client} {n : ℕ} {input x : Bytes} {r : Request}
    (hstream : c.bodyStream.map BodyStream.written =
      start.bodyStream.map fun s => s.written ++ input)
    (hshort : (input ++ x).length < n)
    (hmeasures : Measures (filling c r x) n (input ++ x).length) :
    Takes start n (input ++ x) (filling c r x) := by
  refine ⟨⟨hmeasures.header, ?_, ?_, ?_⟩, fun _ => hmeasures⟩
  · exact ⟨fun _ => hshort, fun _ => hmeasures.body⟩
  · rw [List.drop_of_length_le (by omega)]
    rfl
  · rw [List.take_of_length_le (by omega)]
    show (BodyStream.write c.bodyStream x).map BodyStream.written = _
    rw [map_written_write, map_written_append hstream]

/-- The last bytes of a body, with what is left over. -/
theorem filled_takes {start c e : Client} {n : ℕ} {input x : Bytes} {r : Request}
    (hheader : c.headerStatus = .done)
    (hstream : c.bodyStream.map BodyStream.written =
      start.bodyStream.map fun s => s.written ++ input)
    (hbefore : input.length ≤ n) (hfull : n ≤ (input ++ x).length)
    (h : SameIntake (filled c r (x.take (n - input.length)) (x.drop (n - input.length))) e) :
    Takes start n (input ++ x) e := by
  refine ⟨⟨h.header.trans hheader, ?_, ?_, ?_⟩, fun hlt => absurd hfull (by omega)⟩
  · rw [h.body]
    constructor
    · intro hbody
      cases hbody
    · intro hlt
      omega
  · rw [h.buffer, List.drop_append, List.drop_of_length_le hbefore, List.nil_append]
    rfl
  · rw [h.stream, List.take_append, List.take_of_length_le hbefore]
    show (BodyStream.close (BodyStream.write c.bodyStream (x.take (n - input.length)))).map
      BodyStream.written = _
    rw [map_written_close, map_written_write, map_written_append hstream]

theorem respondTo_zero (env : Env) (c : Client) : respondTo env (0, c) = (0, c) := by
  unfold respondTo
  rw [if_neg (Int.lt_irrefl 0)]

/-- The start of a measured body, with what came behind the head. -/
theorem goOn_takes (env : Env) {c : Client} {n : ℕ} (h : Measures c n 0) :
    ∃ d, goOn env c = .ok d ∧ Takes c n c.buffer d := by
  have hstream : c.bodyStream.map BodyStream.written =
      c.bodyStream.map fun s => s.written ++ ([] : Bytes) := by
    cases c.bodyStream with
    | none => rfl
    | some s => simp
  by_cases hshort : c.buffer.length < n
  · obtain ⟨r, -, hmeasures, hstart⟩ := startBody_filling h (by omega)
    rw [Nat.zero_add] at hmeasures
    refine ⟨filling c r c.buffer, ?_, ?_⟩
    · unfold goOn
      rw [hstart]
      show Except.ok (respondTo env (0, filling c r c.buffer)).2 = _
      rw [respondTo_zero]
    · exact @filling_takes _ _ _ [] _ _ hstream hshort hmeasures
  · obtain ⟨r, -, hstart⟩ := startBody_filled h (by omega)
    refine ⟨_, by unfold goOn; rw [hstart]; rfl, ?_⟩
    refine @filled_takes _ _ _ _ [] _ _ h.header hstream (Nat.zero_le n) ?_
      ((handleRequestBodyDone_same _).trans (respondTo_same env _))
    show n ≤ c.buffer.length
    omega

/-- Without a body, everything behind the head is kept. -/
theorem goOn_takes_none (env : Env) {c : Client} (hheader : c.headerStatus = .done)
    (h : c.bodyStatus = .none) : ∃ d, goOn env c = .ok d ∧ Takes c 0 c.buffer d := by
  have hsame := (handleRequestBodyDone_same c).trans (respondTo_same env _)
  refine ⟨_, by unfold goOn; rw [startBody_none h]; rfl, ?_⟩
  refine ⟨⟨hsame.header.trans hheader, ?_, ?_, ?_⟩, fun hlt => absurd hlt (by omega)⟩
  · rw [hsame.body, h]
    constructor
    · intro hbody
      cases hbody
    · intro hlt
      omega
  · exact hsame.buffer
  · rw [hsame.stream, List.take_zero]
    cases c.bodyStream with
    | none => rfl
    | some s => simp

/-- One more read. -/
theorem readOn_takes {start c : Client} {n : ℕ} {input bytes : Bytes} (h : Takes start n input c)
    {event : EpollEvent} (hbytes : event.incoming = some bytes) (hne : bytes ≠ []) :
    ∃ d, readOn c event = .ok d ∧ Takes start n (input ++ bytes) d := by
  obtain ⟨⟨hheader, hbody, hbuffer, hstream⟩, hmeasures⟩ := h
  rw [handleReadable_reading event c hbytes hne]
  by_cases hopen : input.length < n
  · have hempty : c.buffer = [] := by rw [hbuffer, List.drop_of_length_le (by omega)]
    have hnil : c.buffer ++ bytes = bytes := by rw [hempty, List.nil_append]
    rw [List.take_of_length_le (by omega)] at hstream
    by_cases hshort : (input ++ bytes).length < n
    · rw [List.length_append] at hshort
      obtain ⟨r, -, hmeasures', hreceive⟩ := receive_filling event.env (hmeasures hopen) bytes
        (by rw [hnil]; omega)
      rw [hnil] at hmeasures' hreceive
      refine ⟨filling c r bytes, ?_, ?_⟩
      · rw [hreceive]
        show Except.ok (respondTo event.env (0, filling c r bytes)).2 = _
        rw [respondTo_zero]
      · rw [← List.length_append] at hmeasures' hshort
        exact filling_takes hstream hshort hmeasures'
    · rw [List.length_append] at hshort
      obtain ⟨r, -, hreceive⟩ := receive_filled event.env (hmeasures hopen) bytes
        (by rw [hnil]; omega)
      rw [hnil] at hreceive
      refine ⟨_, by rw [hreceive]; rfl, ?_⟩
      refine filled_takes hheader hstream (by omega) ?_
        ((handleRequestBodyDone_same _).trans (respondTo_same event.env _))
      rw [List.length_append]
      omega
  · have hidle : Idle c := by
      constructor
      · rw [hheader]
        decide
      · intro hbusy
        exact hopen (hbody.mp hbusy.2)
    refine ⟨{ c.setRequest c.getRequest with buffer := c.buffer ++ bytes }, ?_, ?_⟩
    · rw [receive_idle event.env hidle]
      show Except.ok (respondTo event.env (0, _)).2 = _
      rw [respondTo_zero]
    · have hlong : n ≤ input.length := by omega
      refine ⟨⟨hheader, ?_, ?_, ?_⟩, ?_⟩
      · rw [List.length_append]
        constructor
        · intro hongoing
          exact absurd (hbody.mp hongoing) hopen
        · intro hlt
          omega
      · rw [List.drop_append_of_le_length hlong, ← hbuffer]
      · rw [List.take_append_of_le_length hlong]
        exact hstream
      · rw [List.length_append]
        intro hlt
        omega

/-- Any number of reads. -/
theorem foldlM_takes {start : Client} {n : ℕ} (events : List EpollEvent) (reads : List Bytes)
    (hevents : events.map EpollEvent.incoming = reads.map some)
    (hreads : ∀ read ∈ reads, read ≠ []) {c : Client} {input : Bytes}
    (h : Takes start n input c) :
    ∃ d, events.foldlM readOn c = .ok d ∧ Takes start n (input ++ reads.flatten) d := by
  induction events generalizing reads c input with
  | nil =>
    obtain rfl : reads = [] := List.map_eq_nil_iff.mp hevents.symm
    exact ⟨c, rfl, by simpa using h⟩
  | cons event events ih =>
    cases reads with
    | nil => cases hevents
    | cons read reads =>
      rw [List.map_cons, List.map_cons, List.cons.injEq] at hevents
      obtain ⟨d, hread, hd⟩ := readOn_takes h hevents.1 (hreads read (List.mem_cons_self ..))
      obtain ⟨e, hrest, he⟩ := ih reads hevents.2
        (fun x hx => hreads x (List.mem_cons_of_mem _ hx)) hd
      refine ⟨e, ?_, ?_⟩
      · rw [List.foldlM_cons, hread]
        exact hrest
      · rw [List.flatten_cons, ← List.append_assoc]
        exact he

theorem takesBody_of_goOn {c : Client} {n : ℕ}
    (h : ∀ env, ∃ d, goOn env c = .ok d ∧ Takes c n c.buffer d) : TakesBody c n := by
  intro env events reads hevents hreads
  obtain ⟨d, hgo, hd⟩ := h env
  obtain ⟨e, hfold, he⟩ := foldlM_takes events reads hevents hreads hd
  refine ⟨e, ?_, he.framed⟩
  rw [hgo]
  exact hfold

theorem getInt_le {str : Bytes} {base : ℕ} {res : ℤ} (h : res ≤ INT32_MAX) :
    (getInt str base res).2 ≤ INT32_MAX := by
  have hrange : ∀ x, toInt x ≤ INT32_MAX := fun x => (toInt_range x).2
  unfold getInt
  dsimp only
  split_ifs
  all_goals first | exact h | exact hrange _

theorem bodyLength_le (r : Request) : bodyLength r ≤ INT32_MAX := by
  unfold bodyLength
  split
  · exact getInt_le (by decide)
  · decide

/-- A numeral that fits an `int` is the length of the body; any other gives another one. -/
theorem bodyLength_eq_iff {r : Request} {n : ℕ}
    (hfield : r.checkHeader (ascii "content-length") = true)
    (hn : Denotes 10 (r.getHeader (ascii "content-length")) n) :
    bodyLength r = n ↔ (n : ℤ) ≤ INT32_MAX := by
  have hlow : (0 : ℤ) ≤ n := Int.natCast_nonneg n
  constructor
  · intro h
    rw [← h]
    exact bodyLength_le r
  · intro h
    unfold bodyLength INT32_MAX at *
    rw [if_pos hfield, getInt_denotes (Or.inl rfl) hn, if_neg (by unfold LONG_MAX; omega)]
    exact toInt_of_range (by omega) h

/-- The parser of the body refuses to go on, and the body stays incomplete. -/
structure Stuck (c : Client) : Prop where
  header : c.headerStatus = .done
  body : c.bodyStatus = .ongoing
  error : c.getRequest.final_status = .error

theorem parseInput_stuck {r : Request} (h : r.final_status = .error)
    (stream : Option BodyStream) (x : Bytes) :
    Request.parseInput (r, stream) x = .ok (0, (r, stream), x) := by
  have hclosed : r.final_status.index > FinalStatus.trailer.index ∨ x = [] := by
    rw [h]
    exact Or.inl (by decide)
  unfold Request.parseInput
  dsimp only
  rw [if_pos hclosed]
  rfl

theorem parseRequest_stuck {c : Client} (h : Stuck c) (bytes : Bytes) :
    ∃ d, c.parseRequest bytes = .ok (0, d) ∧ Stuck d := by
  have hheader : ¬ c.headerStatus = .ongoing := by
    rw [h.header]
    decide
  refine ⟨{ c.setRequest c.getRequest with
    buffer := c.buffer ++ bytes
    bodyStream := c.bodyStream
    bodyStatus := .ongoing }, ?_, h.header, rfl, h.error⟩
  unfold Client.parseRequest
  rw [if_neg hheader, if_pos ⟨h.header, h.body⟩]
  simp only [parseInput_stuck h.error, bind, Except.bind]
  rfl

theorem goOn_stuck (env : Env) {c : Client} (h : Stuck c) :
    ∃ d, goOn env c = .ok d ∧ Stuck d := by
  obtain ⟨d, hparse, hd⟩ := parseRequest_stuck h []
  have hbody : c.bodyStatus ≠ .none := by
    rw [h.body]
    decide
  have hfinish : finishBody 0 d = (0, d) := by
    unfold finishBody
    rw [if_neg (fun hdone => hdone.2 hd.body)]
  refine ⟨d, ?_, hd⟩
  unfold goOn startBody parseRest
  rw [if_pos hbody, hparse]
  show Except.ok (respondTo env (finishBody 0 d)).2 = _
  rw [hfinish, respondTo_zero]

theorem readOn_stuck {c : Client} (h : Stuck c) {event : EpollEvent} {bytes : Bytes}
    (hbytes : event.incoming = some bytes) (hne : bytes ≠ []) :
    ∃ d, readOn c event = .ok d ∧ Stuck d := by
  obtain ⟨d, hparse, hd⟩ := parseRequest_stuck h bytes
  refine ⟨d, ?_, hd⟩
  rw [handleReadable_reading event c hbytes hne]
  unfold receive
  rw [hparse]
  show Except.ok (respondTo event.env (0, d)).2 = _
  rw [respondTo_zero]

/-- Where an accepted request without chunks leaves its client. -/
inductive Announced (c : Client) (r : Request) (d : Client) : Prop
  | empty : bodyLength r ≤ 0 → d.headerStatus = .done → d.bodyStatus = .none → Announced c r d
  | measured : 0 < bodyLength r → ¬ BrokenDefault (hostOf c) r.uri →
      Measures d (bodyLength r).toNat 0 → Announced c r d
  | stuck : 0 < bodyLength r → BrokenDefault (hostOf c) r.uri → Stuck d → Announced c r d

/-- The host does not depend on the body. -/
theorem hostOf_bodyStatus (c : Client) (body : BodyStatus) :
    hostOf { c with bodyStatus := body } = hostOf c := by
  unfold hostOf Client.setHost
  dsimp only
  split
  · rename_i hknown
    rw [if_pos (by exact hknown)]
  · rename_i hunknown
    rw [if_neg (by exact hunknown)]
    rfl

theorem checkHeaders_announced {r : Request} (hread : HeadRead r) (hplain : isChunked r = false)
    (env : Env) {c d : Client} (hrequest : c.request = some r)
    (h : checkHeaders env c = .ok (0, d)) : Announced c r d := by
  have hget : c.getRequest = r := by
    rw [Client.getRequest, hrequest]
    rfl
  unfold checkHeaders at h
  rw [bind_eq_ok_iff] at h
  obtain ⟨⟨res, e⟩, hheaders, hrecord⟩ := h
  change Except.ok (res, e.record (.checked res)) = _ at hrecord
  rw [Except.ok.injEq, Prod.mk.injEq] at hrecord
  obtain ⟨rfl, rfl⟩ := hrecord
  have hentered := handleRequestHeaders_entered env (c := { c with bodyStatus := .none })
    (by
      show c.getRequest.resHints.cgiRedir = .none
      rw [hget]
      exact hread.cgiRedir) hheaders
  have hbody : e.bodyStatus = if bodyLength r > 0 then .ongoing else .none := by
    have hbody := hentered.body
    change e.bodyStatus = if bodyLength c.getRequest > 0 ∨ isChunked c.getRequest = true then _
      else BodyStatus.none at hbody
    rw [hget, hplain] at hbody
    simpa using hbody
  have hresolved : Resolved (hostOf c) (announcedRequest (hostOf c).getMaxSize r) e.getRequest := by
    rw [← hget, ← hostOf_bodyStatus c .none]
    exact hentered.resolved
  by_cases hlength : bodyLength r > 0
  · rw [if_pos hlength] at hbody
    have hle := bodyLength_le r
    cases hresolved with
    | served suffix _ hintact hserved =>
      obtain ⟨type, hints, hserved⟩ := hserved
      refine .measured hlength hintact ⟨hentered.header, hbody, ?_, ?_, ?_, ?_⟩
      · show Receiving e.getRequest
        rw [hserved]
        refine ⟨hread.status, Or.inl hread.b_status, ?_, Or.inr ?_⟩
        · show r.final_status.index ≤ _
          rw [hread.final_status]
          decide
        · show 0 ≤ r.len ∧ r.len < (if bodyLength r > 0 then bodyLength r else _) ∧
            (if bodyLength r > 0 then bodyLength r else _) ≤ INT32_MAX
          rw [if_pos hlength, hread.len]
          exact ⟨Int.le_refl 0, hlength, hle⟩
      · show e.getRequest.chunked = false
        rw [hserved]
        show (isChunked r || r.chunked) = false
        rw [hplain, hread.chunked]
        rfl
      · show e.getRequest.content_length = _
        rw [hserved]
        show (if bodyLength r > 0 then bodyLength r else _) = _
        rw [if_pos hlength]
        omega
      · show e.getRequest.len = _
        rw [hserved]
        exact hread.len
    | broken suffix _ hbroken hserved =>
      obtain ⟨type, hints, hserved⟩ := hserved
      refine .stuck hlength hbroken ⟨hentered.header, hbody, ?_⟩
      show e.getRequest.final_status = .error
      rw [hserved]
  · rw [if_neg hlength] at hbody
    exact .empty (by omega) hentered.header hbody

/-- Reads that bring `n` bytes at once. -/
def readOf (env : Env) (n : ℕ) : EpollEvent :=
  { epollin := true
    incoming := some (List.replicate n 0)
    output := env.served
    env := env
    next := env }

/-- A body is taken for one length only. -/
theorem TakesBody.run (env : Env) {c : Client} {n m : ℕ} (hm : 0 < m) (h : TakesBody c n) :
    ∃ d, (goOn env c >>= fun d => readOn d (readOf env m)) = .ok d ∧
      Framed c n (c.buffer ++ List.replicate m 0) d := by
  obtain ⟨d, hrun, hframed⟩ := h env [readOf env m] [List.replicate m 0] rfl (by
    intro read hread
    rw [List.mem_singleton.mp hread]
    intro hnil
    have hlen := congrArg List.length hnil
    rw [List.length_replicate] at hlen
    exact absurd hlen (by simpa using (by omega : m ≠ 0)))
  refine ⟨d, ?_, by simpa using hframed⟩
  cases hgo : goOn env c with
  | error e =>
    rw [hgo] at hrun
    cases hrun
  | ok e =>
    rw [hgo] at hrun
    change ([readOf env m].foldlM readOn e) = _ at hrun
    rw [List.foldlM_cons] at hrun
    show readOn e (readOf env m) = _
    cases hread : readOn e (readOf env m) with
    | error e' =>
      rw [hread] at hrun
      cases hrun
    | ok e' =>
      rw [hread] at hrun
      exact hrun

theorem TakesBody.unique {c : Client} {n m : ℕ} (h : TakesBody c n) (h' : TakesBody c m)
    (env : Env) : n = m := by
  obtain ⟨d, hrun, hframed⟩ := h.run env (m := n + m + 1) (by omega)
  obtain ⟨d', hrun', hframed'⟩ := h'.run env (m := n + m + 1) (by omega)
  rw [hrun, Except.ok.injEq] at hrun'
  subst hrun'
  have hlen := congrArg List.length (hframed.buffer.symm.trans hframed'.buffer)
  simp only [List.length_drop, List.length_append, List.length_replicate] at hlen
  omega

theorem Stuck.not_takesBody {c : Client} (h : Stuck c) (env : Env) (n : ℕ) : ¬ TakesBody c n := by
  intro htakes
  obtain ⟨d, hrun, hframed⟩ := htakes.run env (m := n + 1) (by omega)
  obtain ⟨e, hgo, he⟩ := goOn_stuck env h
  obtain ⟨e', hread, he'⟩ := @readOn_stuck _ he (readOf env (n + 1)) _ rfl (by simp)
  rw [hgo] at hrun
  change readOn e _ = _ at hrun
  rw [hread, Except.ok.injEq] at hrun
  subst hrun
  have hlt := hframed.body.mp he'.body
  rw [List.length_append, List.length_replicate] at hlt
  omega

theorem Announced.takesBody {c d : Client} {r : Request} (h : Announced c r d)
    (hgood : bodyLength r ≤ 0 ∨ ¬ BrokenDefault (hostOf c) r.uri) :
    TakesBody d (bodyLength r).toNat := by
  refine takesBody_of_goOn fun env => ?_
  cases h with
  | empty hlength hheader hbody =>
    rw [Int.toNat_of_nonpos hlength]
    exact goOn_takes_none env hheader hbody
  | measured _ _ hmeasures => exact goOn_takes env hmeasures
  | stuck hlength hbroken _ =>
    rcases hgood with hempty | hintact
    · omega
    · exact absurd hbroken hintact

/-- An accepted head with a content length frames its body by it exactly when the value is
a numeral that fits an `int` and, for a body that is not empty, no default URI has broken
the request. -/
theorem framed_iff {input rest : Bytes} {r : Request}
    (hparse : Request.parseHeaders {} input = .ok (-1, r, rest)) (env : Env) {c d : Client}
    (hrequest : c.request = some r) (hfield : r.checkHeader (ascii "content-length") = true)
    (hplain : r.checkHeader (ascii "transfer-encoding") = false)
    (haccept : checkHeaders env c = .ok (0, d)) :
    (∃ n, Denotes 10 (r.getHeader (ascii "content-length")) n ∧ TakesBody d n) ↔
      ∃ n : ℕ, Denotes 10 (r.getHeader (ascii "content-length")) n ∧ (n : ℤ) ≤ INT32_MAX ∧
        (n = 0 ∨ ¬ BrokenDefault (hostOf c) r.uri) := by
  have hchunked : isChunked r = false := by
    have hnone : r.headers.find? (ascii "transfer-encoding") = none := by
      rw [← Option.not_isSome_iff_eq_none]
      intro hsome
      rw [Request.checkHeader, hsome] at hplain
      cases hplain
    unfold isChunked Request.getHeader
    rw [hnone]
    decide
  have hannounced := checkHeaders_announced (headRead_of_parse hparse) hchunked env hrequest haccept
  constructor
  · intro ⟨n, hn, htakes⟩
    refine ⟨n, hn, ?_⟩
    cases hannounced with
    | stuck _ _ hstuck => exact absurd htakes (hstuck.not_takesBody env n)
    | empty hlength hheader hbody =>
      have hsame := htakes.unique ((Announced.empty (c := c) hlength hheader hbody).takesBody
        (Or.inl hlength)) env
      obtain rfl : n = 0 := by omega
      exact ⟨by decide, Or.inl rfl⟩
    | measured hlength hintact hmeasures =>
      have hsame := htakes.unique ((Announced.measured hlength hintact hmeasures).takesBody
        (Or.inr hintact)) env
      refine ⟨(bodyLength_eq_iff hfield hn).mp (by omega), Or.inr hintact⟩
  · intro ⟨n, hn, hfits, hgood⟩
    have hlength := (bodyLength_eq_iff hfield hn).mpr hfits
    refine ⟨n, hn, ?_⟩
    have htakes := hannounced.takesBody (by
      rcases hgood with hzero | hintact
      · exact Or.inl (by omega)
      · exact Or.inr hintact)
    rwa [hlength, Int.toNat_natCast] at htakes

/-- A request with a content length, as it is after its head has been read. -/
def lengthHead (value : Bytes) : Bytes :=
  ascii "GET /f HTTP/1.1" ++ CRLF ++ ascii "Host: a" ++ CRLF ++ ascii "Content-Length: " ++ value ++
    CRLF ++ CRLF

/-- A client whose request has just been read. -/
def ready (r : Request) : Client :=
  { Client.newClient plainServer with request := some r, headerStatus := .ready }

/-- What the two following theorems look at in a run on a concrete head. -/
def accepts (value : Bytes) (out : ℤ × Request × Bytes) : Bool :=
  out.1 = -1 ∧ out.2.1.checkHeader (ascii "content-length") = true ∧
    out.2.1.checkHeader (ascii "transfer-encoding") = false ∧
    out.2.1.getHeader (ascii "content-length") = value ∧ out.2.1.uri = ascii "/f" ∧
    (checkHeaders plainEnv (ready out.2.1)).toOption.any fun out => out.1 = 0

theorem accepts_sound {value : Bytes}
    (h : (Request.parseHeaders {} (lengthHead value)).toOption.any (accepts value) = true) :
    ∃ r rest d, Request.parseHeaders {} (lengthHead value) = .ok (-1, r, rest) ∧
      r.checkHeader (ascii "content-length") = true ∧
      r.checkHeader (ascii "transfer-encoding") = false ∧
      r.getHeader (ascii "content-length") = value ∧ r.uri = ascii "/f" ∧
      checkHeaders plainEnv (ready r) = .ok (0, d) := by
  obtain ⟨⟨res, r, rest⟩, hparse, hout⟩ := exists_of_any h
  obtain ⟨hres, hfield, hplain, hvalue, huri, haccept⟩ := of_decide_eq_true hout
  obtain ⟨⟨code, d⟩, hcheck, hcode⟩ := exists_of_any haccept
  have hzero : code = 0 := of_decide_eq_true hcode
  dsimp only at hres
  subst hres hzero
  exact ⟨r, rest, d, hparse, hfield, hplain, hvalue, huri, hcheck⟩

/-- The target of the head names no directory. -/
theorem file_intact (host : Host) : ¬ BrokenDefault host (ascii "/f") := by
  intro ⟨p, suffix, hp, ⟨hextension, _⟩, _⟩
  have hfile : (Request.parseURI { uri := ascii "/f" }).toOption.any
      (fun out => decide (out.2.resHints.parsedUri.extension ≠ ascii "/")) = true := by
    decide +kernel
  rw [hp] at hfile
  exact of_decide_eq_true hfile hextension

theorem five_bytes_framed :
    ∃ r rest d, Request.parseHeaders {} (lengthHead (ascii "5")) = .ok (-1, r, rest) ∧
      checkHeaders plainEnv (ready r) = .ok (0, d) ∧
      ∃ n, Denotes 10 (r.getHeader (ascii "content-length")) n ∧ TakesBody d n := by
  have hrun : (Request.parseHeaders {} (lengthHead (ascii "5"))).toOption.any
      (accepts (ascii "5")) = true := by decide +kernel
  obtain ⟨r, rest, d, hparse, hfield, hplain, hvalue, huri, haccept⟩ := accepts_sound hrun
  refine ⟨r, rest, d, hparse, haccept, ?_⟩
  refine (framed_iff hparse plainEnv rfl hfield hplain haccept).mpr ⟨5, ?_, by decide, Or.inr ?_⟩
  · rw [hvalue]
    decide +kernel
  · rw [huri]
    exact file_intact _

/-- A content length that is no number is accepted. -/
theorem not_all_lengths_framed :
    ¬ ∀ (input rest : Bytes) (r : Request) (env : Env) (c d : Client),
      Request.parseHeaders {} input = .ok (-1, r, rest) → c.request = some r →
      r.checkHeader (ascii "content-length") = true →
      r.checkHeader (ascii "transfer-encoding") = false → checkHeaders env c = .ok (0, d) →
        ∃ n, Denotes 10 (r.getHeader (ascii "content-length")) n ∧ TakesBody d n := by
  intro h
  have hrun : (Request.parseHeaders {} (lengthHead (ascii "abc"))).toOption.any
      (accepts (ascii "abc")) = true := by decide +kernel
  obtain ⟨r, rest, d, hparse, hfield, hplain, hvalue, huri, haccept⟩ := accepts_sound hrun
  obtain ⟨n, ⟨-, hdigits, -⟩, -⟩ := h _ _ r plainEnv (ready r) d hparse rfl hfield hplain haccept
  rw [hvalue] at hdigits
  have hdigit := hdigits 97 (by decide)
  cases hdigit

end Webserveau.ContentLength
