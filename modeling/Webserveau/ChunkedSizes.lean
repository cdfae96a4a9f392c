import Webserveau.TrailerSections
import Webserveau.LoopSteps

/-!
The size of a chunked body, as the parser counts it.
The counter is compared with the limit at the ends of reads inside the body, and read once
more when the body is done. Both the verdict and the count are functions of where the
reads end.
-/
namespace Webserveau.ChunkedSizes

open ByteStrings OrderedMaps Formats Requests Clients Segmentation BodySegmentation
open ChunkedDecoding ChunkedMessages TrailerSections

/-- The numbers of bytes read at the ends of reads, from `n` bytes on. -/
def ends : ℕ → List Bytes → List ℕ
  | _, [] => []
  | n, read :: reads => (n + read.length) :: ends (n + read.length) reads

theorem ends_append (n : ℕ) (before after : List Bytes) :
    ends n (before ++ after) = ends n before ++ ends (n + before.flatten.length) after := by
  induction before generalizing n with
  | nil => simp [ends]
  | cons read before ih =>
    simp only [List.cons_append, ends, ih, List.flatten_cons, List.length_append, Nat.add_assoc]

theorem ends_split {n k : ℕ} {reads : List Bytes} {front back : List ℕ}
    (h : ends n reads = front ++ k :: back) :
    ∃ before read after, reads = before ++ read :: after ∧ ends n before = front ∧
      k = n + (before ++ [read]).flatten.length := by
  induction reads generalizing n front with
  | nil => simp [ends] at h
  | cons read reads ih =>
    cases front with
    | nil =>
      simp only [ends, List.nil_append, List.cons.injEq] at h
      exact ⟨[], read, reads, rfl, rfl, by simp [h.1]⟩
    | cons m front =>
      simp only [ends, List.cons_append, List.cons.injEq] at h
      obtain ⟨before, read', after, rfl, hfront, hk⟩ := ih h.2
      refine ⟨read :: before, read', after, rfl, ?_, ?_⟩
      · rw [ends, hfront, h.1]
      · rw [hk]
        simp only [List.cons_append, List.flatten_cons, List.length_append]
        omega

/-- The answer when `n` bytes have been read, inside a body or behind its end. -/
def codeAt (b : ChunkedBody) (limit : ℤ) (n : ℕ) : ℤ :=
  if n < b.bytes.length then answer limit b.chunks n n else -1

/-- Where the reads first end with an answer: the body is complete, or is refused. -/
def stop (b : ChunkedBody) (limit : ℤ) (reads : List Bytes) : Option ℕ :=
  (ends 0 reads).find? fun n => codeAt b limit n ≠ 0

/-- The calls for some reads of a cut end with an answer. -/
def Stops (r : Request) (stream : Option BodyStream) (reads : List Bytes) (code : ℤ) (out : Body) :
    Prop :=
  code ≠ 0 ∧ ∃ before after rest, reads = before ++ after ∧ EndsWith r stream before code out rest

section Runs

variable {r : Request} {b : ChunkedBody} {stream : Option BodyStream} {tail : Bytes}

theorem parseInput_codeAt (h : BeforeBody r) {x : Bytes} (hx : x <+: b.bytes ++ tail)
    (hne : x ≠ []) :
    ∃ out rest, Request.parseInput (r, stream) x =
        .ok (codeAt b r.body_max_size x.length, out, rest) ∧
      (b.bytes.length ≤ x.length →
        out.1 = behind (growBody (entered r) x.length) (framing b.last b.chunks)) := by
  unfold codeAt
  by_cases hshort : x.length < b.bytes.length
  · have hprefix := List.prefix_of_prefix_length_le hx (List.prefix_append _ _) (by omega)
    have hproper : x ≠ b.bytes := by
      rintro rfl
      omega
    obtain ⟨out, rest, hcall⟩ := parseInput_front b stream h hprefix hproper hne
    rw [if_pos hshort]
    exact ⟨out, rest, hcall, fun hlong => absurd hshort (by omega)⟩
  · have hprefix : b.bytes <+: x :=
      List.prefix_of_prefix_length_le (List.prefix_append _ _) hx (by omega)
    obtain ⟨t, rfl⟩ := hprefix
    rw [if_neg hshort]
    exact ⟨_, _, parseInput_whole b stream h t, fun _ => rfl⟩

/-- All calls ask for more exactly when no read ends with an answer. -/
theorem zeros_iff (h : BeforeBody r) (before : List Bytes) (hne : ∀ read ∈ before, read ≠ [])
    (hfront : before.flatten <+: b.bytes ++ tail) :
    (∃ s left, callAll Request.parseInput (r, stream) [] before =
      .ok (List.replicate before.length 0, s, left)) ↔
      ∀ n ∈ ends 0 before, codeAt b r.body_max_size n = 0 := by
  induction before using List.reverseRecOn with
  | nil => simp [ends, callAll]
  | append_singleton before read ih =>
    have hprefix : before.flatten <+: b.bytes ++ tail := by
      refine List.IsPrefix.trans ?_ hfront
      rw [List.flatten_append]
      exact List.prefix_append _ _
    have hread := hne read (by simp)
    have hnonempty : (before ++ [read]).flatten ≠ [] := by simp [hread]
    obtain ⟨out, rest, hcall, -⟩ := @parseInput_codeAt _ _ stream _ h _ hfront hnonempty
    have hreplicate : List.replicate (before ++ [read]).length (0 : ℤ) =
        List.replicate ((before ++ [read]).length - 1) 0 ++ [0] := by
      simp [List.replicate_succ']
    have hends : ends 0 (before ++ [read]) =
        ends 0 before ++ [(before ++ [read]).flatten.length] := by
      rw [ends_append]
      simp [ends]
    have hstep : (∃ s left, callAll Request.parseInput (r, stream) [] (before ++ [read]) =
        .ok (List.replicate (before ++ [read]).length 0, s, left)) ↔
        (∃ s left, callAll Request.parseInput (r, stream) [] before =
          .ok (List.replicate before.length 0, s, left)) ∧
        codeAt b r.body_max_size (before ++ [read]).flatten.length = 0 := by
      rw [hreplicate]
      constructor
      · intro h'
        obtain ⟨s, left, hrun⟩ := h'
        obtain ⟨hbefore, hlast⟩ := (endsWith_iff stream h before read 0 s left).mp hrun
        rw [hcall, Except.ok.injEq, Prod.mk.injEq] at hlast
        exact ⟨hbefore, hlast.1⟩
      · intro h'
        obtain ⟨hbefore, hlast⟩ := h'
        rw [hlast] at hcall
        exact ⟨out, rest, (endsWith_iff stream h before read 0 out rest).mpr ⟨hbefore, hcall⟩⟩
    rw [hstep, ih (fun read' hmem => hne read' (List.mem_append_left _ hmem)) hprefix, hends]
    simp only [List.mem_append, List.mem_singleton, or_imp, forall_and, forall_eq]

/-- Calls that end do so where the reads first end with an answer, and with that answer. -/
theorem stops_stop (h : BeforeBody r) {reads : List Bytes} (hne : ∀ read ∈ reads, read ≠ [])
    (hstream : reads.flatten = b.bytes ++ tail) {code : ℤ} {out : Body}
    (hstops : Stops r stream reads code out) :
    ∃ n, stop b r.body_max_size reads = some n ∧ codeAt b r.body_max_size n = code ∧
      (b.bytes.length ≤ n → out.1 = behind (growBody (entered r) n) (framing b.last b.chunks)) := by
  obtain ⟨hcode, front, after, rest, rfl, hrun⟩ := hstops
  have hfront : front ≠ [] := by
    rintro rfl
    simp [EndsWith, callAll] at hrun
  obtain ⟨before, read, rfl⟩ : ∃ before read, front = before ++ [read] :=
    ⟨_, _, (List.dropLast_append_getLast hfront).symm⟩
  obtain ⟨hzeros, hlast⟩ := (endsWith_iff stream h before read code out rest).mp hrun
  have hlong : (before ++ [read]).flatten <+: b.bytes ++ tail :=
    ⟨after.flatten, by rw [← hstream]; simp⟩
  have hshort : before.flatten <+: b.bytes ++ tail := by
    refine List.IsPrefix.trans ?_ hlong
    rw [List.flatten_append]
    exact List.prefix_append _ _
  have hread : read ≠ [] := hne read (by simp)
  obtain ⟨out', rest', hcall, hbehind⟩ :=
    @parseInput_codeAt _ _ stream _ h _ hlong (by simp [hread])
  rw [hlast, Except.ok.injEq, Prod.mk.injEq, Prod.mk.injEq] at hcall
  obtain ⟨hcodeAt, rfl, -⟩ := hcall
  refine ⟨(before ++ [read]).flatten.length, ?_, hcodeAt.symm, hbehind⟩
  rw [stop, List.find?_eq_some_iff_append]
  refine ⟨by rw [decide_eq_true_eq, ← hcodeAt]; exact hcode, ends 0 before,
    ends (0 + (before ++ [read]).flatten.length) after, ?_, ?_⟩
  · have hsplit : before ++ [read] ++ after = before ++ (read :: after) := by simp
    rw [hsplit, ends_append, ends]
    simp
  · intro n hn
    have hzero := (@zeros_iff _ _ stream _ h before
      (fun read' hmem => hne read' (by simp [hmem])) hshort).mp ⟨_, _, hzeros.choose_spec.choose_spec⟩
    simp [hzero n hn]

/-- Where the reads first end with an answer the calls end. -/
theorem stop_stops (h : BeforeBody r) {reads : List Bytes} (hne : ∀ read ∈ reads, read ≠ [])
    (hstream : reads.flatten = b.bytes ++ tail) {n : ℕ}
    (hstop : stop b r.body_max_size reads = some n) :
    ∃ out, Stops r stream reads (codeAt b r.body_max_size n) out ∧
      (b.bytes.length ≤ n → out.1 = behind (growBody (entered r) n) (framing b.last b.chunks)) := by
  rw [stop, List.find?_eq_some_iff_append] at hstop
  obtain ⟨hcode, front, back, hends, hearlier⟩ := hstop
  obtain ⟨before, read, after, rfl, hbefore, hn⟩ := ends_split hends
  rw [Nat.zero_add] at hn
  have hflat : (before ++ [read]).flatten ++ after.flatten = b.bytes ++ tail := by
    rw [← hstream]
    simp
  have hlong : (before ++ [read]).flatten <+: b.bytes ++ tail := ⟨after.flatten, hflat⟩
  have hshort : before.flatten <+: b.bytes ++ tail := by
    refine List.IsPrefix.trans ?_ hlong
    rw [List.flatten_append]
    exact List.prefix_append _ _
  have hread : read ≠ [] := hne read (by simp)
  obtain ⟨out, rest, hcall, hbehind⟩ :=
    @parseInput_codeAt _ _ stream _ h _ hlong (by simp [hread])
  rw [← hn] at hcall hbehind
  have hzeros := (@zeros_iff _ _ stream _ h before
    (fun read' hmem => hne read' (by simp [hmem])) hshort).mpr (by
      intro k hk
      rw [hbefore] at hk
      simpa using hearlier k hk)
  refine ⟨out, ⟨by simpa using hcode, before ++ [read], after, rest, by simp, ?_⟩, hbehind⟩
  exact (endsWith_iff stream h before read _ out rest).mpr ⟨hzeros, hcall⟩

end Runs

theorem length_wire (last : Bytes) (cs : List Chunk) :
    (wire last cs).length = framing last cs + (payload cs).length + 2 * cs.length := by
  induction cs with
  | nil => simp [wire, framing, payload]
  | cons c cs ih =>
    have hsplit : (payload (c :: cs)).length = c.data.length + (payload cs).length := by
      simp [payload]
    rw [wire, List.length_append, ih, length_bytes, hsplit, List.length_cons]
    simp only [framing, List.map_cons, List.sum_cons]
    omega

/-- A request that stores its body in a file, with the status its file was found with. -/
structure Upload (r : Request) : Prop where
  static : r.type = .static
  method : r.method = some .POST ∨ r.method = some .PUT
  status : r.resHints.status = RES_OK ∨ r.resHints.status = RES_CREATED

/-- The verdict on a body of `p` bytes: it is refused when it is too large, and taken as
empty when it is. -/
structure RightlySized (c : Client) (r : Request) (stream : Option BodyStream)
    (reads : List Bytes) (p : ℕ) : Prop where
  refused : (∃ out, Stops r stream reads 413 out) ↔ r.body_max_size < p
  emptied : ∀ out, Stops r stream reads (-1) out →
    ((EventLoop.handleRequestBodyDone (c.setRequest out.1)).1 = RES_NO_CONTENT ↔ p = 0)

theorem handleRequestBodyDone_upload (c : Client) {r : Request} (hr : Upload r) :
    (EventLoop.handleRequestBodyDone (c.setRequest r)).1 = RES_NO_CONTENT ↔
      ¬ r.getBodySize > 0 := by
  have hget : (c.setRequest r).getRequest = r := rfl
  have hstatus : r.resHints.status ≠ RES_NO_CONTENT := by
    rcases hr.status with h | h
    · rw [h]
      decide
    · rw [h]
      decide
  unfold EventLoop.handleRequestBodyDone
  simp only [hget]
  rw [if_pos ⟨hr.static, hr.method⟩]
  by_cases hsize : r.getBodySize > 0
  · simp [hsize, hstatus]
  · simp [hsize]

section Verdict

variable {c : Client} {r : Request} {b : ChunkedBody} {stream : Option BodyStream} {tail : Bytes}

/-- The count that is left behind a body is that of its payload, its chunks and the bytes
read behind it. -/
theorem getBodySize_behind (h : BeforeBody r) {n : ℕ} (hn : b.bytes.length ≤ n) :
    (behind (growBody (entered r) n) (framing b.last b.chunks)).getBodySize =
      toInt (b.payload.length + 2 * b.chunks.length + (n - b.bytes.length : ℕ)) := by
  have hlen : b.bytes.length = framing b.last b.chunks + b.payload.length + 2 * b.chunks.length :=
    length_wire b.last b.chunks
  have hchunked : (behind (growBody (entered r) n) (framing b.last b.chunks)).chunked = true :=
    h.chunked
  have hsize : (behind (growBody (entered r) n) (framing b.last b.chunks)).chunked_body_size =
      toInt (toInt (0 + n) - framing b.last b.chunks) := by
    simp only [behind, growBody, entered, h.counter]
  have hcount : (0 : ℤ) + n - framing b.last b.chunks =
      b.payload.length + 2 * b.chunks.length + (n - b.bytes.length : ℕ) := by omega
  rw [Request.getBodySize, if_pos hchunked, hsize, toInt_sub_toInt, hcount]

/-- The verdict is right for a cut of the stream exactly when the reads stop inside the body
with too many bytes counted just for bodies that are too large, and when no count is left
behind the body just for empty ones. -/
theorem rightlySized_iff (h : BeforeBody r) (hupload : Upload r) {reads : List Bytes}
    (hne : ∀ read ∈ reads, read ≠ []) (hstream : reads.flatten = b.bytes ++ tail) :
    RightlySized c r stream reads b.payload.length ↔
      ((∃ n, stop b r.body_max_size reads = some n ∧ codeAt b r.body_max_size n = 413) ↔
        r.body_max_size < b.payload.length) ∧
      ∀ n, stop b r.body_max_size reads = some n → b.bytes.length ≤ n →
        (0 < toInt (b.payload.length + 2 * b.chunks.length + (n - b.bytes.length : ℕ)) ↔
          0 < b.payload.length) := by
  have hrefused : (∃ out, Stops r stream reads 413 out) ↔
      ∃ n, stop b r.body_max_size reads = some n ∧ codeAt b r.body_max_size n = 413 := by
    constructor
    · intro ⟨out, hstops⟩
      obtain ⟨n, hstop, hcode, -⟩ := stops_stop h hne hstream hstops
      exact ⟨n, hstop, hcode⟩
    · intro ⟨n, hstop, hcode⟩
      obtain ⟨out, hstops, -⟩ := @stop_stops _ _ stream _ h _ hne hstream _ hstop
      rw [hcode] at hstops
      exact ⟨out, hstops⟩
  have hdone : ∀ n, b.bytes.length ≤ n →
      ((EventLoop.handleRequestBodyDone (c.setRequest
          (behind (growBody (entered r) n) (framing b.last b.chunks)))).1 = RES_NO_CONTENT ↔
        ¬ 0 < toInt (b.payload.length + 2 * b.chunks.length + (n - b.bytes.length : ℕ))) := by
    intro n hn
    rw [← getBodySize_behind h hn]
    exact handleRequestBodyDone_upload c ⟨hupload.static, hupload.method, hupload.status⟩
  constructor
  · intro hright
    refine ⟨hrefused.symm.trans hright.refused, ?_⟩
    intro n hstop hn
    obtain ⟨out, hstops, hbehind⟩ := @stop_stops _ _ stream _ h _ hne hstream _ hstop
    have hcode : codeAt b r.body_max_size n = -1 := if_neg (by omega)
    rw [hcode] at hstops
    have hempty := hright.emptied out hstops
    rw [hbehind hn, hdone n hn] at hempty
    rw [← not_iff_not, hempty]
    omega
  · intro ⟨hcut, hcount⟩
    refine ⟨hrefused.trans hcut, ?_⟩
    intro out hstops
    obtain ⟨n, hstop, hcode, hbehind⟩ := stops_stop h hne hstream hstops
    have hn : b.bytes.length ≤ n := by
      by_contra hshort
      rw [codeAt, if_pos (by omega)] at hcode
      exact answer_ne _ _ _ _ hcode
    rw [hbehind hn, hdone n hn, hcount n hstop hn]
    omega

end Verdict

theorem five_size : SizeLine (ascii "5") (ascii "hello").length := ⟨by decide, by decide⟩

theorem hello_nonempty : ascii "hello" ≠ [] := by decide

theorem hello_unbroken : ¬ [13, 10] <:+: ascii "hello" := by decide

theorem last_size : SizeLine (ascii "0") 0 := ⟨by decide, by decide⟩

/-- The body with the single chunk `hello`. -/
def helloBody : ChunkedBody where
  chunks := [{
    line := ascii "5"
    data := ascii "hello"
    size := five_size
    nonempty := hello_nonempty
    unbroken := hello_unbroken }]
  last := ascii "0"
  zero := last_size

/-- A new file of at most five bytes. -/
def fiveBytes : Request :=
  { status := .term, chunked := true, body_max_size := 5, type := .static, method := some .PUT,
    resHints := { status := RES_CREATED } }

theorem fiveBytes_beforeBody : BeforeBody fiveBytes :=
  ⟨rfl, rfl, by decide, rfl, rfl, rfl, rfl⟩

theorem fiveBytes_upload : Upload fiveBytes := ⟨rfl, Or.inr rfl, Or.inr rfl⟩

/-- In one read the body is within its limit. -/
theorem hello_rightlySized :
    RightlySized (.newClient LoopSteps.plainServer) fiveBytes none [helloBody.bytes] 5 := by
  have hstream : [helloBody.bytes].flatten = helloBody.bytes ++ [] := by simp
  refine (rightlySized_iff fiveBytes_beforeBody fiveBytes_upload (by decide) hstream).mpr ?_
  have hstop : stop helloBody fiveBytes.body_max_size [helloBody.bytes] = some 13 := by decide
  rw [hstop]
  constructor
  · constructor
    · intro ⟨n, hn, hcode⟩
      cases hn
      revert hcode
      decide
    · decide
  · intro n hn _
    cases hn
    decide

/-- Cut behind the chunk, the same body is refused: the counter has seven bytes then. -/
theorem hello_refused :
    ¬ RightlySized (.newClient LoopSteps.plainServer) fiveBytes none
      [ascii "5\r\nhello\r\n", ascii "0\r\n"] helloBody.payload.length := by
  intro hright
  have hstream : [ascii "5\r\nhello\r\n", ascii "0\r\n"].flatten = helloBody.bytes ++ [] := by
    decide
  have hstop : stop helloBody fiveBytes.body_max_size
      [ascii "5\r\nhello\r\n", ascii "0\r\n"] = some 10 := by decide
  obtain ⟨out, hstops, -⟩ := stop_stops fiveBytes_beforeBody (by decide) hstream hstop
  have hcode : codeAt helloBody fiveBytes.body_max_size 10 = 413 := by decide
  rw [hcode] at hstops
  have hlarge := hright.refused.mp ⟨out, hstops⟩
  revert hlarge
  decide

end Webserveau.ChunkedSizes
