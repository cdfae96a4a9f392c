import Mathlib
import Webserveau.EventLoop

/-!
Writes that take less than they are offered.
The front buffer is dropped from the queue after every write, however much of it was
taken. The connection gets the whole queue exactly when every write takes the whole of
its buffer.
-/
namespace Webserveau.ShortWrites

open ByteStrings OrderedMaps Formats Requests Clients EventLoop

/-- The bytes that were taken by the connection. -/
def sentBytes (trace : List Action) : Bytes :=
  trace.flatMap fun action =>
    match action with
    | .sent bytes => bytes
    | _ => []

/-- The bytes taken on the way from a client to a later state of it. -/
def accepted (c d : Client) : Bytes := sentBytes (d.trace.drop c.trace.length)

/-- The calls of `handleClientOut` in which `write` gives these results. -/
def calls (c : Client) (results : List ℕ) : Situation × Client :=
  results.foldl (fun out (n : ℕ) => handleClientOut (fun _ => (n : ℤ)) out.2) (.pending, c)

/-- After every call a front part of the queue has been taken, and all of it when the call
reports the end of the response. -/
def Lossless (c : Client) (results : List ℕ) : Prop :=
  ∀ k, accepted c (calls c (results.take k)).2 <+: c.outBuffers.flatten ∧
    ((calls c (results.take k)).1 ≠ .pending →
      accepted c (calls c (results.take k)).2 = c.outBuffers.flatten)

/-- What is taken of the buffers. -/
def takenBytes (results : List ℕ) (buffers : List Bytes) : Bytes :=
  (List.zipWith (fun n buffer => buffer.take n) results buffers).flatten

theorem afterWrite_same (c : Client) :
    (afterWrite c).2.trace = c.trace ∧ (afterWrite c).2.outBuffers = c.outBuffers ∧
      ((afterWrite c).1 = .pending ↔ c.outBuffers ≠ []) := by
  unfold afterWrite
  split
  · rename_i hmore
    exact ⟨rfl, rfl, iff_of_true rfl hmore⟩
  · rename_i hend
    split
    · exact ⟨rfl, rfl, iff_of_false Situation.noConfusion hend⟩
    · split
      · exact ⟨rfl, rfl, iff_of_false Situation.noConfusion hend⟩
      · exact ⟨rfl, rfl, iff_of_false Situation.noConfusion hend⟩

/-- One call on a queue that is not empty. -/
theorem handleClientOut_front {c : Client} {front : Bytes} {rest : List Bytes}
    (h : c.outBuffers = front :: rest) (n : ℕ) :
    (handleClientOut (fun _ => n) c).2.trace = c.trace ++ [.sent (front.take n)] ∧
      (handleClientOut (fun _ => n) c).2.outBuffers = rest ∧
      ((handleClientOut (fun _ => n) c).1 = .pending ↔ rest ≠ []) := by
  have hwrite : writeBuffer (fun _ => (n : ℤ)) c =
      some ({ c with outBuffers := rest }.record (.sent (front.take n))) := by
    unfold writeBuffer
    rw [h]
    dsimp only
    rw [if_neg (by omega), Int.toNat_natCast]
  unfold handleClientOut
  rw [hwrite]
  exact afterWrite_same _

theorem sentBytes_append (front back : List Action) :
    sentBytes (front ++ back) = sentBytes front ++ sentBytes back := List.flatMap_append

theorem takenBytes_concat {results : List ℕ} {buffers : List Bytes} {buffer : Bytes}
    {rest : List Bytes} (h : buffers.drop results.length = buffer :: rest) (n : ℕ) :
    takenBytes (results ++ [n]) buffers = takenBytes results buffers ++ buffer.take n := by
  induction results generalizing buffers with
  | nil =>
    have hbuffers : buffers = buffer :: rest := h
    rw [hbuffers]
    exact List.append_nil (buffer.take n)
  | cons m results ih =>
    cases buffers with
    | nil => cases h
    | cons first buffers =>
      show first.take m ++ takenBytes (results ++ [n]) buffers = _
      rw [ih h, ← List.append_assoc]
      rfl

/-- The calls up to the last buffer. -/
theorem calls_taken (c : Client) (results : List ℕ) (h : results.length ≤ c.outBuffers.length) :
    (∃ actions, (calls c results).2.trace = c.trace ++ actions ∧
      sentBytes actions = takenBytes results c.outBuffers) ∧
      (calls c results).2.outBuffers = c.outBuffers.drop results.length ∧
      ((calls c results).1 ≠ .pending ↔
        results ≠ [] ∧ results.length = c.outBuffers.length) := by
  induction results using List.reverseRecOn with
  | nil =>
    refine ⟨⟨[], (List.append_nil _).symm, rfl⟩, rfl, ?_⟩
    exact iff_of_false (not_not_intro rfl) fun h => h.1 rfl
  | append_singleton results n ih =>
    rw [List.length_append, List.length_singleton] at h
    obtain ⟨⟨actions, htrace, hsent⟩, hqueue, -⟩ := ih (by omega)
    obtain ⟨front, rest, hdrop⟩ : ∃ front rest,
        c.outBuffers.drop results.length = front :: rest := by
      refine List.exists_cons_of_ne_nil ?_
      rw [Ne, List.drop_eq_nil_iff]
      omega
    have hcall : calls c (results ++ [n]) =
        handleClientOut (fun _ => n) (calls c results).2 := by
      unfold calls
      rw [List.foldl_concat]
    obtain ⟨htrace', hqueue', hpending⟩ := handleClientOut_front (hqueue.trans hdrop) n
    have hrest : rest = c.outBuffers.drop (results.length + 1) := by
      rw [← List.drop_drop, hdrop]
      rfl
    rw [hcall, List.length_append, List.length_singleton]
    refine ⟨⟨actions ++ [.sent (front.take n)], ?_, ?_⟩, hqueue'.trans hrest, ?_⟩
    · rw [htrace', htrace, List.append_assoc]
    · rw [sentBytes_append, hsent, takenBytes_concat hdrop]
      show _ ++ (front.take n ++ []) = _
      rw [List.append_nil]
    · rw [Ne, hpending, not_not, hrest, List.drop_eq_nil_iff]
      constructor
      · intro hlong
        exact ⟨by simp, by omega⟩
      · intro hboth
        omega

theorem accepted_calls (c : Client) (results : List ℕ)
    (h : results.length ≤ c.outBuffers.length) :
    accepted c (calls c results).2 = takenBytes results c.outBuffers := by
  obtain ⟨⟨actions, htrace, hsent⟩, -⟩ := calls_taken c results h
  unfold accepted
  rw [htrace, List.drop_left, hsent]

/-- What is taken of the buffers is no longer than they are, and as long only when each of
them is taken whole. -/
theorem takenBytes_length {results : List ℕ} {buffers : List Bytes}
    (h : List.Forall₂ (fun n (buffer : Bytes) => n ≤ buffer.length) results buffers) :
    (takenBytes results buffers).length ≤ buffers.flatten.length ∧
      ((takenBytes results buffers).length = buffers.flatten.length →
        results = buffers.map List.length) := by
  induction h with
  | nil => exact ⟨Nat.le_refl 0, fun _ => rfl⟩
  | @cons n buffer results buffers hle _ ih =>
    obtain ⟨hshort, hwhole⟩ := ih
    have hlen : (takenBytes (n :: results) (buffer :: buffers)).length =
        n + (takenBytes results buffers).length := by
      show (buffer.take n ++ takenBytes results buffers).length = _
      rw [List.length_append, List.length_take, Nat.min_eq_left hle]
    rw [hlen, List.flatten_cons, List.length_append]
    refine ⟨by omega, ?_⟩
    intro heq
    rw [List.map_cons, hwhole (by omega), show n = buffer.length by omega]

theorem takenBytes_whole (buffers : List Bytes) (k : ℕ) :
    takenBytes ((buffers.map List.length).take k) buffers = (buffers.take k).flatten := by
  induction buffers generalizing k with
  | nil =>
    unfold takenBytes
    rw [List.zipWith_nil_right, List.take_nil]
  | cons buffer buffers ih =>
    cases k with
    | zero => rfl
    | succ k =>
      show buffer.take buffer.length ++ takenBytes ((buffers.map List.length).take k) buffers = _
      rw [ih, List.take_length]
      rfl

/-- The connection gets the bytes of a queue, each call after the other, exactly when every
`write` takes all that it is offered. -/
theorem lossless_iff (c : Client) {results : List ℕ}
    (h : List.Forall₂ (fun n (buffer : Bytes) => n ≤ buffer.length) results c.outBuffers) :
    Lossless c results ↔ results = c.outBuffers.map List.length := by
  have hlength := h.length_eq
  have htake : ∀ k, (results.take k).length ≤ c.outBuffers.length := by
    intro k
    rw [← hlength]
    exact List.length_take_le' ..
  constructor
  · intro hlossless
    by_cases hnil : results = []
    · rw [hnil, List.length_nil] at hlength
      rw [hnil, List.eq_nil_of_length_eq_zero hlength.symm]
      rfl
    · have hend := (hlossless results.length).2
      rw [List.take_length] at hend
      have hwhole := hend ((calls_taken c results hlength.le).2.2.mpr ⟨hnil, hlength⟩)
      rw [accepted_calls c results hlength.le] at hwhole
      exact (takenBytes_length h).2 (congrArg List.length hwhole)
  · intro hwhole k
    have hsome : accepted c (calls c (results.take k)).2 = (c.outBuffers.take k).flatten := by
      rw [accepted_calls c _ (htake k), hwhole]
      exact takenBytes_whole c.outBuffers k
    rw [hsome]
    constructor
    · refine ⟨(c.outBuffers.drop k).flatten, ?_⟩
      rw [← List.flatten_append, List.take_append_drop]
    · intro hdone
      have hall := ((calls_taken c _ (htake k)).2.2.mp hdone).2
      rw [List.length_take, hlength] at hall
      rw [List.take_of_length_le (by omega)]

/-- A client with two buffers to be written. -/
def twoBuffers : Client :=
  { Client.newClient { hostMap := OrderedMap.empty.insert [] {}, inhabited := by decide } with
    outBuffers := [ascii "ab", ascii "c"] }

theorem two_whole_writes : Lossless twoBuffers [2, 1] :=
  (lossless_iff twoBuffers (.cons (Nat.le_refl 2) (.cons (Nat.le_refl 1) .nil))).mpr rfl

/-- After a write of one byte of two, the second byte is never written. -/
theorem not_all_writes_lossless :
    ¬ ∀ (c : Client) (results : List ℕ),
      List.Forall₂ (fun n (buffer : Bytes) => n ≤ buffer.length) results c.outBuffers →
        Lossless c results := by
  intro h
  have hlossless := h twoBuffers [1, 1] (.cons (by decide : 1 ≤ 2) (.cons (Nat.le_refl 1) .nil))
  have hprefix := (hlossless 2).1
  have hlost : accepted twoBuffers (calls twoBuffers [1, 1]).2 = ascii "ac" := by decide +kernel
  rw [show [1, 1].take 2 = [1, 1] from rfl, hlost] at hprefix
  exact absurd hprefix (by decide)

end Webserveau.ShortWrites
