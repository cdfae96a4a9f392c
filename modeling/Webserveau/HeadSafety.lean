import Webserveau.HeadSegmentation

/-!
When reading a request head raises an exception.
The only position that can lie past the end of its string is the one after the target
of a request line. It does exactly when the line has a known method and no blank behind
its target; every other call answers 0, -1 or an error status.
-/
namespace Webserveau.HeadSafety

open ByteStrings OrderedMaps Formats Requests Segmentation HeadSegmentation

/-- The request line that a call with this buffer completes. -/
def completedLine (r : Request) (buffer : Bytes) : Option Bytes :=
  match r.status with
  | .rline => (cutAt 13 10 (r.line ++ buffer)).map Prod.fst
  | .new =>
    match buffer.dropWhile fun c => !isalpha c with
    | [] => none
    | c :: rest => (cutAt 13 10 (r.line ++ c :: rest)).map Prod.fst
  | _ => none

/-- A request line of admissible length with a known method that ends with its target. -/
def ShortLine (line : Bytes) : Prop :=
  line.length ≤ BUFFER_SIZE ∧ getMethodIndex (methodWord line) ≠ none ∧ EndsAtTarget line

/-- The call completes such a line. -/
def CutsShort (r : Request) (buffer : Bytes) : Prop :=
  ∃ line, completedLine r buffer = some line ∧ ShortLine line

theorem parseRequestLine_error_iff (r : Request) :
    r.parseRequestLine = .error .position ↔
      getMethodIndex (methodWord r.line) ≠ none ∧ EndsAtTarget r.line := by
  have hend : EndsAtTarget r.line ↔ ((targetPart r.line).dropWhile fun c => !isBlank c) = [] := by
    simp [EndsAtTarget, List.dropWhile_eq_nil_iff]
  rw [Request.parseRequestLine_eq, hend]
  by_cases hm : getMethodIndex (methodWord r.line) = none
  · simp [hm]
  · simp only [hm, if_false, ne_eq, not_false_eq_true, true_and]
    cases (targetPart r.line).dropWhile fun c => !isBlank c with
    | nil => simp
    | cons c version =>
      simp only [reduceCtorEq, iff_false]
      split <;> simp

/-- More input wanted, head complete, or an error status. -/
def Answer (res : ℤ) : Prop := res = 0 ∨ res = -1 ∨ 400 ≤ res

theorem checkSizes_answer (r : Request) : Answer r.checkSizes.1 := by
  rcases checkSizes_cases r with hpass | ⟨error, verbose, hcode, hfail⟩
  · exact Or.inl (by rw [hpass])
  · exact Or.inr (Or.inr (by rw [hfail]; exact hcode))

/-- The loop over header lines always returns. -/
theorem headerLoop_answer (r : Request) (buffer : Bytes) :
    ∃ res r' rest, r.headerLoop buffer = .ok (res, r', rest) ∧ Answer res := by
  induction hn : r.line.length + buffer.length using Nat.strong_induction_on
    generalizing r buffer with
  | h n ih =>
    rw [Request.headerLoop_eq]
    split
    · exact ⟨_, _, _, rfl, checkSizes_answer _⟩
    · cases hcut : cutAt 13 10 (r.line ++ buffer) with
      | none => exact ⟨_, _, _, rfl, checkSizes_answer _⟩
      | some cut =>
        obtain ⟨line, rest⟩ := cut
        have hlen := cutAt_length hcut
        rw [List.length_append] at hlen
        simp only
        split
        · exact ⟨_, _, _, rfl, Or.inr (Or.inl rfl)⟩
        · split
          · exact ⟨_, _, _, rfl, Or.inr (Or.inr (by omega))⟩
          · split
            · exact ⟨_, _, _, rfl, Or.inr (Or.inr (by omega))⟩
            · exact ih rest.length (by omega) _ _ (by simp)

theorem requestLine_error_iff (r : Request) (hr : r.status = .rline) (buffer : Bytes) :
    r.requestLine buffer = .error .position ↔
      ∃ line, (cutAt 13 10 (r.line ++ buffer)).map Prod.fst = some line ∧ ShortLine line := by
  rw [Request.requestLine_eq r hr]
  cases cutAt 13 10 (r.line ++ buffer) with
  | none => simp
  | some cut =>
    obtain ⟨line, rest⟩ := cut
    have hshort := parseRequestLine_error_iff { r with line := line }
    simp only [Option.map_some, Option.some.injEq, exists_eq_left', ShortLine]
    by_cases hsize : line.length > BUFFER_SIZE
    · rw [if_pos hsize]
      have hlong : ¬ line.length ≤ BUFFER_SIZE := by omega
      simp [hlong]
    · rw [if_neg hsize, ← hshort]
      have hlong : line.length ≤ BUFFER_SIZE := by omega
      cases ({ r with line := line } : Request).parseRequestLine with
      | error e => simp [hlong]
      | ok out =>
        obtain ⟨res, r'⟩ := out
        simp only [reduceCtorEq, and_false, iff_false]
        split
        · simp
        · obtain ⟨_, _, _, hloop, -⟩ := headerLoop_answer { r' with line := [], status := .ongoing } rest
          simp [hloop]

theorem requestLine_answer (r : Request) (hr : InHead r) (buffer : Bytes) {res : ℤ} {r' : Request}
    {rest : Bytes} (h : r.requestLine buffer = .ok (res, r', rest)) : Answer res := by
  have hloop : ∀ (r : Request) (b : Bytes), r.headerLoop b = .ok (res, r', rest) → Answer res := by
    intro r b h
    obtain ⟨res', _, _, hreturn, hres⟩ := headerLoop_answer r b
    rw [h, Except.ok.injEq, Prod.mk.injEq] at hreturn
    rwa [hreturn.1]
  rcases hr with hr | hr
  · rw [Request.requestLine_eq r hr] at h
    cases hcut : cutAt 13 10 (r.line ++ buffer) with
    | none =>
      simp only [hcut, Except.ok.injEq, Prod.mk.injEq] at h
      rw [← h.1]
      exact checkSizes_answer _
    | some cut =>
      obtain ⟨line, rest'⟩ := cut
      simp only [hcut] at h
      split at h
      · simp only [Except.ok.injEq, Prod.mk.injEq] at h
        exact Or.inr (Or.inr (by omega))
      · cases hparse : ({ r with line := line } : Request).parseRequestLine with
        | error e => simp [hparse] at h
        | ok out =>
          obtain ⟨code, r₁⟩ := out
          simp only [hparse] at h
          split at h
          · rename_i hcode
            obtain ⟨-, hanswer⟩ := parseRequestLine_cases hparse
            simp only [Except.ok.injEq, Prod.mk.injEq] at h
            exact Or.inr (Or.inr (by omega))
          · exact hloop _ _ h
  · rw [requestLine_ongoing hr] at h
    exact hloop _ _ h

/-- A call raises an exception exactly when it completes a line that ends too early. -/
theorem parseHeaders_error_iff (r : Request) (buffer : Bytes) :
    r.parseHeaders buffer = .error .position ↔ CutsShort r buffer := by
  unfold CutsShort completedLine
  by_cases hterm : r.status = .term
  · simp [Request.parseHeaders, hterm, pure, Except.pure]
  · rcases (open_iff r).mp hterm with hnew | hrline | hongoing
    · rw [parseHeaders_new r hnew, hnew]
      cases buffer.dropWhile fun c => !isalpha c with
      | nil => simp
      | cons c rest => exact requestLine_error_iff _ rfl _
    · rw [parseHeaders_inHead (Or.inl hrline),
        requestLine_error_iff (grow r buffer.length) hrline, hrline]
      rfl
    · rw [parseHeaders_inHead (Or.inr hongoing), requestLine_ongoing (by exact hongoing), hongoing]
      obtain ⟨_, _, _, hloop, -⟩ := headerLoop_answer (grow r buffer.length) buffer
      simp [hloop]

theorem parseHeaders_answer (r : Request) (buffer : Bytes) {res : ℤ} {r' : Request} {rest : Bytes}
    (h : r.parseHeaders buffer = .ok (res, r', rest)) : Answer res := by
  by_cases hterm : r.status = .term
  · simp only [Request.parseHeaders, hterm, if_true, pure, Except.pure, Except.ok.injEq,
      Prod.mk.injEq] at h
    exact Or.inl h.1.symm
  · rcases (open_iff r).mp hterm with hnew | hhead
    · rw [parseHeaders_new r hnew] at h
      cases hjunk : buffer.dropWhile (fun c => !isalpha c) with
      | nil =>
        simp only [hjunk, Except.ok.injEq, Prod.mk.injEq] at h
        rw [← h.1]
        exact checkSizes_answer _
      | cons c rest' =>
        simp only [hjunk] at h
        exact requestLine_answer _ (Or.inl rfl) _ h
    · rw [parseHeaders_inHead hhead] at h
      exact requestLine_answer _ (by exact hhead) _ h

/-- The reads of a connection are all answered exactly when no call completes a request
line that ends with its target, whatever request and leftover bytes they start from. -/
theorem reads_answered_iff (r : Request) (buffer : Bytes) (reads : List Bytes) :
    (∃ codes r' rest, callAll Request.parseHeaders r buffer reads = .ok (codes, r', rest) ∧
      ∀ code ∈ codes, Answer code) ↔
    Along (fun r buffer => ¬ CutsShort r buffer) Request.parseHeaders r buffer reads := by
  have hcall : ∀ r x, (∃ out, Request.parseHeaders r x = .ok out) ↔ ¬ CutsShort r x := by
    intro r x
    rw [← parseHeaders_error_iff]
    cases r.parseHeaders x with
    | error e => cases e; simp
    | ok out => simp
  rw [← callAll_ok_iff hcall]
  constructor
  · rintro ⟨codes, r', rest, hrun, -⟩
    exact ⟨_, hrun⟩
  · rintro ⟨⟨codes, r', rest⟩, hrun⟩
    refine ⟨codes, r', rest, hrun, ?_⟩
    exact callAll_codes (fun r x res r' rest h => parseHeaders_answer r x h) hrun

/-- One read of a request line without a version leaves the parser by an exception. -/
theorem not_all_reads_answered :
    ¬ ∀ reads : List Bytes, ∃ codes r' rest,
      callAll Request.parseHeaders {} [] reads = .ok (codes, r', rest) ∧
        ∀ code ∈ codes, Answer code := by
  intro h
  have hshort : CutsShort {} (ascii "GET /\r\n") := by
    refine ⟨ascii "GET /", by decide, by decide, by decide, by decide +kernel⟩
  have hthrow := (parseHeaders_error_iff _ _).mpr hshort
  obtain ⟨codes, r', rest, hrun, -⟩ := h [ascii "GET /\r\n"]
  simp only [callAll, List.nil_append, hthrow] at hrun
  exact absurd hrun (by simp)

end Webserveau.HeadSafety
