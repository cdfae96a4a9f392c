import Webserveau.BodyParsing
import Webserveau.Checks
import Webserveau.HeadSafety

/-!
What the parsers of heads and bodies leave alone.
An error is noted in the hints as a status with its text; nothing else in the hints
changes while a request is read, and neither does its type.
-/
namespace Webserveau.ParserFrames

open ByteStrings OrderedMaps Formats Requests Checks HeadSegmentation HeadSafety

/-- The hints are those from before, up to the verdict of the parser. -/
def Keeps (r r' : Request) : Prop :=
  r'.type = r.type ∧ ∃ status verboseError,
    r'.resHints = { r.resHints with status := status, verboseError := verboseError }

theorem Keeps.of_eq {r r' : Request} (htype : r'.type = r.type)
    (hhints : r'.resHints = r.resHints) : Keeps r r' :=
  ⟨htype, r.resHints.status, r.resHints.verboseError, hhints⟩

theorem Keeps.refl (r : Request) : Keeps r r := Keeps.of_eq rfl rfl

theorem Keeps.trans {r s t : Request} (hrs : Keeps r s) (hst : Keeps s t) : Keeps r t := by
  obtain ⟨htype, status, verbose, hhints⟩ := hrs
  obtain ⟨htype', status', verbose', hhints'⟩ := hst
  refine ⟨htype'.trans htype, status', verbose', ?_⟩
  rw [hhints', hhints]

/-- Fields outside of the type and the hints do not matter. -/
theorem Keeps.congr {r s r' : Request} (h : Keeps s r') (htype : s.type = r.type)
    (hhints : s.resHints = r.resHints) : Keeps r r' := Keeps.trans (Keeps.of_eq htype hhints) h

theorem fillError_keeps (r : Request) (error : ℤ) (verbose : Bytes) :
    Keeps r (r.fillError error verbose).2 := ⟨rfl, error, verbose, rfl⟩

theorem checkSizes_keeps (r : Request) : Keeps r r.checkSizes.2 := by
  rcases checkSizes_cases r with hpass | ⟨error, verbose, -, hfail⟩
  · rw [hpass]
    exact Keeps.refl r
  · rw [hfail]
    exact fillError_keeps r error verbose

theorem headerLines_keeps (fuel : ℕ) (r : Request) (buffer : Bytes) :
    Ends (r.headerLines fuel buffer) fun out => Keeps r out.2.1 := by
  induction fuel generalizing r buffer with
  | zero => exact ends_pure.mpr (Keeps.refl r)
  | succ fuel ih =>
    rw [Request.headerLines_succ]
    split
    · exact ends_ok.mpr ((checkSizes_keeps _).congr rfl rfl)
    · split
      · exact ends_ok.mpr ((checkSizes_keeps _).congr rfl rfl)
      · split
        · exact ends_ok.mpr (Keeps.of_eq rfl rfl)
        · split
          · exact ends_ok.mpr (fillError_keeps r _ _)
          · split
            · exact ends_ok.mpr (fillError_keeps r _ _)
            · refine (ih _ _).mono ?_
              intro out hout
              exact hout.congr rfl rfl

theorem parseRequestLine_keeps (r : Request) :
    Ends r.parseRequestLine fun out => Keeps r out.2 := by
  rw [Request.parseRequestLine_eq]
  split
  · exact ends_ok.mpr ((fillError_keeps _ _ _).congr rfl rfl)
  · split
    · exact ends_error
    · simp only
      split
      · exact ends_ok.mpr ((fillError_keeps _ _ _).congr rfl rfl)
      · exact ends_ok.mpr (Keeps.of_eq rfl rfl)

theorem requestLine_keeps (r : Request) (buffer : Bytes) :
    Ends (r.requestLine buffer) fun out => Keeps r out.2.1 := by
  by_cases hr : r.status = .rline
  · rw [Request.requestLine_eq r hr]
    split
    · exact ends_ok.mpr ((checkSizes_keeps _).congr rfl rfl)
    · dsimp only
      split
      · exact ends_ok.mpr (fillError_keeps r _ _)
      · split
        · exact ends_error
        · rename_i hline
          have hkeeps := parseRequestLine_keeps _ _ hline
          split
          · exact ends_ok.mpr (hkeeps.congr rfl rfl)
          · refine (headerLines_keeps _ _ _).mono ?_
            intro out hout
            exact (hkeeps.congr rfl rfl).trans (hout.congr rfl rfl)
  · rw [Request.requestLine, if_neg hr]
    exact headerLines_keeps _ _ _

theorem parseHeaders_keeps (r : Request) (buffer : Bytes) :
    Ends (r.parseHeaders buffer) fun out => Keeps r out.2.1 := by
  unfold Request.parseHeaders
  split
  · exact ends_pure.mpr (Keeps.refl r)
  · dsimp only
    split
    · split
      · exact ends_pure.mpr ((checkSizes_keeps _).congr rfl rfl)
      · exact (requestLine_keeps _ _).mono fun out hout => hout.congr rfl rfl
    · exact (requestLine_keeps _ _).mono fun out hout => hout.congr rfl rfl

/-- Everything the parser of heads may write to a request. -/
def HeadWritten (r r' : Request) : Prop :=
  ∃ headers uri status header_size line final_status method hints,
    r' = { r with
      headers := headers
      uri := uri
      status := status
      header_size := header_size
      line := line
      final_status := final_status
      method := method
      resHints := hints }

theorem HeadWritten.refl (r : Request) : HeadWritten r r :=
  ⟨r.headers, r.uri, r.status, r.header_size, r.line, r.final_status, r.method, r.resHints, rfl⟩

theorem HeadWritten.trans {r s t : Request} (h : HeadWritten r s) (h' : HeadWritten s t) :
    HeadWritten r t := by
  obtain ⟨headers, uri, status, header_size, line, final_status, method, hints, rfl⟩ := h
  obtain ⟨headers', uri', status', header_size', line', final_status', method', hints', rfl⟩ := h'
  exact ⟨headers', uri', status', header_size', line', final_status', method', hints', rfl⟩

theorem checkSizes_written (r : Request) : HeadWritten r r.checkSizes.2 := by
  rcases checkSizes_cases r with hpass | ⟨error, verbose, -, hfail⟩
  · rw [hpass]
    exact HeadWritten.refl r
  · rw [hfail]
    exact ⟨_, _, _, _, _, _, _, _, rfl⟩

theorem headerLines_written (fuel : ℕ) (r : Request) (buffer : Bytes) :
    Ends (r.headerLines fuel buffer) fun out => HeadWritten r out.2.1 := by
  induction fuel generalizing r buffer with
  | zero => exact ends_pure.mpr (HeadWritten.refl r)
  | succ fuel ih =>
    rw [Request.headerLines_succ]
    split
    · exact ends_ok.mpr (HeadWritten.trans ⟨_, _, _, _, _, _, _, _, rfl⟩ (checkSizes_written _))
    · split
      · exact ends_ok.mpr (HeadWritten.trans ⟨_, _, _, _, _, _, _, _, rfl⟩ (checkSizes_written _))
      · split
        · exact ends_ok.mpr ⟨_, _, _, _, _, _, _, _, rfl⟩
        · split
          · exact ends_ok.mpr ⟨_, _, _, _, _, _, _, _, rfl⟩
          · split
            · exact ends_ok.mpr ⟨_, _, _, _, _, _, _, _, rfl⟩
            · refine (ih _ _).mono ?_
              intro out hout
              exact HeadWritten.trans ⟨_, _, _, _, _, _, _, _, rfl⟩ hout

theorem parseRequestLine_written (r : Request) :
    Ends r.parseRequestLine fun out => HeadWritten r out.2 := by
  rw [Request.parseRequestLine_eq]
  split
  · exact ends_ok.mpr ⟨_, _, _, _, _, _, _, _, rfl⟩
  · split
    · exact ends_error
    · simp only
      split
      · exact ends_ok.mpr ⟨_, _, _, _, _, _, _, _, rfl⟩
      · exact ends_ok.mpr ⟨_, _, _, _, _, _, _, _, rfl⟩

theorem requestLine_written (r : Request) (buffer : Bytes) :
    Ends (r.requestLine buffer) fun out => HeadWritten r out.2.1 := by
  by_cases hr : r.status = .rline
  · rw [Request.requestLine_eq r hr]
    split
    · exact ends_ok.mpr (HeadWritten.trans ⟨_, _, _, _, _, _, _, _, rfl⟩ (checkSizes_written _))
    · dsimp only
      split
      · exact ends_ok.mpr ⟨_, _, _, _, _, _, _, _, rfl⟩
      · split
        · exact ends_error
        · rename_i hline
          have hwritten := HeadWritten.trans ⟨_, _, _, _, _, _, _, _, rfl⟩
            (parseRequestLine_written _ _ hline)
          split
          · exact ends_ok.mpr hwritten
          · exact (headerLines_written _ _ _).mono fun out hout => hwritten.trans hout
  · rw [Request.requestLine, if_neg hr]
    exact headerLines_written _ _ _

theorem parseHeaders_written (r : Request) (buffer : Bytes) :
    Ends (r.parseHeaders buffer) fun out => HeadWritten r out.2.1 := by
  unfold Request.parseHeaders
  split
  · exact ends_pure.mpr (HeadWritten.refl r)
  · dsimp only
    split
    · split
      · exact ends_pure.mpr (HeadWritten.trans ⟨_, _, _, _, _, _, _, _, rfl⟩
          (checkSizes_written _))
      · refine (requestLine_written _ _).mono ?_
        intro out hout
        exact HeadWritten.trans ⟨_, _, _, _, _, _, _, _, rfl⟩ hout
    · refine (requestLine_written _ _).mono ?_
      intro out hout
      exact HeadWritten.trans ⟨_, _, _, _, _, _, _, _, rfl⟩ hout

/-- A call of the body parser answers with a code and keeps the hints. -/
def BodyCall (b : Body) (out : ℤ × Body × Bytes) : Prop := Answer out.1 ∧ Keeps b.1 out.2.1.1

theorem answer_error (error : ℤ) (h : 400 ≤ error) : Answer error := Or.inr (Or.inr h)

theorem chunkData_call {next : Body → Bytes → Checked (ℤ × Body × Bytes)}
    (hnext : ∀ b buffer, Ends (next b buffer) (BodyCall b)) (r : Request)
    (filestream : Option BodyStream) (buffer : Bytes) :
    Ends (Request.chunkData next (r, filestream) buffer) (BodyCall (r, filestream)) := by
  unfold Request.chunkData
  dsimp only
  split
  · exact ends_ok.mpr ⟨Or.inr (Or.inl rfl), Keeps.of_eq rfl rfl⟩
  · split
    · exact ends_ok.mpr ⟨checkSizes_answer _, (checkSizes_keeps _).congr rfl rfl⟩
    · split
      · exact ends_ok.mpr ⟨answer_error 400 (by decide), (fillError_keeps _ _ _).congr rfl rfl⟩
      · refine (hnext _ _).mono ?_
        intro out hout
        exact ⟨hout.1, hout.2.congr rfl rfl⟩

theorem chunkSize_call {next : Body → Bytes → Checked (ℤ × Body × Bytes)}
    (hnext : ∀ b buffer, Ends (next b buffer) (BodyCall b)) (r : Request)
    (filestream : Option BodyStream) (buffer : Bytes) :
    Ends (Request.chunkSize next (r, filestream) buffer) (BodyCall (r, filestream)) := by
  unfold Request.chunkSize
  dsimp only
  split
  · split
    · exact ends_ok.mpr ⟨answer_error 400 (by decide), (fillError_keeps _ _ _).congr rfl rfl⟩
    · exact ends_ok.mpr ⟨checkSizes_answer _, (checkSizes_keeps _).congr rfl rfl⟩
  · split
    · exact ends_ok.mpr ⟨answer_error 400 (by decide), (fillError_keeps _ _ _).congr rfl rfl⟩
    · refine (chunkData_call hnext _ _ _).mono ?_
      intro out hout
      exact ⟨hout.1, hout.2.congr rfl rfl⟩

theorem chunkLines_call (fuel : ℕ) (b : Body) (buffer : Bytes) :
    Ends (Request.chunkLines fuel b buffer) (BodyCall b) := by
  induction fuel generalizing b buffer with
  | zero => exact ends_pure.mpr ⟨Or.inl rfl, Keeps.refl _⟩
  | succ fuel ih =>
    obtain ⟨r, filestream⟩ := b
    rw [Request.chunkLines_succ]
    split
    · split
      · exact ends_ok.mpr ⟨answer_error 413 (by decide), fillError_keeps _ _ _⟩
      · exact ends_ok.mpr ⟨Or.inl rfl, Keeps.refl _⟩
    · split
      · exact chunkData_call ih _ _ _
      · exact chunkSize_call ih _ _ _

theorem parseMesured_call (b : Body) (buffer : Bytes) :
    Ends (Request.parseMesured b buffer) (BodyCall b) := by
  obtain ⟨r, filestream⟩ := b
  unfold Request.parseMesured
  refine Ends.bind_any ?_
  intro extract
  refine Ends.bind_any ?_
  intro rest
  dsimp only
  split
  · exact ends_pure.mpr ⟨Or.inr (Or.inl rfl), Keeps.of_eq rfl rfl⟩
  · exact ends_pure.mpr ⟨Or.inl rfl, Keeps.of_eq rfl rfl⟩

theorem parseBody_call (b : Body) (buffer : Bytes) :
    Ends (Request.parseBody b buffer) (BodyCall b) := by
  obtain ⟨r, filestream⟩ := b
  unfold Request.parseBody
  dsimp only
  split
  · exact ends_pure.mpr ⟨Or.inr (Or.inl rfl), Keeps.refl _⟩
  · have henter : ∀ s : Request, s = (if r.b_status = .new then { r with b_status := .ongoing }
        else r) → s.type = r.type ∧ s.resHints = r.resHints := by
      intro s hs
      subst hs
      split
      · exact ⟨rfl, rfl⟩
      · exact ⟨rfl, rfl⟩
    generalize hs : (if r.b_status = .new then { r with b_status := .ongoing } else r) = s
    obtain ⟨htype, hhints⟩ := henter s hs.symm
    split
    · unfold Request.parseChunked
      dsimp only
      split
      · exact ends_pure.mpr ⟨Or.inl rfl, Keeps.of_eq htype hhints⟩
      · refine (chunkLines_call _ _ _).mono ?_
        intro out hout
        exact ⟨hout.1, hout.2.congr htype hhints⟩
    · refine (parseMesured_call _ _).mono ?_
      intro out hout
      exact ⟨hout.1, hout.2.congr htype hhints⟩

theorem trailerLines_call (fuel : ℕ) (r : Request) (buffer : Bytes) :
    Ends (r.trailerLines fuel buffer) fun out => Answer out.1 ∧ Keeps r out.2.1 := by
  induction fuel generalizing r buffer with
  | zero => exact ends_pure.mpr ⟨Or.inl rfl, Keeps.refl r⟩
  | succ fuel ih =>
    unfold Request.trailerLines
    split
    · exact ends_pure.mpr ⟨checkSizes_answer r, checkSizes_keeps r⟩
    · rw [Request.getLine_eq]
      refine Ends.bind (ends_ok.mpr rfl) ?_
      intro out hout
      subst hout
      cases cutAt 13 10 (r.line ++ buffer) with
      | none => exact ends_pure.mpr ⟨checkSizes_answer _, (checkSizes_keeps _).congr rfl rfl⟩
      | some cut =>
        obtain ⟨line, rest⟩ := cut
        dsimp only
        rw [if_neg (by simp)]
        split
        · exact ends_pure.mpr ⟨Or.inr (Or.inl rfl), Keeps.of_eq rfl rfl⟩
        · rw [getHeaderName_eq]
          refine Ends.bind (ends_ok.mpr rfl) ?_
          intro name hname
          subst hname
          split
          · exact ends_pure.mpr
              ⟨answer_error 400 (by decide), (fillError_keeps _ _ _).congr rfl rfl⟩
          · split
            · exact ends_pure.mpr
                ⟨answer_error 400 (by decide), (fillError_keeps _ _ _).congr rfl rfl⟩
            · split
              · exact ends_pure.mpr
                  ⟨answer_error 431 (by decide), (fillError_keeps _ _ _).congr rfl rfl⟩
              · refine (ih _ _).mono ?_
                intro out hout
                exact ⟨hout.1, hout.2.congr rfl rfl⟩

theorem parseTrailerHeaders_call (r : Request) (buffer : Bytes) :
    Ends (r.parseTrailerHeaders buffer) fun out => Answer out.1 ∧ Keeps r out.2.1 := by
  unfold Request.parseTrailerHeaders
  split
  · exact ends_pure.mpr ⟨Or.inl rfl, Keeps.refl r⟩
  · split
    · exact ends_pure.mpr ⟨Or.inr (Or.inl rfl), Keeps.of_eq rfl rfl⟩
    · refine (trailerLines_call _ _ _).mono ?_
      intro out hout
      exact ⟨hout.1, hout.2.congr rfl rfl⟩

/-- The body parser answers 0, -1 or an error status and keeps the hints. -/
theorem parseInput_call (b : Body) (buffer : Bytes) :
    Ends (Request.parseInput b buffer) (BodyCall b) := by
  obtain ⟨r, filestream⟩ := b
  unfold Request.parseInput
  dsimp only
  split
  · exact ends_pure.mpr ⟨Or.inl rfl, Keeps.refl _⟩
  · refine Ends.bind (parseBody_call _ _) ?_
    intro out hout
    obtain ⟨res, ⟨r', filestream'⟩, rest⟩ := out
    dsimp only
    split
    · exact ends_pure.mpr hout
    · refine Ends.bind (parseTrailerHeaders_call _ _) ?_
      intro out' hout'
      exact ends_pure.mpr ⟨hout'.1, hout.2.trans hout'.2⟩

end Webserveau.ParserFrames
