import Webserveau.UploadIntake

/-!
The start of an upload.
The head leaves nothing of itself in the line of the parser. Once it is accepted for a
target file, the stream of the file is empty and the body, if one is announced, is open or
refused from the start.
-/
namespace Webserveau.UploadStarts

open ByteStrings OrderedMaps Formats Requests Clients EventLoop Checks HeadSafety
  HeadSegmentation ParserFrames Transitions BodySegmentation Acceptance UploadChecks BodyIntake
  ContentLength ChunkedMessages ChunkedIntake UploadIntake

/-- No chunk is begun in a head, and a complete head leaves an empty line. -/
def HeadEnd (r : Request) (out : ℤ × Request × Bytes) : Prop :=
  out.2.1.chunked_status = r.chunked_status ∧ (out.1 = -1 → out.2.1.line = [])

theorem checkSizes_headEnd (r : Request) (buffer : Bytes) :
    HeadEnd r (r.checkSizes.1, r.checkSizes.2, buffer) := by
  rcases checkSizes_cases r with hpass | ⟨error, verbose, hcode, hfail⟩
  · rw [hpass]
    exact ⟨rfl, fun h => absurd h (by decide : (0 : ℤ) ≠ -1)⟩
  · rw [hfail]
    exact ⟨rfl, fun _ => rfl⟩

theorem headerLines_headEnd (fuel : ℕ) (r : Request) (buffer : Bytes) :
    Ends (r.headerLines fuel buffer) (HeadEnd r) := by
  induction fuel generalizing r buffer with
  | zero => exact ends_pure.mpr ⟨rfl, fun h => absurd h (by decide : (0 : ℤ) ≠ -1)⟩
  | succ fuel ih =>
    rw [Request.headerLines_succ]
    split
    · exact ends_ok.mpr (checkSizes_headEnd _ _)
    · split
      · exact ends_ok.mpr (checkSizes_headEnd _ _)
      · split
        · exact ends_ok.mpr ⟨rfl, fun _ => rfl⟩
        · split
          · exact ends_ok.mpr ⟨rfl, fun _ => rfl⟩
          · split
            · exact ends_ok.mpr ⟨rfl, fun _ => rfl⟩
            · exact ih _ _

theorem parseRequestLine_headEnd (r : Request) :
    Ends r.parseRequestLine fun out => out.2.chunked_status = r.chunked_status ∧
      (out.1 ≠ 0 → out.2.line = []) := by
  rw [Request.parseRequestLine_eq]
  split
  · exact ends_ok.mpr ⟨rfl, fun _ => rfl⟩
  · split
    · exact ends_error
    · simp only
      split
      · exact ends_ok.mpr ⟨rfl, fun _ => rfl⟩
      · exact ends_ok.mpr ⟨rfl, fun h => absurd rfl h⟩

theorem requestLine_headEnd (r : Request) (buffer : Bytes) :
    Ends (r.requestLine buffer) (HeadEnd r) := by
  by_cases hr : r.status = .rline
  · rw [Request.requestLine_eq r hr]
    split
    · exact ends_ok.mpr (checkSizes_headEnd _ _)
    · dsimp only
      split
      · exact ends_ok.mpr ⟨rfl, fun _ => rfl⟩
      · split
        · exact ends_error
        · rename_i hline
          obtain ⟨hkept, hrefused⟩ := parseRequestLine_headEnd _ _ hline
          split
          · rename_i hres
            exact ends_ok.mpr ⟨hkept, fun _ => hrefused hres⟩
          · refine (headerLines_headEnd _ _ _).mono ?_
            intro out hout
            exact ⟨hout.1.trans hkept, hout.2⟩
  · rw [Request.requestLine, if_neg hr]
    exact headerLines_headEnd _ _ _

theorem parseHeaders_headEnd (r : Request) (buffer : Bytes) :
    Ends (r.parseHeaders buffer) (HeadEnd r) := by
  unfold Request.parseHeaders
  split
  · exact ends_pure.mpr ⟨rfl, fun h => absurd h (by decide : (0 : ℤ) ≠ -1)⟩
  · dsimp only
    split
    · split
      · exact ends_pure.mpr (checkSizes_headEnd _ _)
      · exact requestLine_headEnd _ _
    · exact requestLine_headEnd _ _

/-- A client whose upload has been accepted, before anything behind the head is looked at. -/
structure Begun (r : Request) (start : Client) (stream : BodyStream) : Prop where
  request : start.request.isSome = true
  header : start.headerStatus = .done
  unlink : start.getRequest.resHints.unlink = false
  process : start.cgiProcess = none
  written : stream.written = []
  body : start.bodyStatus = .ongoing ∧
      (BodyOpen r [] start.getRequest [] ∨ start.getRequest.final_status = .error) ∨
    start.bodyStatus = .none ∧ IsBody r [] []

/-- A static request only has a stream for an upload, and the file of one is kept. -/
theorem defineBodyParsing_unlink (env : Env) {c : Client} (hnone : c.bodyStream = none)
    {stream : BodyStream} (hstream : (defineBodyParsing env c).bodyStream = some stream)
    (htype : (defineBodyParsing env c).getRequest.type = .static) :
    (defineBodyParsing env c).getRequest.resHints.unlink = false := by
  have hkeep : ∀ d : Client, (keepContentType d).getRequest.resHints.unlink =
      d.getRequest.resHints.unlink ∧ (keepContentType d).bodyStream = d.bodyStream := by
    intro d
    unfold keepContentType
    dsimp only
    split
    · exact ⟨rfl, rfl⟩
    · exact ⟨rfl, rfl⟩
  have hupload : ∀ filePath (status : ℤ) alreadyExist,
      (uploadTo env c filePath status alreadyExist).getRequest.resHints.unlink = false := by
    intro filePath status alreadyExist
    unfold uploadTo
    exact (hkeep _).1
  obtain ⟨⟨hints, hrequest⟩, -⟩ := (defineBodyParsing_defined env c).1
  rw [hrequest] at htype
  have hnot : ¬ c.getRequest.type = .cgi := by
    intro hcgi
    rw [show c.getRequest.type = .static from htype] at hcgi
    cases hcgi
  unfold defineBodyParsing at hstream ⊢
  dsimp only at hstream ⊢
  rw [if_neg hnot] at hstream ⊢
  split at hstream
  · rename_i hmethod
    rw [if_pos hmethod]
    split at hstream
    · exact hupload _ _ _
    · split at hstream
      · rw [show (c.setRequest (c.getRequest.setHintStatus RES_FORBIDDEN)).bodyStream =
          c.bodyStream from rfl, hnone] at hstream
        cases hstream
      · rename_i hwritable
        rw [if_neg hwritable]
        exact hupload _ _ _
    · rw [show (c.setRequest (c.getRequest.setHintStatus RES_FORBIDDEN)).bodyStream =
        c.bodyStream from rfl, hnone] at hstream
      cases hstream
  · rw [(hkeep _).2] at hstream
    cases hstream

theorem defineBodyParsing_process (env : Env) (c : Client) :
    (defineBodyParsing env c).cgiProcess = c.cgiProcess ∧
      (c.request.isSome = true → (defineBodyParsing env c).request.isSome = true) := by
  have hkeep : ∀ d : Client, (keepContentType d).cgiProcess = d.cgiProcess ∧
      (d.request.isSome = true → (keepContentType d).request.isSome = true) := by
    intro d
    unfold keepContentType
    dsimp only
    split
    · exact ⟨rfl, fun _ => rfl⟩
    · exact ⟨rfl, fun h => h⟩
  have hfile : ∀ (d : Client) path opens, (d.setBodyFile path opens).cgiProcess = d.cgiProcess ∧
      (d.setBodyFile path opens).request.isSome = true := by
    intro d path opens
    unfold Client.setBodyFile
    dsimp only
    split
    · exact ⟨rfl, rfl⟩
    · exact ⟨rfl, rfl⟩
  have hupload : ∀ filePath (status : ℤ) alreadyExist,
      (uploadTo env c filePath status alreadyExist).cgiProcess = c.cgiProcess ∧
        (uploadTo env c filePath status alreadyExist).request.isSome = true := by
    intro filePath status alreadyExist
    unfold uploadTo
    exact ⟨(hkeep _).1.trans (hfile _ _ _).1, (hkeep _).2 rfl⟩
  unfold defineBodyParsing
  dsimp only
  split
  · exact ⟨(hkeep _).1.trans (hfile _ _ _).1, fun _ => (hkeep _).2 rfl⟩
  · split
    · split
      · exact ⟨(hupload _ _ _).1, fun _ => (hupload _ _ _).2⟩
      · split
        · exact ⟨rfl, fun _ => rfl⟩
        · exact ⟨(hupload _ _ _).1, fun _ => (hupload _ _ _).2⟩
      · exact ⟨rfl, fun _ => rfl⟩
    · exact ⟨(hkeep _).1.trans (hfile _ _ _).1, fun _ => (hkeep _).2 (hfile _ _ _).2⟩

/-- What the end of the checks leaves of the client, next to its request. -/
theorem handleRequestHeaders_upload (env : Env) {c d : Client}
    (hredir : c.getRequest.resHints.cgiRedir = .none) (hnone : c.bodyStream = none)
    (hprocess : c.cgiProcess = none) (h : handleRequestHeaders env c = .ok (0, d))
    {stream : BodyStream} (hstream : d.bodyStream = some stream)
    (htype : d.getRequest.type = .static) :
    d.request.isSome = true ∧ d.getRequest.resHints.unlink = false ∧ d.cgiProcess = none := by
  rw [handleRequestHeaders_eq] at h
  simp only [andThen_ok_iff, ne_eq, not_true_eq_false, and_false, false_or, Except.ok.injEq] at h
  obtain ⟨e, hthrough, hfinish⟩ := h
  have hpassed := throughHost_passed env hredir hthrough
  have hnone' : e.bodyStream = none := by
    rw [hpassed.rest]
    exact hnone
  have hprocess' : e.cgiProcess = none := by
    rw [hpassed.rest]
    exact hprocess
  have haccept := finishHeaders_accepted env (congrArg Prod.fst hfinish)
  rw [hfinish] at haccept
  have hdefined := defineBodyParsing_process env e
  have hsame : d.request = (defineBodyParsing env e).request ∧
      d.bodyStream = (defineBodyParsing env e).bodyStream ∧
      d.cgiProcess = (defineBodyParsing env e).cgiProcess := by
    have hdefine : (if e.getRequest.resHints.cgiRedir = .none then
        defineBodyParsing env e else e) =
          defineBodyParsing env e := if_pos hpassed.redir
    unfold acceptHeaders at haccept
    rw [hdefine] at haccept
    dsimp only at haccept
    split at haccept
    · cases haccept
      exact ⟨rfl, rfl, rfl⟩
    · cases haccept
      exact ⟨rfl, rfl, rfl⟩
  have hget : d.getRequest = (defineBodyParsing env e).getRequest := by
    rw [Client.getRequest, hsame.1]
    rfl
  rw [hget] at htype ⊢
  refine ⟨?_, ?_, ?_⟩
  · rw [hsame.1]
    exact hdefined.2 (throughHost_request env hthrough)
  · rw [hsame.2.1] at hstream
    exact defineBodyParsing_unlink env (by exact hnone') hstream htype
  · rw [hsame.2.2, hdefined.1]
    exact hprocess'

/-- What an accepted head leaves to be read is the body that it announces. -/
theorem checkHeaders_opens {input rest : Bytes} {r : Request}
    (hparse : Request.parseHeaders {} input = .ok (-1, r, rest)) (env : Env) {c start : Client}
    (hget : c.getRequest = r) (haccept : checkHeaders env c = .ok (0, start)) :
    ∃ e, handleRequestHeaders env { c with bodyStatus := .none } = .ok (0, e) ∧
      start = e.record (.checked 0) ∧ Entered { c with bodyStatus := .none } e ∧
        (e.bodyStatus = .ongoing ∧
          (BodyOpen r [] e.getRequest [] ∨ e.getRequest.final_status = .error) ∨
            e.bodyStatus = .none ∧ IsBody r [] []) := by
  have hread := headRead_of_parse hparse
  obtain ⟨hstatus, hline⟩ := parseHeaders_headEnd _ _ _ hparse
  unfold checkHeaders at haccept
  rw [bind_eq_ok_iff] at haccept
  obtain ⟨⟨res, e⟩, hheaders, hrecord⟩ := haccept
  change Except.ok (res, e.record (.checked res)) = _ at hrecord
  rw [Except.ok.injEq, Prod.mk.injEq] at hrecord
  obtain ⟨rfl, rfl⟩ := hrecord
  have hredir : ({ c with bodyStatus := .none } : Client).getRequest.resHints.cgiRedir = .none := by
    show c.getRequest.resHints.cgiRedir = .none
    rw [hget]
    exact hread.cgiRedir
  have hentered := handleRequestHeaders_entered env hredir hheaders
  have hbody : e.bodyStatus = if bodyLength r > 0 ∨ isChunked r = true then .ongoing
      else .none := by
    rw [← hget]
    exact hentered.body
  have hresolved : Resolved (hostOf c) (announcedRequest (hostOf c).getMaxSize r) e.getRequest := by
    rw [← hget, ← hostOf_bodyStatus c .none]
    exact hentered.resolved
  refine ⟨e, hheaders, rfl, hentered, ?_⟩
  by_cases hannounced : bodyLength r > 0 ∨ isChunked r = true
  · rw [if_pos hannounced] at hbody
    refine Or.inl ⟨hbody, ?_⟩
    cases hresolved with
    | broken suffix _ hbroken hserved =>
      obtain ⟨type, hints, hserved⟩ := hserved
      refine Or.inr ?_
      show e.getRequest.final_status = .error
      rw [hserved]
    | served suffix _ hintact hserved =>
      obtain ⟨type, hints, hserved⟩ := hserved
      have hunfinished : e.getRequest.final_status.index ≤ FinalStatus.trailer.index := by
        rw [hserved]
        show r.final_status.index ≤ _
        rw [hread.final_status]
        decide
      have hterm : e.getRequest.status = .term := by
        rw [hserved]
        exact hread.status
      have hnew : e.getRequest.b_status = .new := by
        rw [hserved]
        exact hread.b_status
      have hframing : e.getRequest.chunked = isChunked r := by
        rw [hserved]
        show (isChunked r || r.chunked) = isChunked r
        rw [hread.chunked, Bool.or_false]
      refine Or.inl ?_
      cases hchunked : isChunked r
      · rw [hchunked] at hframing
        have hlength : bodyLength r > 0 := hannounced.resolve_right (by simp [hchunked])
        have hle := bodyLength_le r
        have hcontent : e.getRequest.content_length = bodyLength r := by
          rw [hserved]
          exact if_pos hlength
        have hlen : e.getRequest.len = 0 := by
          rw [hserved]
          exact hread.len
        refine .measured hchunked ⟨hterm, Or.inl hnew, hunfinished, Or.inr ?_⟩ hframing ?_ hlen rfl
        · show 0 ≤ e.getRequest.len ∧ e.getRequest.len < e.getRequest.content_length ∧
            e.getRequest.content_length ≤ INT32_MAX
          rw [hlen, hcontent]
          exact ⟨Int.le_refl 0, hlength, hle⟩
        · show e.getRequest.content_length = _
          rw [hcontent]
          omega
      · rw [hchunked] at hframing
        refine .chunked hchunked ⟨hterm, Or.inl hnew, hunfinished, Or.inl hframing⟩ hframing
          ⟨[], [], rfl, rfl, ?_⟩
        have hempty : e.getRequest.line = [] := by
          rw [hserved]
          exact hline rfl
        have hsize : e.getRequest.chunked_status = false := by
          rw [hserved]
          exact hstatus
        have hpending : Pending e.getRequest e.getRequest.line := .size hsize
        rwa [hempty] at hpending
  · rw [if_neg hannounced] at hbody
    obtain ⟨hlength, hchunked⟩ := not_or.mp hannounced
    refine Or.inr ⟨hbody, ?_⟩
    have hempty : IsBody r [] (([] : Bytes).take (bodyLength r).toNat) := by
      refine .measured (by simpa using hchunked) ?_
      show (bodyLength r).toNat ≤ 0
      omega
    rwa [List.take_nil] at hempty

/-- A head that is accepted for a target file begins its upload. -/
theorem checkHeaders_begun {input rest : Bytes} {r : Request}
    (hparse : Request.parseHeaders {} input = .ok (-1, r, rest)) (env : Env) {c start : Client}
    (hrequest : c.request = some r) (hnone : c.bodyStream = none) (hprocess : c.cgiProcess = none)
    (haccept : checkHeaders env c = .ok (0, start)) {stream : BodyStream}
    (hstream : start.bodyStream = some stream) (htype : start.getRequest.type = .static) :
    Begun r start stream := by
  have hget : c.getRequest = r := by
    rw [Client.getRequest, hrequest]
    rfl
  obtain ⟨e, hheaders, rfl, hentered, hbody⟩ := checkHeaders_opens hparse env hget haccept
  have hredir : ({ c with bodyStatus := .none } : Client).getRequest.resHints.cgiRedir = .none := by
    show c.getRequest.resHints.cgiRedir = .none
    rw [hget]
    exact (headRead_of_parse hparse).cgiRedir
  obtain ⟨hsome, hunlink, hprocess'⟩ := handleRequestHeaders_upload env hredir hnone hprocess
    hheaders hstream htype
  exact ⟨hsome, hentered.header, hunlink, hprocess', hentered.stream hnone stream hstream, hbody⟩

end Webserveau.UploadStarts
