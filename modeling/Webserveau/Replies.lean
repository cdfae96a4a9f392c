import Webserveau.Transitions

/-!
What the output side of the event loop can do to a client.
A response is always made: one that fails is replaced by status 500, whose body needs no
file. A response that is not a success closes the connection once it is flushed.
-/
namespace Webserveau.Replies

open ByteStrings OrderedMaps Formats Requests Clients EventLoop Checks HeadSafety ParserFrames
  Transitions

abbrev CONNECTION : Bytes := ascii "connection"

/-- A response gives the hints fields and uses their index up. Its connection is left alone. -/
structure SameReply (hints hints' : ResHints) : Prop where
  fields : ∃ headers index, hints' = { hints with headers := headers, index := index }
  connection : hints'.getHeader CONNECTION = hints.getHeader CONNECTION

namespace SameReply

variable {hints hints' hints'' : ResHints}

theorem refl (hints : ResHints) : SameReply hints hints := ⟨⟨_, _, rfl⟩, rfl⟩

theorem trans (h : SameReply hints hints') (h' : SameReply hints' hints'') :
    SameReply hints hints'' := by
  obtain ⟨headers, index, rfl⟩ := h.fields
  obtain ⟨headers', index', rfl⟩ := h'.fields
  exact ⟨⟨headers', index', rfl⟩, h'.connection.trans h.connection⟩

theorem status_eq (h : SameReply hints hints') : hints'.status = hints.status := by
  obtain ⟨headers, index, rfl⟩ := h.fields
  rfl

theorem path_eq (h : SameReply hints hints') : hints'.path = hints.path := by
  obtain ⟨headers, index, rfl⟩ := h.fields
  rfl

end SameReply

theorem addHeader_same (hints : ResHints) {key : Bytes} (value : Bytes)
    (h : Same iLess key CONNECTION = false) : SameReply hints (hints.addHeader key value) :=
  ⟨⟨_, _, rfl⟩, getHeader_addHeader_of_ne value h⟩

theorem addUniversalHeaders_same (date : Bytes) (hints : ResHints) :
    SameReply hints (addUniversalHeaders date hints) := by
  have hencoding : Same iLess (ascii "Accept-Encoding") CONNECTION = false := by decide
  have hranges : Same iLess (ascii "Accept-Ranges") CONNECTION = false := by decide
  have hdate : Same iLess (ascii "Date") CONNECTION = false := by decide
  unfold addUniversalHeaders
  exact ((addHeader_same _ _ hencoding).trans (addHeader_same _ _ hranges)).trans
    (addHeader_same _ _ hdate)

theorem addSpecificHeaders_same (hints : ResHints) :
    SameReply hints (addSpecificHeaders hints) := by
  unfold addSpecificHeaders
  split
  · exact addHeader_same _ _ (by decide)
  · exact SameReply.refl hints

theorem dynamicResponse_same (fs : FileSystem) (date : Bytes) (hints : ResHints) :
    SameReply hints (dynamicResponse fs date hints).2 ∧
      ∀ response, (dynamicResponse fs date hints).1 = some response →
        response.getStatus = hints.status := by
  have hheaders := (addUniversalHeaders_same date hints).trans (addSpecificHeaders_same _)
  unfold dynamicResponse
  dsimp only
  split
  · refine ⟨hheaders, ?_⟩
    intro response h
    cases h
  · have hlength : Same iLess (ascii "Content-Length") CONNECTION = false := by decide
    have htype : Same iLess (ascii "Content-Type") CONNECTION = false := by decide
    constructor
    · exact hheaders.trans ((addHeader_same _ _ hlength).trans (addHeader_same _ _ htype))
    · intro response h
      cases h
      rfl

theorem checkType_same (hints : ResHints) : SameReply hints (checkType hints) := by
  unfold checkType
  split
  · exact SameReply.refl hints
  · split
    · exact addHeader_same _ _ (by decide)
    · exact SameReply.refl hints

theorem inspectFile_same (fs : FileSystem) (hints : ResHints) :
    SameReply hints (inspectFile fs hints).2 := by
  unfold inspectFile
  split
  · refine SameReply.trans ?_ (checkType_same _)
    have hlength : Same iLess (ascii "Content-Length") CONNECTION = false := by decide
    have hindex : SameReply hints { hints with index := 0 } := ⟨⟨_, _, rfl⟩, rfl⟩
    exact hindex.trans (addHeader_same _ _ hlength)
  · exact SameReply.refl hints

theorem fileResponse_same (fs : FileSystem) (date : Bytes) (hints : ResHints) :
    SameReply hints (fileResponse fs date hints).2 ∧
      ∀ response, (fileResponse fs date hints).1 = some response →
        response.getStatus = hints.status := by
  unfold fileResponse
  refine ⟨(addUniversalHeaders_same date hints).trans (inspectFile_same fs _), ?_⟩
  intro response h
  obtain ⟨stream, -, rfl⟩ := Option.map_eq_some_iff.mp h
  rfl

theorem genResponse_same (fs : FileSystem) (date : Bytes) (hints : ResHints) :
    SameReply hints (genResponse fs date hints).2 ∧
      ∀ response, (genResponse fs date hints).1 = some response →
        response.getStatus = hints.status := by
  unfold genResponse
  split
  · refine ⟨SameReply.refl hints, ?_⟩
    intro response h
    cases h
    rfl
  · split
    · exact dynamicResponse_same fs date hints
    · exact fileResponse_same fs date hints

theorem dynamicResponse_isSome (fs : FileSystem) (date : Bytes) (hints : ResHints) :
    (dynamicResponse fs date hints).1.isSome =
      (generateBody fs (addSpecificHeaders (addUniversalHeaders date hints))).isSome := by
  unfold dynamicResponse
  dsimp only
  split
  · rename_i hbody
    rw [hbody]
    rfl
  · rename_i hbody
    rw [hbody]
    rfl

/-- Only a listing can fail to give a body. -/
theorem generateBody_made (fs : FileSystem) {hints : ResHints}
    (h : ¬ (hints.status = RES_OK ∧ hints.type = .dir)) :
    (generateBody fs hints).isSome = true := by
  unfold generateBody
  rw [if_neg h]
  split
  · rfl
  · rfl

/-- Without a file to serve, only a listing can fail. -/
theorem genResponse_made (fs : FileSystem) (date : Bytes) {hints : ResHints}
    (hpath : hints.path = []) (hstatus : hints.status ≠ RES_OK) :
    (genResponse fs date hints).1.isSome = true := by
  have hsame := (addUniversalHeaders_same date hints).trans (addSpecificHeaders_same _)
  unfold genResponse
  split
  · rfl
  · rw [if_pos (Or.inl hpath), dynamicResponse_isSome]
    refine generateBody_made fs ?_
    intro h
    exact hstatus (hsame.status_eq.symm.trans h.1)

/-- A file that can be looked at and opened is served. -/
theorem genResponse_file (fs : FileSystem) (date : Bytes) {hints : ResHints}
    (htype : hints.type ≠ .dir) (hstat : (fs.stat hints.path).isSome = true)
    (hcontent : (fs.content hints.path).isSome = true) :
    (genResponse fs date hints).1.isSome = true := by
  unfold genResponse
  split
  · rfl
  · split
    · rw [dynamicResponse_isSome]
      refine generateBody_made fs ?_
      intro h
      have hdir : (addSpecificHeaders (addUniversalHeaders date hints)).type = hints.type := by
        unfold addSpecificHeaders
        split
        · rfl
        · rfl
      exact htype (hdir.symm.trans h.2)
    · obtain ⟨info, hinfo⟩ := Option.isSome_iff_exists.mp hstat
      obtain ⟨content, hbytes⟩ := Option.isSome_iff_exists.mp hcontent
      have hpath := (addUniversalHeaders_same date hints).path_eq
      unfold fileResponse inspectFile
      rw [hpath, hinfo, hbytes]
      rfl

/-- What is filled in before a response is made: its fields and its message, and in place of
the path none or a page of its status. -/
structure Fills (pages : Bytes) (hints hints' : ResHints) : Prop where
  fields : ∃ headers path unlink verboseError, hints' = { hints with
    headers := headers
    path := path
    unlink := unlink
    verboseError := verboseError }
  unlink : hints'.unlink = hints.unlink ∨ hints'.unlink = false
  path : hints'.path = hints.path ∨ hints'.path = [] ∨
    hints'.path = pages ++ IntToString hints.status ++ ascii ".html"

namespace Fills

variable {pages : Bytes} {hints hints' hints'' : ResHints}

theorem refl (pages : Bytes) (hints : ResHints) : Fills pages hints hints :=
  ⟨⟨_, _, _, _, rfl⟩, Or.inl rfl, Or.inl rfl⟩

theorem status_eq (h : Fills pages hints hints') : hints'.status = hints.status := by
  obtain ⟨headers, path, unlink, verboseError, rfl⟩ := h.fields
  rfl

theorem trans (h : Fills pages hints hints') (h' : Fills pages hints' hints'') :
    Fills pages hints hints'' where
  fields := by
    obtain ⟨headers, path, unlink, verboseError, rfl⟩ := h.fields
    obtain ⟨headers', path', unlink', verboseError', rfl⟩ := h'.fields
    exact ⟨headers', path', unlink', verboseError', rfl⟩
  unlink := by
    rcases h'.unlink with hunlink | hunlink
    · rw [hunlink]
      exact h.unlink
    · exact Or.inr hunlink
  path := by
    rcases h'.path with hpath | hpath | hpath
    · rw [hpath]
      exact h.path
    · exact Or.inr (Or.inl hpath)
    · rw [h.status_eq] at hpath
      exact Or.inr (Or.inr hpath)

theorem addHeader (pages : Bytes) (hints : ResHints) (key value : Bytes) :
    Fills pages hints (hints.addHeader key value) :=
  ⟨⟨_, _, _, _, rfl⟩, Or.inl rfl, Or.inl rfl⟩

end Fills

theorem fillErrorPage_fills (pages : Bytes) (hints : ResHints) :
    Fills pages hints (fillErrorPage pages hints) := by
  unfold fillErrorPage
  split
  · exact ⟨⟨_, _, _, _, rfl⟩, Or.inr rfl, Or.inr (Or.inr rfl)⟩
  · exact Fills.refl pages hints

theorem fillAdditionnalHeaders_fills (pages : Bytes) (request : Request) (hints : ResHints) :
    Fills pages hints (fillAdditionnalHeaders request hints) := by
  unfold fillAdditionnalHeaders
  split
  · split
    · exact Fills.addHeader pages hints _ _
    · exact Fills.addHeader pages hints _ _
  · exact Fills.addHeader pages hints _ _

theorem fillVerboseError_fills (pages : Bytes) (hints : ResHints) :
    Fills pages hints (fillVerboseError hints) := by
  unfold fillVerboseError
  split
  · exact Fills.addHeader pages hints _ _
  · split
    · exact ⟨⟨_, _, _, _, rfl⟩, Or.inr rfl, Or.inr (Or.inl rfl)⟩
    · split
      · exact ⟨⟨_, _, _, _, rfl⟩, Or.inr rfl, Or.inr (Or.inl rfl)⟩
      · split
        · exact ⟨⟨_, _, _, _, rfl⟩, Or.inr rfl, Or.inr (Or.inl rfl)⟩
        · exact Fills.refl pages hints

/-- A response is filled in from its request and from what its status asks for. -/
theorem fillResponse_fills (pages : Bytes) (r : Request) :
    ∃ hints, Fills pages r.resHints hints ∧ fillResponse pages r = { hints with
      type := r.type
      extension := hints.parsedUri.extension
      method := r.method } :=
  ⟨_, ((fillErrorPage_fills pages r.resHints).trans (fillAdditionnalHeaders_fills pages r _)).trans
    (fillVerboseError_fills pages _), rfl⟩

theorem fillVerboseError_connection (hints : ResHints) :
    (fillVerboseError hints).getHeader CONNECTION = hints.getHeader CONNECTION := by
  unfold fillVerboseError
  split
  · have hallow : Same iLess (ascii "Allow") CONNECTION = false := by decide
    exact getHeader_addHeader_of_ne _ hallow
  · split
    · rfl
    · split
      · rfl
      · split
        · rfl
        · rfl

theorem fillResponse_status (pages : Bytes) (r : Request) :
    (fillResponse pages r).status = r.resHints.status := by
  obtain ⟨hints, hfills, hresponse⟩ := fillResponse_fills pages r
  rw [hresponse]
  exact hfills.status_eq

/-- The connection is closed after anything but a success. -/
theorem fillResponse_close (pages : Bytes) {r : Request}
    (h : ¬ (r.resHints.status ≥ 200 ∧ r.resHints.status < 300)) :
    (fillResponse pages r).getHeader CONNECTION = ascii "close" := by
  refine (fillVerboseError_connection _).trans ?_
  unfold fillAdditionnalHeaders
  rw [(fillErrorPage_fills pages r.resHints).status_eq, if_neg h]
  exact getHeader_addHeader_self _ _ _

/-- An internal error is reported without a file. -/
theorem fillResponse_internal (pages : Bytes) {r : Request}
    (h : r.resHints.status = RES_INTERNAL_ERROR) : (fillResponse pages r).path = [] := by
  have hstatus : (fillAdditionnalHeaders r (fillErrorPage pages r.resHints)).status =
      RES_INTERNAL_ERROR := by
    rw [(fillAdditionnalHeaders_fills pages r _).status_eq,
      (fillErrorPage_fills pages r.resHints).status_eq, h]
  show (fillVerboseError _).path = []
  unfold fillVerboseError
  rw [if_neg (by rw [hstatus]; decide), if_pos hstatus]

/-- The status a response is made for. -/
def statusOf (c : Client) (status : ℤ) : ℤ :=
  if status ≠ 0 then status else c.getRequest.resHints.status

/-- The hints a response is made from. -/
def replyHints (c : Client) (status : ℤ) : ResHints :=
  fillResponse (errorPages c)
    (if status ≠ 0 then c.getRequest.setHintStatus status else c.getRequest)

theorem replyHints_status (c : Client) (status : ℤ) :
    (replyHints c status).status = statusOf c status := by
  unfold replyHints statusOf
  rw [fillResponse_status]
  split
  · rfl
  · rfl

theorem replyHints_close (c : Client) {status : ℤ}
    (h : ¬ (statusOf c status ≥ 200 ∧ statusOf c status < 300)) :
    (replyHints c status).getHeader CONNECTION = ascii "close" := by
  refine fillResponse_close _ ?_
  unfold statusOf at h
  split
  · rename_i hne
    rwa [if_pos hne] at h
  · rename_i hzero
    rwa [if_neg hzero] at h

theorem replyHints_internal (c : Client) {status : ℤ} (h : statusOf c status = RES_INTERNAL_ERROR) :
    (replyHints c status).path = [] := by
  refine fillResponse_internal _ ?_
  unfold statusOf at h
  split
  · rename_i hne
    rwa [if_pos hne] at h
  · rename_i hzero
    rwa [if_neg hzero] at h

/-- Making a response for an internal error does not fail. -/
theorem genResponse_internal (env : Env) (c : Client) {status : ℤ}
    (h : statusOf c status = RES_INTERNAL_ERROR) :
    (genResponse env.served env.date (replyHints c status)).1.isSome = true := by
  refine genResponse_made _ _ (replyHints_internal c h) ?_
  rw [replyHints_status, h]
  decide

/-- The statuses for which a response is made from the path of the hints. -/
def KeepsPath (status : ℤ) : Prop :=
  ¬ (400 ≤ status ∧ status < 418) ∧ status ≠ 500 ∧ status ≠ 503 ∧ status ≠ 505

theorem fillResponse_path (pages : Bytes) {r : Request} (h : KeepsPath r.resHints.status) :
    (fillResponse pages r).path = r.resHints.path := by
  obtain ⟨hpages, hinternal, hservice, hversion⟩ := h
  have hpage : fillErrorPage pages r.resHints = r.resHints := by
    unfold fillErrorPage
    rw [if_neg (by omega)]
  have hstatus : (fillAdditionnalHeaders r r.resHints).status = r.resHints.status :=
    (fillAdditionnalHeaders_fills pages r r.resHints).status_eq
  have hpath : (fillAdditionnalHeaders r r.resHints).path = r.resHints.path := by
    unfold fillAdditionnalHeaders
    split
    · split
      · rfl
      · rfl
    · rfl
  show (fillVerboseError (fillAdditionnalHeaders r (fillErrorPage pages r.resHints))).path = _
  rw [hpage, ← hpath]
  rw [← hstatus] at hpages hinternal hservice
  have hne : ∀ status : ℤ, 400 ≤ status ∧ status < 418 →
      (fillAdditionnalHeaders r r.resHints).status ≠ status := by
    intro status hle heq
    rw [heq] at hpages
    exact hpages hle
  unfold fillVerboseError
  rw [if_neg (hne _ (by decide)), if_neg hinternal, if_neg hservice, if_neg (hne _ (by decide))]

theorem replyHints_path (c : Client) {status : ℤ} (h : KeepsPath (statusOf c status)) :
    (replyHints c status).path = (view c).path := by
  unfold statusOf at h
  unfold replyHints
  split
  · rename_i hne
    rw [if_pos hne] at h
    exact fillResponse_path _ h
  · rename_i hzero
    rw [if_neg hzero] at h
    exact fillResponse_path _ h

theorem replyHints_type (c : Client) (status : ℤ) :
    (replyHints c status).type = c.getRequest.type := by
  show (if status ≠ 0 then c.getRequest.setHintStatus status else c.getRequest).type = _
  split
  · rfl
  · rfl

/-- What the `try` block leaves: the response it made, or the hints of the failed one. -/
theorem tryResponse_eq (env : Env) (c : Client) (status : ℤ) :
    ∃ r hints, SameReply (replyHints c status) hints ∧ r.resHints = hints ∧
      r.type = c.getRequest.type ∧ r.headers = c.getRequest.headers ∧
      ((genResponse env.served env.date (replyHints c status)).1.isSome = true ∧
        (∃ response buffers connection origin, response.getStatus = statusOf c status ∧
          tryResponse env c status = (true,
            ((({ c.setRequest r with outBuffers := c.outBuffers ++ buffers } : Client).setResponse
              response).setMode .write).record
                (.responded response.getStatus connection buffers origin)))
      ∨ (genResponse env.served env.date (replyHints c status)).1.isSome = false ∧
        tryResponse env c status = (false, c.setRequest r)) := by
  obtain ⟨hsame, hresponse⟩ := genResponse_same env.served env.date (replyHints c status)
  have hr : ∀ r, r = (if status ≠ 0 then c.getRequest.setHintStatus status else c.getRequest) →
      r.type = c.getRequest.type ∧ r.headers = c.getRequest.headers := by
    intro r hr
    subst hr
    split
    · exact ⟨rfl, rfl⟩
    · exact ⟨rfl, rfl⟩
  obtain ⟨htype, hheaders⟩ := hr _ rfl
  refine ⟨{ (if status ≠ 0 then c.getRequest.setHintStatus status else c.getRequest) with
    resHints := (genResponse env.served env.date (replyHints c status)).2 }, _, hsame, rfl, htype,
    hheaders, ?_⟩
  unfold tryResponse
  dsimp only
  rw [show fillResponse (errorPages c) (if status ≠ 0 then c.getRequest.setHintStatus status
    else c.getRequest) = replyHints c status from rfl]
  cases hout : (genResponse env.served env.date (replyHints c status)).1 with
  | none => exact Or.inr ⟨rfl, rfl⟩
  | some response =>
    refine Or.inl ⟨rfl, response, _, _, _, ?_, rfl⟩
    rw [hresponse response hout, replyHints_status]

/-- A response that has been made: the client turns to writing it. -/
structure Responds (c : Client) (status : ℤ) (c' : Client) : Prop where
  settled : ∃ path connection, view c' =
    { view c with
      mode := .write
      response := some status
      path := path
      connection := connection } ∧
    (¬ (status ≥ 200 ∧ status < 300) → connection = ascii "close")
  adds : Adds Quiet c c'
  alive_eq : c'.alive = c.alive

theorem tryResponse_responds (env : Env) {c c' : Client} {status : ℤ}
    (h : tryResponse env c status = (true, c')) :
    Responds c (statusOf c status) c' ∧ (view c').path = (replyHints c status).path := by
  obtain ⟨r, hints, hsame, hhints, htype, hheaders, hcases⟩ := tryResponse_eq env c status
  rcases hcases with ⟨-, response, buffers, connection, origin, hstatus, hout⟩ | ⟨-, hout⟩
  · rw [h, Prod.mk.injEq] at hout
    obtain ⟨-, rfl⟩ := hout
    refine ⟨⟨⟨r.resHints.path, r.resHints.getHeader CONNECTION, ?_, ?_⟩, ?_, rfl⟩, ?_⟩
    · have hexpect : r.getHeader (ascii "expect") = c.getRequest.getHeader (ascii "expect") := by
        rw [Request.getHeader, hheaders]
        rfl
      show ({ view c with
        mode := .write
        response := some response.getStatus
        type := r.type
        path := r.resHints.path
        connection := r.resHints.getHeader CONNECTION
        expect := r.getHeader (ascii "expect") } : View) = _
      rw [hstatus, htype, hexpect]
      rfl
    · intro hclose
      rw [hhints, hsame.connection, replyHints_close c hclose]
    · exact Adds.record rfl ⟨fun h => h, fun h => h⟩
    · show r.resHints.path = _
      rw [hhints, hsame.path_eq]
  · rw [h] at hout
    cases hout

/-- A failed response only moves the path and the connection header. -/
theorem tryResponse_fails (env : Env) {c c' : Client} {status : ℤ}
    (h : tryResponse env c status = (false, c')) :
    (∃ path connection, view c' = { view c with path := path, connection := connection }) ∧
      c'.trace = c.trace ∧ c'.alive = c.alive ∧
        c'.getRequest.resHints.status = statusOf c status ∧
        (genResponse env.served env.date (replyHints c status)).1.isSome = false := by
  obtain ⟨r, hints, hsame, hhints, htype, hheaders, hcases⟩ := tryResponse_eq env c status
  rcases hcases with ⟨-, response, buffers, connection, origin, hstatus, hout⟩ | ⟨hfail, hout⟩
  · rw [h] at hout
    cases hout
  · rw [h, Prod.mk.injEq] at hout
    obtain ⟨-, rfl⟩ := hout
    have hstatus : r.resHints.status = statusOf c status := by
      rw [hhints, hsame.status_eq, replyHints_status]
    refine ⟨⟨r.resHints.path, r.resHints.getHeader CONNECTION, ?_⟩, rfl, rfl, hstatus, hfail⟩
    have hexpect : r.getHeader (ascii "expect") = c.getRequest.getHeader (ascii "expect") := by
      rw [Request.getHeader, hheaders]
      rfl
    show ({ view c with
      type := r.type
      path := r.resHints.path
      connection := r.resHints.getHeader CONNECTION
      expect := r.getHeader (ascii "expect") } : View) = _
    rw [htype, hexpect]
    rfl

/-- The report of an internal error can always be made. -/
theorem tryResponse_internal (env : Env) (c : Client) :
    ∃ c', tryResponse env c RES_INTERNAL_ERROR = (true, c') := by
  cases hout : tryResponse env c RES_INTERNAL_ERROR with
  | mk made c' =>
    cases made with
    | true => exact ⟨c', rfl⟩
    | false =>
      obtain ⟨-, -, -, -, hfail⟩ := tryResponse_fails env hout
      rw [genResponse_internal env c (if_pos (by decide))] at hfail
      cases hfail

/-- The response that is made, or the one with status 500 that replaces it. -/
theorem generateResponse_tries (env : Env) {c : Client} (status : ℤ) (hnone : c.response = none) :
    (∃ d, tryResponse env c status = (true, d) ∧ generateResponse env c status = (0, d)) ∨
      ∃ d e, tryResponse env c status = (false, d) ∧
        tryResponse env d.clearResponse RES_INTERNAL_ERROR = (true, e) ∧
        generateResponse env c status = (0, e) := by
  have hopen : ¬ c.response.isSome = true := by
    rw [hnone]
    exact Bool.noConfusion
  rw [generateResponse, if_neg hopen]
  cases hfirst : tryResponse env c status with
  | mk made d =>
    cases made with
    | true => exact Or.inl ⟨d, rfl, rfl⟩
    | false =>
      obtain ⟨-, -, -, hstatus, hfail⟩ := tryResponse_fails env hfirst
      have hother : d.getRequest.resHints.status ≠ RES_INTERNAL_ERROR := by
        intro hinternal
        rw [hstatus] at hinternal
        rw [genResponse_internal env c hinternal] at hfail
        cases hfail
      obtain ⟨e, hsecond⟩ := tryResponse_internal env d.clearResponse
      refine Or.inr ⟨d, e, rfl, hsecond, ?_⟩
      simp only [Bool.false_eq_true, if_false, if_neg hother, hsecond, if_true]

/-- A response that is owed already stays; otherwise one is made, whatever fails. -/
theorem generateResponse_cases (env : Env) (c : Client) (status : ℤ) :
    (c.response.isSome = true ∧ generateResponse env c status = (0, c)) ∨
      (c.response = none ∧ ∃ final c', generateResponse env c status = (0, c') ∧
        Responds c final c' ∧
        (tryResponse env c status = (true, c') ∧ final = statusOf c status ∨
          final = RES_INTERNAL_ERROR ∧
            (genResponse env.served env.date (replyHints c status)).1.isSome = false)) := by
  by_cases hresponse : c.response.isSome = true
  · refine Or.inl ⟨hresponse, ?_⟩
    rw [generateResponse, if_pos hresponse]
  · have hnone : c.response = none := by simpa using hresponse
    refine Or.inr ⟨hnone, ?_⟩
    rcases generateResponse_tries env status hnone with ⟨d, hfirst, hout⟩ |
      ⟨d, c', hfirst, hsecond, hout⟩
    · exact ⟨_, d, hout, (tryResponse_responds env hfirst).1, Or.inl ⟨hfirst, rfl⟩⟩
    · obtain ⟨⟨path, connection, hview⟩, htrace, halive, -, hfail⟩ := tryResponse_fails env hfirst
      obtain ⟨⟨⟨path', connection', hview', hclose⟩, hadds, halive'⟩, -⟩ :=
        tryResponse_responds env hsecond
      refine ⟨RES_INTERNAL_ERROR, c', hout, ⟨⟨path', connection', ?_, hclose⟩, ?_, ?_⟩,
        Or.inr ⟨rfl, hfail⟩⟩
      · rw [hview']
        show ({ view d with
          mode := .write
          response := some RES_INTERNAL_ERROR
          path := path'
          connection := connection' } : View) = _
        rw [hview]
      · exact (Adds.of_eq htrace).trans hadds
      · exact halive'.trans halive

/-- A document that can be served from the path of the hints leaves the path alone. -/
theorem generateResponse_path (env : Env) (c : Client) {status : ℤ}
    (hstatus : KeepsPath (statusOf c status)) (htype : (view c).type ≠ .dir)
    (hstat : (env.served.stat (view c).path).isSome = true)
    (hcontent : (env.served.content (view c).path).isSome = true) :
    (view (generateResponse env c status).2).path = (view c).path := by
  have hpath := replyHints_path c hstatus
  rcases generateResponse_cases env c status with ⟨-, hout⟩ | ⟨-, final, c', hout, -, hmade⟩
  · rw [hout]
  · rw [hout]
    rcases hmade with ⟨htry, -⟩ | ⟨-, hfail⟩
    · rw [(tryResponse_responds env htry).2, hpath]
    · rw [← hpath] at hstat hcontent
      rw [genResponse_file env.served env.date (by rwa [replyHints_type]) hstat hcontent] at hfail
      cases hfail

/-- Actions by which a client lets go of its files: the destructor of a process removes
the path of the hints. -/
def Releases (v : View) (a : Action) : Prop :=
  (∃ path, a = .removed path) ∨ ∃ name, v.cgi = some name ∧ a = .destroyed name v.path

theorem deleteCGIProcess_view (c : Client) :
    view c.deleteCGIProcess = { view c with cgi := none } := by
  unfold Client.deleteCGIProcess
  split
  · rename_i hnone
    show view c = { view c with cgi := none }
    have hcgi : (view c).cgi = none := by
      show c.cgiProcess.map CGIProcess.output = none
      rw [hnone]
      rfl
    rw [← hcgi]
  · rfl

theorem deleteCGIProcess_adds (c : Client) : Adds (Releases (view c)) c c.deleteCGIProcess := by
  unfold Client.deleteCGIProcess
  split
  · exact Adds.of_eq rfl
  · rename_i p hsome
    refine Adds.record rfl (Or.inr ⟨p.output, ?_, rfl⟩)
    show c.cgiProcess.map CGIProcess.output = _
    rw [hsome]
    rfl

theorem deleteCGIProcess_alive (c : Client) : c.deleteCGIProcess.alive = c.alive := by
  unfold Client.deleteCGIProcess
  split
  · rfl
  · rfl

theorem deleteBodyStream_view (c : Client) : view c.deleteBodyStream = view c := by
  unfold Client.deleteBodyStream
  split
  · rfl
  · dsimp only
    split
    · rfl
    · rfl

theorem deleteBodyStream_adds (c : Client) :
    Adds (fun a => ∃ path, a = .removed path) c c.deleteBodyStream := by
  unfold Client.deleteBodyStream
  split
  · exact Adds.of_eq rfl
  · dsimp only
    split
    · exact Adds.record rfl ⟨_, rfl⟩
    · exact Adds.of_eq rfl

theorem deleteBodyStream_alive (c : Client) : c.deleteBodyStream.alive = c.alive := by
  unfold Client.deleteBodyStream
  split
  · rfl
  · dsimp only
    split
    · rfl
    · rfl

/-- The view of a client that waits for a request. -/
def fresh (mode : Mode) : View where
  mode := mode
  response := none
  cgi := none
  header := .ongoing
  body := .none
  type := .noMatch
  path := []
  connection := []
  expect := []

theorem clear_view (c : Client) : view c.clear = fresh c.mode := by
  have hmode : c.deleteBodyStream.deleteCGIProcess.mode = c.mode := by
    have hview := congrArg View.mode (deleteCGIProcess_view c.deleteBodyStream)
    rw [deleteBodyStream_view] at hview
    exact hview
  have hcgi : c.deleteBodyStream.deleteCGIProcess.cgiProcess.map CGIProcess.output = none :=
    congrArg View.cgi (deleteCGIProcess_view c.deleteBodyStream)
  show ({ fresh c.deleteBodyStream.deleteCGIProcess.mode with
    cgi := c.deleteBodyStream.deleteCGIProcess.cgiProcess.map CGIProcess.output } : View) = _
  rw [hmode, hcgi]
  rfl

theorem clear_adds (c : Client) : Adds (Releases (view c)) c c.clear := by
  have hcgi := deleteCGIProcess_adds c.deleteBodyStream
  rw [deleteBodyStream_view] at hcgi
  refine (((deleteBodyStream_adds c).mono ?_).trans hcgi).trans (Adds.of_eq rfl)
  intro a ha
  exact Or.inl ha

theorem clear_alive (c : Client) : c.clear.alive = c.alive :=
  (deleteCGIProcess_alive c.deleteBodyStream).trans (deleteBodyStream_alive c)

theorem terminate_adds (c : Client) :
    Adds (fun a => Releases (view c) a ∨ a = .terminated) c c.terminate := by
  refine ((clear_adds c).mono ?_).trans (Adds.record rfl (Or.inr rfl))
  intro a ha
  exact Or.inl ha

/-- The outcome of writing one buffer. -/
inductive Written (c : Client) : Situation → Client → Prop
  | pending {c' : Client} : view c' = view c → c'.outBuffers ≠ [] → Written c .pending c'
  | close {c' : Client} : view c' = view c → Written c .close c'
  | keepAlive {c' : Client} : view c' = view c → (view c).connection ≠ ascii "close" →
      Written c .keepAlive c'
  | proceed {c' : Client} : (view c).expect = CONTINUE → (view c).response = some 100 →
      view c' = { view c with expect := [] } → Written c .continue c'

theorem afterWrite_written (c : Client) :
    Written c (afterWrite c).1 (afterWrite c).2 ∧ (afterWrite c).2.trace = c.trace ∧
      (afterWrite c).2.alive = c.alive := by
  unfold afterWrite
  split
  · rename_i hne
    exact ⟨.pending rfl hne, rfl, rfl⟩
  · split
    · rename_i hcontinue
      refine ⟨.proceed hcontinue.1 hcontinue.2 ?_, rfl, rfl⟩
      have herase : (c.getRequest.removeHeader (ascii "expect")).getHeader (ascii "expect") =
          [] := by
        unfold Request.removeHeader Request.getHeader
        rw [OrderedMap.find?_erase_same _ (by decide)]
        rfl
      show ({ view c with
        expect := (c.getRequest.removeHeader (ascii "expect")).getHeader (ascii "expect") } :
          View) = _
      rw [herase]
    · split
      · exact ⟨.close rfl, rfl, rfl⟩
      · rename_i hclose
        exact ⟨.keepAlive rfl hclose, rfl, rfl⟩

theorem writeBuffer_view {written : Bytes → ℤ} {c d : Client}
    (h : writeBuffer written c = some d) :
    view d = view c ∧ Adds Quiet c d ∧ d.alive = c.alive := by
  unfold writeBuffer at h
  split at h
  · cases h
    exact ⟨rfl, Adds.of_eq rfl, rfl⟩
  · split at h
    · cases h
    · cases h
      exact ⟨rfl, Adds.record rfl ⟨fun h => h, fun h => h⟩, rfl⟩

theorem handleClientOut_written (written : Bytes → ℤ) (c : Client) :
    Written c (handleClientOut written c).1 (handleClientOut written c).2 ∧
      Adds Quiet c (handleClientOut written c).2 ∧
        (handleClientOut written c).2.alive = c.alive := by
  unfold handleClientOut
  cases hwrite : writeBuffer written c with
  | none => exact ⟨.close rfl, Adds.of_eq rfl, rfl⟩
  | some d =>
    obtain ⟨hview, hadds, halive⟩ := writeBuffer_view hwrite
    obtain ⟨hwritten, htrace, halive'⟩ := afterWrite_written d
    refine ⟨?_, hadds.trans (Adds.of_eq htrace), halive'.trans halive⟩
    cases hafter : afterWrite d with
    | mk situation d' =>
      rw [hafter] at hwritten
      dsimp only at hwritten ⊢
      rw [hafter]
      cases hwritten with
      | pending hview' hne => exact .pending (hview'.trans hview) hne
      | close hview' => exact .close (hview'.trans hview)
      | keepAlive hview' hclose => exact .keepAlive (hview'.trans hview) (by rwa [hview] at hclose)
      | proceed hexpect hresponse hview' =>
        rw [hview] at hexpect hresponse hview'
        exact .proceed hexpect hresponse hview'

/-- What the headers of a cgi process leave alone. -/
def CgiKeeps (r r' : Request) : Prop :=
  r'.type = r.type ∧ r'.headers = r.headers ∧ r'.resHints.path = r.resHints.path ∧
    r'.resHints.getHeader CONNECTION = r.resHints.getHeader CONNECTION

theorem extractHeader_hints (p : CgiReader) :
    Ends p.extractHeader fun out => ∃ cookies, out.2.hints = { p.hints with cookies := cookies } := by
  unfold CgiReader.extractHeader
  split
  · exact ends_pure.mpr ⟨p.hints.cookies, rfl⟩
  · refine Ends.bind_any ?_
    intro key
    refine Ends.bind_any ?_
    intro value
    split
    · exact ends_pure.mpr ⟨_, rfl⟩
    · exact ends_pure.mpr ⟨p.hints.cookies, rfl⟩

theorem getLine_hints (p : CgiReader) (buffer : Bytes) :
    Ends (p.getLine buffer) fun out => ∀ q rest, out = some (q, rest) → q.hints = p.hints := by
  unfold CgiReader.getLine
  split
  · refine ends_pure.mpr ?_
    intro q rest h
    cases h
  · refine Ends.bind_any ?_
    intro line
    refine Ends.bind_any ?_
    intro rest
    refine ends_pure.mpr ?_
    intro q rest' h
    cases h
    rfl

theorem readLines_hints (fuel : ℕ) (p : CgiReader) (buffer : Bytes) :
    Ends (p.readLines fuel buffer) fun out => ∃ cookies status,
      out.2.hints = { p.hints with cookies := cookies, status := status } := by
  induction fuel generalizing p buffer with
  | zero => exact ends_pure.mpr ⟨p.hints.cookies, p.hints.status, rfl⟩
  | succ fuel ih =>
    unfold CgiReader.readLines
    refine Ends.bind (getLine_hints p buffer) ?_
    intro out hout
    split
    · exact ends_pure.mpr ⟨p.hints.cookies, p.hints.status, rfl⟩
    · rename_i q rest
      have hq := hout q rest rfl
      split
      · exact ends_pure.mpr ⟨p.hints.cookies, p.hints.status, hq⟩
      · refine Ends.bind (extractHeader_hints q) ?_
        intro out' hout'
        obtain ⟨res, q'⟩ := out'
        obtain ⟨cookies, hcookies⟩ := hout'
        dsimp only at hcookies ⊢
        split
        · exact ends_pure.mpr ⟨cookies, 500, by rw [hcookies, hq]⟩
        · refine (ih q' rest).mono ?_
          intro out hrest
          obtain ⟨cookies', status, hhints⟩ := hrest
          exact ⟨cookies', status, by rw [hhints, hcookies, hq]⟩

theorem retrieveType_connection (headers : HeaderMap) (hints : ResHints) :
    (Request.retrieveType headers hints).path = hints.path ∧
      (Request.retrieveType headers hints).getHeader CONNECTION = hints.getHeader CONNECTION := by
  have htype : Same iLess (ascii "Content-Type") CONNECTION = false := by decide
  unfold Request.retrieveType
  split
  · exact ⟨rfl, rfl⟩
  · exact ⟨rfl, getHeader_addHeader_of_ne _ htype⟩

theorem inspectHeaders_keeps (headers : HeaderMap) (r : Request) :
    CgiKeeps r (Request.inspectHeaders headers r).2 := by
  have hlocation : Same iLess (ascii "Location") CONNECTION = false := by decide
  unfold Request.inspectHeaders
  dsimp only
  split
  · exact ⟨rfl, rfl, rfl, rfl⟩
  · split
    · obtain ⟨hpath, hconnection⟩ := retrieveType_connection headers
        { (r.resHints.addHeader (ascii "Location")
          ((headers.find? (ascii "Location")).getD [])) with status := 302 }
      exact ⟨rfl, rfl, hpath, hconnection.trans (getHeader_addHeader_of_ne _ hlocation)⟩
    · split
      · exact ⟨rfl, rfl, rfl, rfl⟩
      · split
        · exact ⟨rfl, rfl, rfl, rfl⟩
        · obtain ⟨hpath, hconnection⟩ := retrieveType_connection headers
            { r.resHints with status := 200, hasBody := false }
          exact ⟨rfl, rfl, hpath, hconnection⟩

theorem parseCgiHeaders_keeps (fs : FileSystem) (r : Request) :
    Ends (r.parseCgiHeaders fs) fun out => CgiKeeps r out.2 := by
  unfold Request.parseCgiHeaders
  dsimp only
  refine Ends.bind (readLines_hints _ _ _) ?_
  intro out hout
  obtain ⟨res, p⟩ := out
  obtain ⟨cookies, status, hhints⟩ := hout
  dsimp only at hhints ⊢
  split
  · refine ends_pure.mpr ?_
    rw [hhints]
    exact ⟨rfl, rfl, rfl, rfl⟩
  · obtain ⟨htype, hheaders, hpath, hconnection⟩ := inspectHeaders_keeps p.headers
      { r with resHints := { p.hints with index := p.index } }
    refine ends_pure.mpr ⟨htype, hheaders, hpath.trans ?_, hconnection.trans ?_⟩
    · rw [hhints]
    · rw [hhints]
      rfl

end Webserveau.Replies
