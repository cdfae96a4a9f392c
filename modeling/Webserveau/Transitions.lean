import Webserveau.ParserFrames
import Webserveau.RoutingFrames

/-!
What each handler can do to a client.
The view of a client is what decides how its next event is handled and what is removed
when it is let go. Every handler gets one statement in terms of the view and of the
actions it adds to the trace; the invariants of the event loop follow from these alone.
-/
namespace Webserveau.Transitions

open ByteStrings OrderedMaps Formats Requests Clients EventLoop Checks HeadSafety ParserFrames
  RoutingFrames

structure View where
  mode : Mode
  response : Option ℤ
  cgi : Option Bytes
  header : HeaderStatus
  body : BodyStatus
  type : ReqType
  path : Bytes
  connection : Bytes
  expect : Bytes
  deriving DecidableEq

/-- The names of the processes are those generated for their output files. -/
def view (c : Client) : View where
  mode := c.mode
  response := c.response.map Response.getStatus
  cgi := c.cgiProcess.map CGIProcess.output
  header := c.headerStatus
  body := c.bodyStatus
  type := c.getRequest.type
  path := c.getRequest.resHints.path
  connection := c.getRequest.resHints.getHeader (ascii "connection")
  expect := c.getRequest.getHeader (ascii "expect")

/-- The client adds actions of a kind to its trace. -/
def Adds (P : Action → Prop) (c c' : Client) : Prop :=
  ∃ actions, c'.trace = c.trace ++ actions ∧ ∀ a ∈ actions, P a

theorem Adds.of_eq {P : Action → Prop} {c c' : Client} (h : c'.trace = c.trace) : Adds P c c' :=
  ⟨[], by simpa using h, by simp⟩

theorem Adds.trans {P : Action → Prop} {c c' c'' : Client} (h : Adds P c c')
    (h' : Adds P c' c'') : Adds P c c'' := by
  obtain ⟨actions, htrace, hall⟩ := h
  obtain ⟨actions', htrace', hall'⟩ := h'
  refine ⟨actions ++ actions', by rw [htrace', htrace, List.append_assoc], ?_⟩
  intro a ha
  rcases List.mem_append.mp ha with ha | ha
  · exact hall a ha
  · exact hall' a ha

theorem Adds.mono {P Q : Action → Prop} {c c' : Client} (h : Adds P c c')
    (hPQ : ∀ a, P a → Q a) : Adds Q c c' := by
  obtain ⟨actions, htrace, hall⟩ := h
  exact ⟨actions, htrace, fun a ha => hPQ a (hall a ha)⟩

theorem Adds.record {P : Action → Prop} {c c' : Client} (h : c'.trace = c.trace) {a : Action}
    (ha : P a) : Adds P c (c'.record a) :=
  ⟨[a], by simp [Client.record, h], by simpa using ha⟩

/-- Actions that carry out a request. -/
def Executes : Action → Prop
  | .opened _ => True
  | .deleted _ => True
  | .spawned _ => True
  | _ => False

/-- The end of a process that removes a file other than its output. -/
def Misplaced : Action → Prop
  | .destroyed output path => output ≠ path
  | _ => False

/-- Actions that neither carry out a request nor misplace a removal. -/
def Quiet (a : Action) : Prop := ¬ Executes a ∧ ¬ Misplaced a

/-- The part of a request that a client's view shows, with what decides on its body. -/
def SameView (r r' : Request) : Prop :=
  r'.type = r.type ∧ r'.headers = r.headers ∧ r'.resHints.path = r.resHints.path ∧
    r'.resHints.headers = r.resHints.headers ∧ r'.resHints.cgiRedir = r.resHints.cgiRedir

theorem SameView.refl (r : Request) : SameView r r := ⟨rfl, rfl, rfl, rfl, rfl⟩

theorem view_setRequest (c : Client) {r : Request} (h : SameView c.getRequest r) :
    view (c.setRequest r) = view c := by
  obtain ⟨htype, hheaders, hpath, hhints, -⟩ := h
  have hexpect : r.getHeader (ascii "expect") = c.getRequest.getHeader (ascii "expect") := by
    rw [Request.getHeader, hheaders]
    rfl
  have hconnection : r.resHints.getHeader (ascii "connection") =
      c.getRequest.resHints.getHeader (ascii "connection") := by
    rw [ResHints.getHeader, hhints]
    rfl
  change ({ view c with
    type := r.type
    path := r.resHints.path
    connection := r.resHints.getHeader (ascii "connection")
    expect := r.getHeader (ascii "expect") } : View) = view c
  rw [htype, hpath, hexpect, hconnection]
  rfl

theorem getHeader_addHeader_of_ne {hints : ResHints} {j k : Bytes} (v : Bytes)
    (h : Same iLess j k = false) : (hints.addHeader j v).getHeader k = hints.getHeader k := by
  unfold ResHints.getHeader ResHints.addHeader
  rw [OrderedMap.find?_insert_of_not_same _ v h]

theorem getHeader_addHeader_self (hints : ResHints) (k v : Bytes) :
    (hints.addHeader k v).getHeader k = v := by
  unfold ResHints.getHeader ResHints.addHeader
  rw [OrderedMap.find?_insert_self]
  rfl

/-- Nothing is due: a head is complete and no body is expected. -/
def Idle (c : Client) : Prop :=
  c.headerStatus ≠ .ongoing ∧ ¬ (c.headerStatus = .done ∧ c.bodyStatus = .ongoing)

/-- The parser only moves the phase of the part it reads. -/
inductive Parsed (c : Client) (res : ℤ) (c' : Client) : Prop
  | head (expect : Bytes) : c.headerStatus = .ongoing →
      view c' = { view c with
        header := if res < 0 then .ready else .ongoing
        expect := expect } → Parsed c res c'
  | body (expect : Bytes) : c.headerStatus = .done → c.bodyStatus = .ongoing →
      view c' = { view c with
        body := if res < 0 then .done else .ongoing
        expect := expect } → Parsed c res c'
  | idle : Idle c → res = 0 → view c' = view c → Parsed c res c'

theorem parseRequest_parsed (c : Client) (bytes : Bytes) :
    Ends (c.parseRequest bytes) fun out =>
      Answer out.1 ∧ Parsed c out.1 out.2 ∧ out.2.trace = c.trace ∧ out.2.alive = c.alive ∧
        Keeps c.getRequest out.2.getRequest := by
  unfold Client.parseRequest
  split
  · rename_i hheader
    refine Ends.bind (P := fun out => Answer out.1 ∧ Keeps c.getRequest out.2.1) ?_ ?_
    · intro out hout
      exact ⟨parseHeaders_answer _ _ hout, parseHeaders_keeps _ _ _ hout⟩
    · intro out hout
      obtain ⟨res, r, rest⟩ := out
      obtain ⟨hanswer, hkeeps⟩ := hout
      obtain ⟨htype, status, verbose, hhints⟩ := hkeeps
      refine ends_pure.mpr ⟨hanswer, .head (r.getHeader (ascii "expect")) hheader ?_, rfl, rfl,
        htype, status, verbose, hhints⟩
      change ({ view c with
        header := if res < 0 then .ready else .ongoing
        type := r.type
        path := r.resHints.path
        connection := r.resHints.getHeader (ascii "connection")
        expect := r.getHeader (ascii "expect") } : View) = _
      rw [htype, hhints]
      rfl
  · rename_i hheader
    split
    · rename_i hbody
      refine Ends.bind (parseInput_call _ _) ?_
      intro out hout
      obtain ⟨res, ⟨r, stream⟩, rest⟩ := out
      obtain ⟨hanswer, hkeeps⟩ := hout
      obtain ⟨htype, status, verbose, hhints⟩ := hkeeps
      dsimp only at htype hhints
      refine ends_pure.mpr ⟨hanswer, .body (r.getHeader (ascii "expect")) hbody.1 hbody.2 ?_,
        rfl, rfl, htype, status, verbose, hhints⟩
      change ({ view c with
        body := if res < 0 then .done else .ongoing
        type := r.type
        path := r.resHints.path
        connection := r.resHints.getHeader (ascii "connection")
        expect := r.getHeader (ascii "expect") } : View) = _
      rw [htype, hhints]
      rfl
    · rename_i hbody
      exact ends_pure.mpr ⟨Or.inl rfl, .idle ⟨hheader, hbody⟩ rfl rfl, rfl, rfl, Keeps.refl _⟩

/-- A check of a request passes with 0 or refuses with a status from 300 on. -/
def Verdict (res : ℤ) : Prop := res = 0 ∨ 300 ≤ res

theorem Verdict.refused (status : ℤ) (h : 300 ≤ status) : Verdict status := Or.inr h

theorem verdict_of_judges {res : ℤ} (h : Judges res) : Verdict res := by
  have hall : ∀ status ∈ refusals, 300 ≤ status := by decide
  exact h.imp id (hall res)

theorem parseURI_same (r : Request) :
    Ends r.parseURI fun out => SameView r out.2 ∧ Verdict out.1 := by
  refine (parseURI_cases r).mono ?_
  rintro out (⟨p, verbose, rfl⟩ | ⟨p, rfl⟩)
  · exact ⟨⟨rfl, rfl, rfl, rfl, rfl⟩, Verdict.refused 400 (by decide)⟩
  · exact ⟨⟨rfl, rfl, rfl, rfl, rfl⟩, Or.inl rfl⟩

theorem checkForbiddenHeaders_same (r : Request) :
    SameView r (checkForbiddenHeaders r).2 ∧ Verdict (checkForbiddenHeaders r).1 := by
  refine ⟨?_, verdict_of_judges (checkForbiddenHeaders_routes r).2⟩
  rcases checkForbiddenHeaders_cases r with hpass | ⟨status, verbose, -, hrefuse⟩
  · rw [hpass]
    exact SameView.refl r
  · rw [hrefuse]
    exact ⟨rfl, rfl, rfl, rfl, rfl⟩

/-- What routing keeps: it may settle the type and the path of a request. -/
def Routed (r r' : Request) : Prop :=
  r'.headers = r.headers ∧ r'.resHints.headers = r.resHints.headers ∧
    r'.resHints.cgiRedir = r.resHints.cgiRedir

theorem routed_of_routes {r r' : Request} (h : Routes r r') : Routed r r' := by
  rw [h.rest]
  exact ⟨rfl, rfl, rfl⟩

/-- A check that only writes to the hints of the request. -/
def Noting (check : Request → ℤ × Request) : Prop :=
  ∀ r, ∃ hints, (check r).2 = { r with resHints := hints }

theorem checkLocationRules_noting : Noting Host.checkLocationRules := by
  intro r
  unfold Host.checkLocationRules
  split
  · exact ⟨r.resHints, rfl⟩
  · split
    · exact ⟨_, rfl⟩
    · split
      · exact ⟨_, rfl⟩
      · exact ⟨r.resHints, rfl⟩

theorem checkCGIRules_noting : Noting Host.checkCGIRules := by
  intro r
  unfold Host.checkCGIRules
  split
  · exact ⟨r.resHints, rfl⟩
  · split
    · exact ⟨_, rfl⟩
    · exact ⟨r.resHints, rfl⟩

theorem checkRessourceExistence_noting (fs : FileSystem) :
    Noting (Host.checkRessourceExistence fs) := by
  intro r
  unfold Host.checkRessourceExistence
  split
  · exact ⟨_, rfl⟩
  · split
    · exact ⟨_, rfl⟩
    · exact ⟨_, rfl⟩

theorem checkRedirection_passes {r s : Request} (h : Host.checkRedirection r = (0, s)) :
    s = r ∧ ∀ location, r.resHints.locationRules = some location → location.redir = 0 := by
  unfold Host.checkRedirection at h
  split at h
  · rename_i hnone
    refine ⟨(congrArg Prod.snd h).symm, ?_⟩
    intro location hsome
    rw [hnone] at hsome
    cases hsome
  · rename_i location hlocation
    split at h
    · rename_i hredir
      refine ⟨(congrArg Prod.snd h).symm, ?_⟩
      intro location' hsome
      rw [hlocation, Option.some.injEq] at hsome
      rw [← hsome]
      exact hredir
    · rename_i hredir
      exact absurd (congrArg Prod.fst h) hredir

theorem checkRedirection_accepted (r : Request) :
    (Host.checkRedirection r).1 = 0 → (Host.checkRedirection r).2 = r :=
  fun h => (checkRedirection_passes (Prod.ext h rfl)).1

theorem checkRequest_routed (host : Host) (fs : FileSystem) (r : Request) :
    Ends (host.checkRequest fs r) fun out => Routed r out.2 ∧ Verdict out.1 :=
  (checkRequest_routes host fs r).mono fun _ h => ⟨routed_of_routes h.1, verdict_of_judges h.2⟩

/-- A client whose request is being checked: the body, the type and the path are settled. -/
structure Checking (c c' : Client) : Prop where
  settled : ∃ body type path, view c' = { view c with body := body, type := type, path := path }
  trace_eq : c'.trace = c.trace
  alive_eq : c'.alive = c.alive
  redir_eq : c'.getRequest.resHints.cgiRedir = c.getRequest.resHints.cgiRedir
  body_eq : c.getRequest.resHints.cgiRedir ≠ .none → c'.bodyStatus = c.bodyStatus

theorem Checking.of_sameView {c c' : Client} (hview : view c' = view c)
    (htrace : c'.trace = c.trace) (halive : c'.alive = c.alive)
    (hredir : c'.getRequest.resHints.cgiRedir = c.getRequest.resHints.cgiRedir) :
    Checking c c' where
  settled := ⟨_, _, _, hview⟩
  trace_eq := htrace
  alive_eq := halive
  redir_eq := hredir
  body_eq := fun _ => congrArg View.body hview

theorem Checking.refl (c : Client) : Checking c c := Checking.of_sameView rfl rfl rfl rfl

theorem Checking.trans {c c' c'' : Client} (h : Checking c c') (h' : Checking c' c'') :
    Checking c c'' where
  settled := by
    obtain ⟨body, type, path, hview⟩ := h.settled
    obtain ⟨body', type', path', hview'⟩ := h'.settled
    exact ⟨body', type', path', by rw [hview', hview]⟩
  trace_eq := h'.trace_eq.trans h.trace_eq
  alive_eq := h'.alive_eq.trans h.alive_eq
  redir_eq := h'.redir_eq.trans h.redir_eq
  body_eq := fun hredir => (h'.body_eq (by rwa [h.redir_eq])).trans (h.body_eq hredir)

theorem assignHost_checking (c : Client) :
    Checking c (assignHost c).2 ∧ Verdict (assignHost c).1 := by
  unfold assignHost
  dsimp only
  split
  · constructor
    · exact Checking.of_sameView rfl rfl rfl rfl
    · exact Verdict.refused 400 (by decide)
  · refine ⟨?_, Or.inl rfl⟩
    unfold Client.setHost
    split
    · exact Checking.refl c
    · exact Checking.of_sameView rfl rfl rfl rfl

theorem onRequest_checking {check : Request → Checked (ℤ × Request)} (c : Client)
    (h : Ends (check c.getRequest) fun out =>
      SameView c.getRequest out.2 ∧ Verdict out.1) :
    Ends (onRequest check c) fun out => Checking c out.2 ∧ Verdict out.1 := by
  refine Ends.bind h ?_
  intro out hout
  refine ends_pure.mpr ⟨?_, hout.2⟩
  exact Checking.of_sameView (view_setRequest c hout.1) rfl rfl hout.1.2.2.2.2

theorem checkRequest_checking (c : Client) (host : Host) (fs : FileSystem) :
    Ends (onRequest (host.checkRequest fs) c) fun out => Checking c out.2 ∧ Verdict out.1 := by
  refine Ends.bind (checkRequest_routed host fs c.getRequest) ?_
  intro out hout
  obtain ⟨res, r⟩ := out
  obtain ⟨⟨hheaders, hhints, hredir⟩, hverdict⟩ := hout
  refine ends_pure.mpr ⟨?_, hverdict⟩
  refine ⟨⟨(view c).body, r.type, r.resHints.path, ?_⟩, rfl, rfl, hredir, fun _ => rfl⟩
  dsimp only at hheaders hhints
  have hexpect : r.getHeader (ascii "expect") = c.getRequest.getHeader (ascii "expect") := by
    rw [Request.getHeader, hheaders]
    rfl
  have hconnection : r.resHints.getHeader (ascii "connection") =
      c.getRequest.resHints.getHeader (ascii "connection") := by
    rw [ResHints.getHeader, hhints]
    rfl
  show ({ view c with
    type := r.type
    path := r.resHints.path
    connection := r.resHints.getHeader (ascii "connection")
    expect := r.getHeader (ascii "expect") } : View) = _
  rw [hexpect, hconnection]
  rfl

theorem withLength_same (r : Request) : SameView r (withLength r) := by
  unfold withLength
  split
  · exact ⟨rfl, rfl, rfl, rfl, rfl⟩
  · exact SameView.refl r

theorem announceBody_checking (c : Client) (hredir : c.getRequest.resHints.cgiRedir = .none) :
    Checking c (announceBody c) := by
  unfold announceBody
  dsimp only
  split
  · have hsame : SameView c.getRequest (Request.setBodyMaxSize
        (if isChunked c.getRequest then c.getRequest.setChunked true else c.getRequest)
        (getMaxSize c)) := by
      split
      · exact ⟨rfl, rfl, rfl, rfl, rfl⟩
      · exact ⟨rfl, rfl, rfl, rfl, rfl⟩
    have hview := view_setRequest c hsame
    refine ⟨⟨.ongoing, (view c).type, (view c).path, ?_⟩, rfl, rfl, hsame.2.2.2.2, ?_⟩
    · show ({ view (c.setRequest _) with body := .ongoing } : View) = _
      rw [hview]
    · intro hne
      exact absurd hredir hne
  · exact Checking.refl c

theorem checkBodyLength_checking (c : Client) (hredir : c.getRequest.resHints.cgiRedir = .none) :
    Checking c (checkBodyLength c).2 ∧ Verdict (checkBodyLength c).1 := by
  unfold checkBodyLength
  dsimp only
  split
  · constructor
    · exact Checking.of_sameView rfl rfl rfl rfl
    · exact Verdict.refused 413 (by decide)
  · have hsame := withLength_same c.getRequest
    refine ⟨?_, Or.inl rfl⟩
    refine Checking.trans (Checking.of_sameView (view_setRequest c hsame) rfl rfl hsame.2.2.2.2) ?_
    exact announceBody_checking _ (hsame.2.2.2.2.trans hredir)

theorem checkNewBody_checking (c : Client) :
    Checking c (checkNewBody c).2 ∧ Verdict (checkNewBody c).1 := by
  unfold checkNewBody
  split
  · rename_i hredir
    exact checkBodyLength_checking c hredir
  · exact ⟨Checking.refl c, Or.inl rfl⟩

theorem setBodyFile_view (c : Client) (path : Bytes) (opens : Bool) :
    view (c.setBodyFile path opens) = view c := by
  unfold Client.setBodyFile
  dsimp only
  split
  · rfl
  · rfl

theorem setBodyFile_adds (c : Client) (path : Bytes) (opens : Bool) :
    Adds (fun a => a = .opened path) c (c.setBodyFile path opens) := by
  unfold Client.setBodyFile
  dsimp only
  split
  · exact Adds.record rfl rfl
  · exact Adds.of_eq rfl

theorem keepContentType_view (c : Client) : view (keepContentType c) = view c := by
  unfold keepContentType
  dsimp only
  split
  · show ({ view c with
      connection := (c.getRequest.resHints.addHeader (ascii "content-type") _).getHeader
        (ascii "connection") } : View) = _
    rw [getHeader_addHeader_of_ne _ (by decide)]
    rfl
  · rfl

/-- Where the parsing of a body is set up, only the path and the trace can change. -/
structure Prepares (c c' : Client) : Prop where
  settled : ∃ path, view c' = { view c with path := path }
  alive_eq : c'.alive = c.alive
  adds : Adds (fun a => ∃ path, a = .opened path) c c'

theorem keepContentType_prepares {c c' : Client} (h : Prepares c c') :
    Prepares c (keepContentType c') where
  settled := by
    obtain ⟨path, hview⟩ := h.settled
    exact ⟨path, by rw [keepContentType_view, hview]⟩
  alive_eq := by
    rw [← h.alive_eq]
    unfold keepContentType
    dsimp only
    split
    · rfl
    · rfl
  adds := by
    refine h.adds.trans (Adds.of_eq ?_)
    unfold keepContentType
    dsimp only
    split
    · rfl
    · rfl

theorem setBodyFile_prepares (c : Client) (path : Bytes) (opens : Bool) :
    Prepares c (c.setBodyFile path opens) where
  settled := ⟨_, setBodyFile_view c path opens⟩
  alive_eq := by
    unfold Client.setBodyFile
    dsimp only
    split
    · rfl
    · rfl
  adds := (setBodyFile_adds c path opens).mono fun a ha => ⟨path, ha⟩

theorem setUnlink_prepares {c c' : Client} (h : Prepares c c') (unlink : Bool) :
    Prepares c (setUnlink c' unlink) where
  settled := h.settled
  alive_eq := h.alive_eq
  adds := h.adds

theorem uploadTo_prepares (env : Env) (c : Client) (filePath : Bytes) (status : ℤ)
    (alreadyExist : Bool) : Prepares c (uploadTo env c filePath status alreadyExist) := by
  unfold uploadTo
  refine keepContentType_prepares (setUnlink_prepares ?_ false)
  have h := setBodyFile_prepares (c.setRequest { c.getRequest with
    resHints := { c.getRequest.resHints with
      alreadyExist := alreadyExist
      status := status
      path := filePath } }) filePath env.opens
  refine ⟨?_, h.alive_eq, h.adds⟩
  obtain ⟨path, hview⟩ := h.settled
  exact ⟨path, hview⟩

theorem defineBodyParsing_prepares (env : Env) (c : Client) :
    Prepares c (defineBodyParsing env c) := by
  have hrefuse : Prepares c (c.setRequest (c.getRequest.setHintStatus RES_FORBIDDEN)) :=
    ⟨⟨_, rfl⟩, rfl, Adds.of_eq rfl⟩
  unfold defineBodyParsing
  dsimp only
  split
  · exact keepContentType_prepares (setUnlink_prepares (setBodyFile_prepares _ _ _) true)
  · split
    · split
      · exact uploadTo_prepares _ _ _ _ _
      · split
        · exact hrefuse
        · exact uploadTo_prepares _ _ _ _ _
      · exact hrefuse
    · exact keepContentType_prepares (setBodyFile_prepares _ _ _)

abbrev CONTINUE : Bytes := ascii "100-continue"

/-- A refused request: the response is not made yet. -/
structure Refused (c : Client) (res : ℤ) (c' : Client) : Prop where
  verdict : 300 ≤ res
  settled : ∃ body type path expect, view c' =
    { view c with body := body, type := type, path := path, expect := expect }
  trace_eq : c'.trace = c.trace
  alive_eq : c'.alive = c.alive
  body_eq : c.getRequest.resHints.cgiRedir ≠ .none → c'.bodyStatus = c.bodyStatus

/-- An accepted request: its head is done, and the answer 100 is made when it waits for it. -/
structure Accepted (c : Client) (res : ℤ) (c' : Client) : Prop where
  verdict : res = 0
  settled : ∃ body type path, view c' =
    if (view c).expect = CONTINUE then
      { view c with
        header := .done
        body := body
        type := type
        path := path
        mode := .write
        response := some 100 }
    else { view c with header := .done, body := body, type := type, path := path }
  adds : Adds (fun a => ¬ Misplaced a ∧
    (Executes a → c.getRequest.resHints.cgiRedir = .none)) c c'
  alive_eq : c'.alive = c.alive
  body_eq : c.getRequest.resHints.cgiRedir ≠ .none → c'.bodyStatus = c.bodyStatus

theorem generateContinueResponse_view (c : Client) :
    view (generateContinueResponse c) = { view c with mode := .write, response := some 100 } := rfl

theorem acceptHeaders_accepted (env : Env) {c : Client} {res : ℤ}
    (hres : res = RES_CONTINUE ∧ (view c).expect = CONTINUE ∨
      res = 0 ∧ (view c).expect ≠ CONTINUE) :
    Accepted c (acceptHeaders env res c).1 (acceptHeaders env res c).2 := by
  have hprepares : ∀ d, d = (if c.getRequest.resHints.cgiRedir = .none then
      defineBodyParsing env c else c) → (∃ path, view d = { view c with path := path }) ∧
        d.alive = c.alive ∧ Adds (fun a => ¬ Misplaced a ∧
          (Executes a → c.getRequest.resHints.cgiRedir = .none)) c d := by
    intro d hd
    subst hd
    split
    · rename_i hredir
      obtain ⟨hview, halive, hadds⟩ := defineBodyParsing_prepares env c
      refine ⟨hview, halive, hadds.mono ?_⟩
      intro a ⟨path, ha⟩
      subst ha
      exact ⟨fun h => h, fun _ => hredir⟩
    · exact ⟨⟨_, rfl⟩, rfl, Adds.of_eq rfl⟩
  unfold acceptHeaders
  generalize hd : (if c.getRequest.resHints.cgiRedir = .none then
    defineBodyParsing env c else c) = d
  obtain ⟨⟨path, hview⟩, halive, hadds⟩ := hprepares d hd.symm
  have hbody : d.bodyStatus = c.bodyStatus := congrArg View.body hview
  dsimp only
  rcases hres with ⟨rfl, hexpect⟩ | ⟨rfl, hexpect⟩
  · rw [if_pos rfl]
    refine ⟨rfl, ⟨(view c).body, (view c).type, path, ?_⟩, ?_, halive, fun _ => hbody⟩
    · rw [if_pos hexpect, generateContinueResponse_view]
      show ({ view d with header := .done, mode := .write, response := some 100 } : View) = _
      rw [hview]
    · refine hadds.trans (Adds.record rfl ?_)
      exact ⟨fun h => h, fun h => h.elim⟩
  · rw [if_neg (by decide)]
    refine ⟨rfl, ⟨(view c).body, (view c).type, path, ?_⟩, ?_, halive, fun _ => hbody⟩
    · rw [if_neg hexpect]
      show ({ view d with header := .done } : View) = _
      rw [hview]
    · exact hadds.trans (Adds.of_eq rfl)

/-- The verdict of the headers, in terms of the client the check starts with. -/
def HeadersChecked (c : Client) (out : ℤ × Client) : Prop :=
  Refused c out.1 out.2 ∨ Accepted c out.1 out.2

theorem finishHeaders_checked (env : Env) (c : Client) :
    HeadersChecked c (finishHeaders env c) := by
  unfold finishHeaders checkContinue
  dsimp only
  by_cases hexpect : c.getRequest.getHeader (ascii "expect") = ascii "100-continue"
  · rw [if_pos hexpect]
    by_cases hbody : c.bodyStatus = .none
    · rw [if_pos hbody]
      dsimp only
      rw [if_pos (by decide)]
      exact Or.inl ⟨(by decide : (300 : ℤ) ≤ 400),
        ⟨(view c).body, (view c).type, (view c).path, _, rfl⟩, rfl,
        rfl, fun _ => rfl⟩
    · rw [if_neg hbody]
      dsimp only
      rw [if_neg (by decide)]
      exact Or.inr (acceptHeaders_accepted env (Or.inl ⟨rfl, hexpect⟩))
  · rw [if_neg hexpect]
    by_cases hother : c.getRequest.getHeader (ascii "expect") = []
    · rw [if_neg (not_not_intro hother), if_neg (fun h => h.1 rfl)]
      exact Or.inr (acceptHeaders_accepted env (Or.inr ⟨rfl, hexpect⟩))
    · rw [if_pos hother]
      dsimp only
      rw [if_pos (by decide)]
      exact Or.inl ⟨(by decide : (300 : ℤ) ≤ 417),
        ⟨(view c).body, (view c).type, (view c).path, _, rfl⟩, rfl,
        rfl, fun _ => rfl⟩

theorem HeadersChecked.after {c c' : Client} {out : ℤ × Client} (h : Checking c c')
    (h' : HeadersChecked c' out) : HeadersChecked c out := by
  obtain ⟨body, type, path, hview⟩ := h.settled
  rcases h' with h' | h'
  · obtain ⟨body', type', path', expect', hview'⟩ := h'.settled
    refine Or.inl ⟨h'.verdict, ⟨body', type', path', expect', by rw [hview', hview]⟩,
      h'.trace_eq.trans h.trace_eq, h'.alive_eq.trans h.alive_eq, ?_⟩
    intro hredir
    rw [h'.body_eq (by rwa [h.redir_eq]), h.body_eq hredir]
  · obtain ⟨body', type', path', hview'⟩ := h'.settled
    refine Or.inr ⟨h'.verdict, ⟨body', type', path', ?_⟩, ?_, h'.alive_eq.trans h.alive_eq, ?_⟩
    · rw [hview', hview]
    · refine (Adds.of_eq h.trace_eq).trans (h'.adds.mono ?_)
      intro a ha
      rwa [h.redir_eq] at ha
    · intro hredir
      rw [h'.body_eq (by rwa [h.redir_eq]), h.body_eq hredir]

/-- A check that passes or refuses, followed by the rest of the checks. -/
theorem andThen_checked {c : Client} {first : Checked (ℤ × Client)}
    {next : Client → Checked (ℤ × Client)}
    (hfirst : Ends first fun out => Checking c out.2 ∧ Verdict out.1)
    (hnext : ∀ d, Ends (next d) (HeadersChecked d)) :
    Ends (andThen first next) (HeadersChecked c) := by
  refine Ends.andThen (I := Checking c) (hfirst.mono ?_) ?_
  · intro out hout
    obtain ⟨hchecking, hverdict⟩ := hout
    refine ⟨fun _ => hchecking, ?_⟩
    intro hne
    obtain ⟨body, type, path, hview⟩ := hchecking.settled
    exact Or.inl ⟨hverdict.resolve_left hne, ⟨body, type, path, (view c).expect, hview⟩,
      hchecking.trace_eq, hchecking.alive_eq, hchecking.body_eq⟩
  · intro d hd
    refine (hnext d).mono ?_
    intro out hout
    exact HeadersChecked.after hd hout

/-- `handleRequestHeaders` refuses the request or accepts it. -/
theorem handleRequestHeaders_checked (env : Env) (c : Client) :
    Ends (handleRequestHeaders env c) (HeadersChecked c) := by
  refine andThen_checked (ends_ok.mpr (assignHost_checking c)) ?_
  intro c
  refine andThen_checked (onRequest_checking c (parseURI_same _)) ?_
  intro c
  refine andThen_checked
    (onRequest_checking c (ends_ok.mpr (checkForbiddenHeaders_same _))) ?_
  intro c
  refine andThen_checked (ends_ok.mpr (checkNewBody_checking c)) ?_
  intro c
  refine andThen_checked (checkRequest_checking c _ _) ?_
  intro c
  exact ends_ok.mpr (finishHeaders_checked env c)

end Webserveau.Transitions
