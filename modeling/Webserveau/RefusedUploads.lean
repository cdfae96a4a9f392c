import Webserveau.BodyShapes
import Webserveau.Uploads

/-!
How a body is taken in without a stream, and how its end is answered.
A target that cannot be written leaves the status 403 in the hints and no stream. The body
is read all the same; where it ends the status is looked at, unless the size is not above 0.
-/
namespace Webserveau.RefusedUploads

open ByteStrings OrderedMaps Formats Requests Clients EventLoop Checks Segmentation HeadSafety
  ParserFrames Transitions Replies BodySegmentation Acceptance BodyIntake ContentLength
  LoopSteps LoopInvariants UploadChecks BodyShapes

/-- The page of a client for the status 403. -/
def forbiddenPage (c : Client) : Bytes := errorPages c ++ IntToString RES_FORBIDDEN ++ ascii ".html"

/-- The page can be looked at and opened. -/
def PageServed (fs : FileSystem) (c : Client) : Prop :=
  (fs.stat (forbiddenPage c)).isSome = true ∧ (fs.content (forbiddenPage c)).isSome = true

theorem replyHints_page (c : Client) :
    (replyHints c RES_FORBIDDEN).path = forbiddenPage c ∧
      (replyHints c RES_FORBIDDEN).status = RES_FORBIDDEN := by
  have hstatus := replyHints_status c RES_FORBIDDEN
  rw [show statusOf c RES_FORBIDDEN = RES_FORBIDDEN from rfl] at hstatus
  refine ⟨?_, hstatus⟩
  have hpage : ∀ r : Request, r.resHints.status = RES_FORBIDDEN →
      (fillResponse (errorPages c) r).path = forbiddenPage c := by
    intro r hr
    have hfilled : (fillErrorPage (errorPages c) r.resHints).path = forbiddenPage c := by
      unfold fillErrorPage
      rw [if_pos (Or.inl (by rw [hr]; decide)), hr]
      rfl
    have hheaders : (fillAdditionnalHeaders r (fillErrorPage (errorPages c) r.resHints)).path =
        forbiddenPage c := by
      rw [← hfilled]
      unfold fillAdditionnalHeaders
      split
      · split
        · rfl
        · rfl
      · rfl
    have hsame : (fillAdditionnalHeaders r (fillErrorPage (errorPages c) r.resHints)).status =
        RES_FORBIDDEN := by
      rw [(fillAdditionnalHeaders_fills (errorPages c) r _).status_eq,
        (fillErrorPage_fills (errorPages c) r.resHints).status_eq, hr]
    show (fillVerboseError _).path = _
    unfold fillVerboseError
    rw [if_neg (by rw [hsame]; decide), if_neg (by rw [hsame]; decide),
      if_neg (by rw [hsame]; decide), if_neg (by rw [hsame]; decide)]
    exact hheaders
  exact hpage _ rfl

theorem genResponse_page (fs : FileSystem) (date : Bytes) (c : Client) :
    (genResponse fs date (replyHints c RES_FORBIDDEN)).1.isSome = true ↔ PageServed fs c := by
  obtain ⟨hpath, hstatus⟩ := replyHints_page c
  have hnonempty : forbiddenPage c ≠ [] := by
    unfold forbiddenPage
    simp [ascii]
  have hkept := (addUniversalHeaders_same date (replyHints c RES_FORBIDDEN)).path_eq
  unfold genResponse
  rw [if_neg (by rw [hstatus]; decide), if_neg]
  · unfold fileResponse inspectFile PageServed
    rw [hkept, hpath]
    cases fs.stat (forbiddenPage c) with
    | none => simp
    | some info =>
      cases fs.content (forbiddenPage c) with
      | none => simp
      | some content => simp
  · rw [hpath, hstatus]
    intro h
    rcases h with h | h
    · exact hnonempty h
    · exact absurd h.1 (by decide)

/-- A status is answered as it is, or with 500 where its response cannot be made. -/
theorem respondTo_answers (env : Env) {c : Client} {status : ℤ} (hpos : 0 < status)
    (htype : c.getRequest.type = .static) (hnone : c.response = none) :
    ∃ final d, respondTo env (status, c) = (0, d) ∧ Responds c final d ∧
      (final = status ∨ final = RES_INTERNAL_ERROR) ∧
      (final = RES_FORBIDDEN ↔ status = RES_FORBIDDEN ∧ PageServed env.served c) := by
  have hstatus : statusOf c status = status := if_pos (by omega)
  have hanswer : respondTo env (status, c) = generateResponse env c status := by
    unfold respondTo handleClientResponse
    rw [if_pos hpos, if_pos (Or.inl (by rw [htype]; exact ReqType.noConfusion))]
  rw [hanswer]
  rcases generateResponse_cases env c status with ⟨hsome, -⟩ |
    ⟨-, final, d, hout, hresponds, hmade⟩
  · rw [hnone] at hsome
    cases hsome
  · refine ⟨final, d, hout, hresponds, ?_⟩
    rw [hstatus] at hmade
    rcases hmade with ⟨htry, hfinal⟩ | ⟨hfinal, hfail⟩
    · refine ⟨Or.inl hfinal, ?_⟩
      rw [hfinal]
      constructor
      · intro hforbidden
        refine ⟨hforbidden, ?_⟩
        rw [hforbidden] at htry
        obtain ⟨r, hints, -, -, -, -, hcases⟩ := tryResponse_eq env c RES_FORBIDDEN
        rcases hcases with ⟨hsome, -⟩ | ⟨-, hfailed⟩
        · exact (genResponse_page _ _ c).mp hsome
        · rw [htry] at hfailed
          cases hfailed
      · exact fun h => h.1
    · refine ⟨Or.inr hfinal, ?_⟩
      constructor
      · intro hforbidden
        rw [hfinal] at hforbidden
        cases hforbidden
      · intro ⟨hforbidden, hserved⟩
        rw [hforbidden, (genResponse_page _ _ c).mpr hserved] at hfail
        cases hfail

/-- The bytes of a body that is open are parsed, and its end is handled. -/
def takeIn (c : Client) (bytes : Bytes) : Checked (ℤ × Client) := do
  let (res, c) ← c.parseRequest bytes
  return finishBody res c

/-- The client after a call of the body parser. -/
def taken (c : Client) (out : Body) (rest : Bytes) (status : BodyStatus) : Client :=
  { c.setRequest out.1 with
    buffer := rest
    bodyStream := out.2
    bodyStatus := status }

/-- A client in the course of the body of an upload. -/
structure Reading (c : Client) : Prop where
  header : c.headerStatus = .done
  body : c.bodyStatus = .ongoing
  stream : c.bodyStream = none
  process : c.cgiProcess = none
  alive : c.alive = true
  type : c.getRequest.type = .static

theorem takeIn_eq {c : Client} (h : Reading c) {bytes rest : Bytes} {res : ℤ} {out : Body}
    (hparse : Request.parseInput (c.getRequest, none) (c.buffer ++ bytes) =
      .ok (res, out, rest)) :
    takeIn c bytes =
      .ok (finishBody res (taken c out rest (if res < 0 then .done else .ongoing))) := by
  have hongoing : ¬ c.headerStatus = .ongoing := by
    rw [h.header]
    exact HeaderStatus.noConfusion
  unfold takeIn Client.parseRequest
  rw [if_neg hongoing, if_pos ⟨h.header, h.body⟩, h.stream, hparse]
  rfl

theorem startBody_takeIn {c : Client} (h : Reading c) : startBody c = takeIn c [] := by
  have hdue : c.bodyStatus ≠ .none := by
    rw [h.body]
    exact BodyStatus.noConfusion
  unfold startBody parseRest takeIn
  rw [if_pos hdue]

theorem receive_takeIn (env : Env) {c : Client} (h : Reading c) (bytes : Bytes) :
    receive env c bytes = takeIn c bytes := by
  have hongoing : ¬ c.headerStatus = .ongoing := by
    rw [h.header]
    exact HeaderStatus.noConfusion
  unfold receive takeIn Client.parseRequest
  rw [if_neg hongoing, if_pos ⟨h.header, h.body⟩]
  cases Request.parseInput (c.getRequest, c.bodyStream) (c.buffer ++ bytes) with
  | error e => rfl
  | ok out =>
    obtain ⟨res, ⟨q, stream⟩, rest⟩ := out
    simp only [bind, Except.bind, pure, Except.pure]
    by_cases hneg : res < 0
    · have hready : ¬ c.headerStatus = .ready := by
        rw [h.header]
        exact HeaderStatus.noConfusion
      rw [if_neg (by omega), if_neg (by exact hready)]
    · rw [if_pos (by omega), if_neg hneg]
      unfold finishBody
      rw [if_neg (fun h => h.2 rfl)]

/-- What the body of an upload to a target that cannot be written is answered. -/
def verdict (shape : Shape) (limit : ℤ) (n : ℕ) : ℤ :=
  if shape.codeAfter limit n = -1 then
    if 0 < shape.sizeAfter n then RES_FORBIDDEN else RES_NO_CONTENT
  else shape.codeAfter limit n

/-- The parser answers with an error of its own or not at all. -/
theorem codeAfter_cases (shape : Shape) (limit : ℤ) (n : ℕ) :
    shape.codeAfter limit n = 0 ∨ shape.codeAfter limit n = -1 ∨
      shape.codeAfter limit n = 400 ∨ shape.codeAfter limit n = 413 := by
  cases shape with
  | empty => exact Or.inr (Or.inl rfl)
  | measured length =>
    have hcode : Shape.codeAfter limit (.measured length) n = if n < length then 0 else -1 := rfl
    rw [hcode]
    split
    · exact Or.inl rfl
    · exact Or.inr (Or.inl rfl)
  | chunked body =>
    have hcode : Shape.codeAfter limit (.chunked body) n =
        if n = 0 then 0 else ChunkedSizes.codeAt body limit n := rfl
    rw [hcode]
    split
    · exact Or.inl rfl
    · unfold ChunkedSizes.codeAt
      split
      · unfold ChunkedMessages.answer
        split
        · exact Or.inr (Or.inr (Or.inl rfl))
        · split
          · exact Or.inr (Or.inr (Or.inr rfl))
          · exact Or.inl rfl
      · exact Or.inr (Or.inl rfl)

theorem verdict_forbidden_iff (shape : Shape) (limit : ℤ) (n : ℕ) :
    verdict shape limit n = RES_FORBIDDEN ↔
      shape.codeAfter limit n = -1 ∧ 0 < shape.sizeAfter n := by
  have hcodes := codeAfter_cases shape limit n
  unfold verdict
  by_cases hdone : shape.codeAfter limit n = -1
  · rw [if_pos hdone]
    by_cases hsize : 0 < shape.sizeAfter n
    · rw [if_pos hsize]
      exact ⟨fun _ => ⟨hdone, hsize⟩, fun _ => rfl⟩
    · rw [if_neg hsize]
      constructor
      · intro h
        cases h
      · exact fun h => absurd h.2 hsize
  · rw [if_neg hdone]
    constructor
    · intro h
      have hforbidden : shape.codeAfter limit n = 403 := h
      omega
    · exact fun h => absurd h.1 hdone

theorem verdict_range (shape : Shape) (limit : ℤ) {n : ℕ} (h : shape.codeAfter limit n ≠ 0) :
    200 < verdict shape limit n := by
  have hcodes := codeAfter_cases shape limit n
  unfold verdict
  split
  · split
    · exact (by decide : (200 : ℤ) < 403)
    · exact (by decide : (200 : ℤ) < 204)
  · omega

/-- An error of the parser is noted in the request. -/
theorem parseInput_fails {limit : ℤ} {shape : Shape} {q : Request} (h : Before limit shape q)
    (hshape : shape ≠ .empty) {sent x : Bytes} (hx : x <+: sent) (hsent : shape.Begins sent)
    {res : ℤ} {out : Body} {rest : Bytes}
    (hparse : Request.parseInput (q, none) x = .ok (res, out, rest)) (hpos : 0 < res) :
    out.1.final_status = .error := by
  obtain ⟨out', rest', hcode, -⟩ := parseInput_codeAfter h hshape hx hsent
  rw [hparse, Except.ok.injEq, Prod.mk.injEq] at hcode
  cases h with
  | empty => exact absurd rfl hshape
  | @measured _ length hreceiving hplain hlength hlen =>
    have hres : res = if x.length < length then 0 else -1 := hcode.1
    split at hres
    · omega
    · omega
  | @chunked _ body hbefore hlimit =>
    have hne : x ≠ [] := by
      intro hnil
      subst hnil
      rw [parseInput_nil, Except.ok.injEq, Prod.mk.injEq] at hparse
      omega
    let stream : BodyStream := { opened := false }
    have hsame := parseInput_headers hbefore.receiving q.headers (some stream) x
    rw [show ({ q with headers := q.headers } : Request) = q from rfl, hparse,
      parseInput_chunked hbefore.receiving hbefore.chunked (some stream) hne] at hsame
    have hmidway : ChunkedIntake.Midway (growBody (entered q) x.length) [] stream.written := by
      refine ⟨[], [], rfl, rfl, ?_⟩
      have hpending : ChunkedIntake.Pending (growBody (entered q) x.length) q.line :=
        .size hbefore.at_size
      rwa [hbefore.line] at hpending
    cases hloop : Request.chunkLoop (growBody (entered q) x.length, some stream) x with
    | error e =>
      rw [hloop] at hsame
      cases hsame
    | ok out'' =>
      have htaken := ChunkedIntake.chunkLoop_takenIn _ x stream [] hmidway out'' hloop
      rw [hloop] at hsame
      have heq : (res, out, rest) = bare q.headers out'' := Except.ok.inj hsame
      have hres : res = out''.1 := congrArg Prod.fst heq
      have hout : out = (bare q.headers out'').2.1 := congrArg (fun out => out.2.1) heq
      rw [hout]
      exact htaken.fails (by omega)

/-- The request of a client stands for the bytes of its body that have come. -/
def Stands (q : Request) (seen : Bytes) (c : Client) : Prop :=
  ∃ headers, StandsFor (fun b : Body => Receiving b.1) Request.parseInput
    ({ q with headers := headers }, none) seen (c.getRequest, none)

theorem Stands.of_headers {q : Request} {seen : Bytes} {c d : Client} (hq : Receiving q)
    (h : Stands q seen c) (headers : HeaderMap)
    (hd : d.getRequest = { c.getRequest with headers := headers }) : Stands q seen d := by
  obtain ⟨headers', hreceiving, hsame⟩ := h
  have hopen : Receiving { q with headers := headers' } :=
    ⟨hq.head_done, hq.body_open, hq.unfinished, hq.framed⟩
  refine ⟨headers, ?_, ?_⟩
  · rw [hd]
    exact ⟨hreceiving.head_done, hreceiving.body_open, hreceiving.unfinished, hreceiving.framed⟩
  · intro y
    rw [hd, parseInput_headers hreceiving headers none y, hsame y,
      ← parseInput_headers hopen headers none (seen ++ y)]

/-- What neither the parser nor the end of a body changes. -/
structure Alike (c d : Client) : Prop where
  header : d.headerStatus = c.headerStatus
  mode : d.mode = c.mode
  response : d.response = c.response
  stream : d.bodyStream = none
  process : d.cgiProcess = c.cgiProcess
  alive : d.alive = c.alive
  pages : errorPages d = errorPages c
  type : d.getRequest.type = c.getRequest.type

/-- No file is created or truncated. -/
def NoFile (a : Action) : Prop := ∀ path, a ≠ .opened path

/-- What more bytes make of a body that is open, when `total` has come of it. -/
inductive Outcome (limit : ℤ) (shape : Shape) (q : Request) (total : Bytes) (c : Client) :
    ℤ × Client → Prop
  | waits {d : Client} : shape.codeAfter limit total.length = 0 → Alike c d →
      d.bodyStatus = .ongoing → d.buffer = [] → (view d).expect = (view c).expect →
      Stands q total d → Adds NoFile c d → Outcome limit shape q total c (0, d)
  | ends {d : Client} : shape.codeAfter limit total.length ≠ 0 → Alike c d →
      (shape.codeAfter limit total.length = -1 → d.bodyStatus = .done) →
      (shape.codeAfter limit total.length ≠ -1 → d.bodyStatus = .ongoing ∧
        d.getRequest.final_status = .error ∧ (view d).expect = (view c).expect) →
      Adds NoFile c d → Outcome limit shape q total c (verdict shape limit total.length, d)

theorem takeIn_outcome {limit : ℤ} {shape : Shape} {q : Request} (hq : Before limit shape q)
    (hshape : shape ≠ .empty) (hmethod : q.method = some .POST ∨ q.method = some .PUT)
    (htype : q.type = .static) (hnoted : q.resHints.status = RES_FORBIDDEN) {c : Client}
    (h : Reading c) {seen sent bytes : Bytes} (hstands : Stands q seen c)
    (hsent : shape.Begins sent) (htotal : seen ++ (c.buffer ++ bytes) <+: sent) :
    ∃ out, takeIn c bytes = .ok out ∧
      Outcome limit shape q (seen ++ (c.buffer ++ bytes)) c out := by
  obtain ⟨headers, hstands⟩ := hstands
  have hbefore : Before limit shape { q with headers := headers } :=
    hq.of_hints headers q.resHints
  obtain ⟨out, rest, hparse, hdone⟩ := parseInput_codeAfter hbefore hshape htotal hsent
  have hfails := parseInput_fails hbefore hshape htotal hsent hparse
  rw [← hstands.2 (c.buffer ++ bytes)] at hparse
  have hcodes := codeAfter_cases shape limit (seen ++ (c.buffer ++ bytes)).length
  obtain ⟨hheaders, hstream⟩ := parseInput_bare hstands.1 hparse
  have hkept := (parseInput_call _ _ _ hparse).2
  dsimp only at hheaders hstream hkept
  have htaken : ∀ status, Alike c (taken c out rest status) := fun status =>
    ⟨rfl, rfl, rfl, hstream, rfl, rfl, rfl, hkept.1⟩
  have hexpect : ∀ status, (view (taken c out rest status)).expect = (view c).expect := by
    intro status
    show out.1.getHeader (ascii "expect") = c.getRequest.getHeader (ascii "expect")
    rw [Request.getHeader, hheaders]
    rfl
  refine ⟨_, takeIn_eq h hparse, ?_⟩
  generalize hn : (seen ++ (c.buffer ++ bytes)).length = n at *
  rcases hcodes with hzero | hend | herror
  · rw [hzero] at hparse ⊢
    rw [if_neg (Int.lt_irrefl 0)]
    unfold finishBody
    rw [if_neg (fun hclosed => hclosed.2 rfl)]
    obtain ⟨hrest, hnext⟩ := hstands.extend parseInput_incremental hparse
    have hwaits : Stands q (seen ++ (c.buffer ++ bytes)) (taken c out rest .ongoing) := by
      refine ⟨headers, ?_⟩
      have hpair : out = (out.1, none) := by
        rw [← hstream]
      rw [hpair] at hnext
      exact hnext
    exact .waits (by rw [hn]; exact hzero) (htaken _) rfl hrest (hexpect _) hwaits
      (Adds.of_eq rfl)
  · obtain ⟨hsize, htype', hmethod', hhints⟩ := hdone hend
    have hverdict : verdict shape limit n = if out.1.getBodySize > 0 then
        out.1.resHints.status else RES_NO_CONTENT := by
      unfold verdict
      rw [if_pos hend, hsize, hhints, hnoted]
    have hfinish : finishBody (-1) (taken c out rest .done) = (verdict shape limit n,
        (taken c out rest .done).record (.bodyDone out.1.method out.1.uri out.1.headers
          out.2)) := by
      unfold finishBody
      rw [if_pos ⟨by decide, BodyStatus.noConfusion⟩]
      unfold handleRequestBodyDone
      dsimp only
      have hupload : (taken c out rest .done).getRequest.type = .static ∧
          ((taken c out rest .done).getRequest.method = some .POST ∨
            (taken c out rest .done).getRequest.method = some .PUT) := by
        refine ⟨htype'.trans htype, ?_⟩
        show out.1.method = some .POST ∨ out.1.method = some .PUT
        rw [hmethod']
        exact hmethod
      rw [if_pos hupload, hverdict]
      rfl
    rw [hend, if_pos (by decide), hfinish]
    rw [← hn] at hend ⊢
    refine .ends (by rw [hend]; decide) ?_ (fun _ => rfl) (fun hne => absurd hend hne) ?_
    · exact ⟨rfl, rfl, rfl, hstream, rfl, rfl, rfl, hkept.1⟩
    · exact Adds.record rfl (by intro path h; cases h)
  · have hpos : 0 < shape.codeAfter limit n := by omega
    have hverdict : verdict shape limit n = shape.codeAfter limit n := if_neg (by omega)
    rw [if_neg (by omega)]
    unfold finishBody
    rw [if_neg (fun hclosed => hclosed.2 rfl), ← hverdict]
    rw [← hn] at hpos ⊢
    exact .ends (by omega) (htaken _) (fun hend => by omega)
      (fun _ => ⟨rfl, hfails (by rw [hn] at hpos; exact hpos), hexpect _⟩) (Adds.of_eq rfl)

end Webserveau.RefusedUploads
