import Webserveau.HandlerRules
import Webserveau.ResponseHeads

/-!
The requests that a run makes its responses from.
A client has a clean request until a redirection has been made of it, and no second response
is made of that one: it waits behind its response, and the client goes on with a new request.
So every response is the answer 100 or was made from a clean request.
-/
namespace Webserveau.CleanAnswers

open ByteStrings OrderedMaps Formats Requests Clients EventLoop Checks HeadSafety ParserFrames
  Transitions Intake Replies LoopInvariants LoopSteps Acceptance AnswerLogs RefusedRequests
  HandlerRules DelimitedTexts CleanRequests ResponseHeads

/-- How a response is made: as the answer 100, or from a clean request. -/
inductive Made : ℤ → List Bytes → Option Origin → Prop
  | continued : Made RES_CONTINUE continueBuffers none
  | response {o : Origin} {response : Response} : Clean o.request →
      (genResponse o.served o.date (fillResponse o.pages o.request)).1 = some response →
      Made o.request.resHints.status (response.buffers (sentHints o)) (some o)

theorem Made.of_none {status : ℤ} {buffers : List Bytes} (h : Made status buffers none) :
    status = RES_CONTINUE ∧ buffers = continueBuffers := by
  cases h with
  | continued => exact ⟨rfl, rfl⟩

theorem Made.of_origin {status : ℤ} {buffers : List Bytes} {o : Origin}
    (h : Made status buffers (some o)) : Clean o.request ∧ status = o.request.resHints.status ∧
      ∃ response, (genResponse o.served o.date (fillResponse o.pages o.request)).1 =
        some response ∧ buffers = response.buffers (sentHints o) := by
  cases h with
  | response hclean hgen => exact ⟨hclean, rfl, _, hgen, rfl⟩

/-- A response that is recorded has been made so. -/
def Honest : Action → Prop
  | .responded status _ buffers origin => Made status buffers origin
  | _ => True

def Told (c : Client) : Prop := ∀ a ∈ c.trace, Honest a

/-- A redirection has been made of the request, and nothing is read or checked behind it. -/
structure Spent (c : Client) : Prop where
  response : ∃ status, (view c).response = some status ∧ 300 ≤ status
  idle : Idle c
  expect : Whole c → (view c).expect ≠ CONTINUE

/-- A client between two events. -/
structure Answering (c : Client) : Prop where
  request : Clean c.getRequest ∨ Spent c
  expect : c.headerStatus = .done → (view c).response = none → (view c).expect ≠ CONTINUE
  told : Told c

section Told

variable {c d : Client}

theorem Told.adds (h : Told c) (hadds : Adds Honest c d) : Told d := by
  obtain ⟨actions, htrace, hall⟩ := hadds
  intro a ha
  rw [htrace] at ha
  rcases List.mem_append.mp ha with hold | hnew
  · exact h a hold
  · exact hall a hnew

theorem Told.of_eq (h : Told c) (htrace : d.trace = c.trace) : Told d :=
  h.adds (Adds.of_eq htrace)

/-- Where no response is made, nothing has to be told. -/
theorem Told.logs (h : Told c) (hlogs : Logs [] c d) : Told d := by
  obtain ⟨actions, htrace, hanswers, -⟩ := hlogs
  refine h.adds ⟨actions, htrace, ?_⟩
  intro a ha
  cases a with
  | responded status connection buffers origin =>
    have hmem : status ∈ answers actions := List.mem_filterMap.mpr ⟨_, ha, rfl⟩
    rw [hanswers] at hmem
    cases hmem
  | _ => trivial

theorem honest_of_prepares {a : Action} (h : Prepares a) : Honest a := by
  cases h with
  | opened path => trivial
  | continued => exact .continued

end Told

section Responses

variable {env : Env} {c d : Client} {status : ℤ}

/-- What the response to a status is made from. -/
def originOf (env : Env) (c : Client) (status : ℤ) : Origin :=
  ⟨if status ≠ 0 then c.getRequest.setHintStatus status else c.getRequest, errorPages c,
    env.served, env.date⟩

theorem originOf_clean (h : Clean c.getRequest) (env : Env) (status : ℤ) :
    Clean (originOf env c status).request := by
  unfold originOf
  dsimp only
  split
  · exact h.of_eq rfl rfl rfl
  · exact h

theorem originOf_status (env : Env) (c : Client) (status : ℤ) :
    (originOf env c status).request.resHints.status = statusOf c status := by
  unfold originOf statusOf
  dsimp only
  split
  · rfl
  · rfl

/-- A response is recorded with what it was made from, and leaves its hints in the request. -/
theorem tryResponse_origin (env : Env) (c : Client) (status : ℤ) :
    (tryResponse env c status).2.getRequest.headers = c.getRequest.headers ∧
      (tryResponse env c status).2.getRequest.resHints = sentHints (originOf env c status) ∧
      ((tryResponse env c status).1 = false →
        (genResponse env.served env.date (fillResponse (errorPages c)
          (originOf env c status).request)).1.isSome = false ∧
        (tryResponse env c status).2.trace = c.trace) ∧
      ((tryResponse env c status).1 = true → ∃ response connection,
        (genResponse env.served env.date (fillResponse (errorPages c)
          (originOf env c status).request)).1 = some response ∧
        (tryResponse env c status).2.trace = c.trace ++ [.responded response.getStatus connection
          (response.buffers (sentHints (originOf env c status)))
          (some (originOf env c status))]) := by
  have hheaders : (originOf env c status).request.headers = c.getRequest.headers := by
    unfold originOf
    dsimp only
    split
    · rfl
    · rfl
  have horigin : originOf env c status = ⟨if status ≠ 0 then c.getRequest.setHintStatus status
    else c.getRequest, errorPages c, env.served, env.date⟩ := rfl
  unfold tryResponse sentHints
  dsimp only
  rw [← hheaders]
  cases hmade : (genResponse env.served env.date (fillResponse (errorPages c)
      (originOf env c status).request)).1 with
  | none =>
    rw [horigin] at hmade
    dsimp only at hmade
    rw [hmade]
    exact ⟨rfl, rfl, fun _ => ⟨rfl, rfl⟩, nofun⟩
  | some response =>
    rw [horigin] at hmade
    dsimp only at hmade
    rw [hmade]
    exact ⟨rfl, rfl, nofun, fun _ => ⟨response, _, rfl, rfl⟩⟩

theorem tryResponse_told (hclean : Clean c.getRequest) (h : Told c) :
    Told (tryResponse env c status).2 := by
  obtain ⟨-, -, hfailed, hmade⟩ := tryResponse_origin env c status
  cases hres : (tryResponse env c status).1 with
  | false => exact h.of_eq (hfailed hres).2
  | true =>
    obtain ⟨response, connection, hgen, htrace⟩ := hmade hres
    refine h.adds ⟨_, htrace, ?_⟩
    intro a ha
    rw [List.mem_singleton.mp ha]
    have hstatus : response.getStatus = (originOf env c status).request.resHints.status := by
      rw [(genResponse_same _ _ _).2 response hgen, fillResponse_status]
    show Made response.getStatus _ _
    rw [hstatus]
    exact .response (originOf_clean hclean env status) hgen

/-- Only a redirection leaves a request that is not clean. -/
theorem tryResponse_clean (hclean : Clean c.getRequest)
    (h : (tryResponse env c status).1 = true → (statusOf c status).tdiv 100 ≠ 3) :
    Clean (tryResponse env c status).2.getRequest := by
  obtain ⟨hheaders, hhints, hfailed, -⟩ := tryResponse_origin env c status
  have horigin := originOf_clean hclean env status
  have hsent : CleanHints False (sentHints (originOf env c status)) := by
    cases hres : (tryResponse env c status).1 with
    | false => exact sentHints_failed horigin (hfailed hres).1
    | true =>
      refine sentHints_clean horigin False.elim False.elim fun h3 => ?_
      rw [originOf_status] at h3
      exact absurd h3 (h hres)
  rw [← hhints] at hsent
  refine ⟨?_, hsent⟩
  rw [hheaders]
  exact hclean.headers

/-- A response is made of a clean request; a redirection only when nothing is to follow it. -/
theorem generateResponse_answering (env : Env) (status : ℤ) (hclean : Clean c.getRequest)
    (htold : Told c) (hspent : (view c).response = none → (statusOf c status).tdiv 100 = 3 →
      Idle c ∧ (Whole c → (view c).expect ≠ CONTINUE)) :
    Answering (generateResponse env c status).2 := by
  by_cases hnone : c.response = none
  · rcases generateResponse_tries env status hnone with ⟨d, hfirst, hout⟩ |
      ⟨d, e, hfirst, hsecond, hout⟩
    · have hd : (tryResponse env c status).2 = d := congrArg Prod.snd hfirst
      obtain ⟨⟨path, connection, hview, -⟩, -, -⟩ := (tryResponse_responds env hfirst).1
      have hresponse : (view d).response = some (statusOf c status) := congrArg View.response hview
      rw [hout]
      refine ⟨?_, fun _ hgone => ?_, ?_⟩
      · by_cases h3 : (statusOf c status).tdiv 100 = 3
        · obtain ⟨hidle, hexpect⟩ := hspent (congrArg (Option.map Response.getStatus) hnone) h3
          have hheader : d.headerStatus = c.headerStatus := congrArg View.header hview
          have hbody : d.bodyStatus = c.bodyStatus := congrArg View.body hview
          have hkept : (view d).expect = (view c).expect :=
            (congrArg View.expect hview : (view d).expect = _)
          refine Or.inr ⟨⟨_, hresponse, (range_of_tdiv h3).1⟩, ?_, ?_⟩
          · unfold Idle
            rw [hheader, hbody]
            exact hidle
          · unfold Whole
            rw [hkept, hheader, hbody]
            exact hexpect
        · refine Or.inl ?_
          rw [← hd]
          exact tryResponse_clean hclean fun _ => h3
      · rw [hresponse] at hgone
        cases hgone
      · rw [← hd]
        exact tryResponse_told hclean htold
    · have hd : (tryResponse env c status).2 = d := congrArg Prod.snd hfirst
      have he : (tryResponse env d.clearResponse RES_INTERNAL_ERROR).2 = e :=
        congrArg Prod.snd hsecond
      have hclean' : Clean d.clearResponse.getRequest := by
        rw [← hd]
        refine tryResponse_clean hclean fun hmade => ?_
        rw [hfirst] at hmade
        cases hmade
      have htold' : Told d.clearResponse := by
        rw [← hd]
        exact tryResponse_told hclean htold
      have hresponse : (view e).response = some RES_INTERNAL_ERROR := by
        obtain ⟨⟨path, connection, hview, -⟩, -, -⟩ := (tryResponse_responds env hsecond).1
        exact congrArg View.response hview
      rw [hout]
      refine ⟨Or.inl ?_, fun _ hgone => ?_, ?_⟩
      · rw [← he]
        exact tryResponse_clean hclean' fun _ => (by decide : (500 : ℤ).tdiv 100 ≠ 3)
      · rw [hresponse] at hgone
        cases hgone
      · rw [← he]
        exact tryResponse_told hclean' htold'
  · have howed : (view c).response ≠ none := fun hgone => hnone (Option.map_eq_none_iff.mp hgone)
    rw [generateResponse_owed env status howed]
    exact ⟨Or.inl hclean, fun _ hgone => absurd hgone howed, htold⟩

end Responses

section Steps

variable {c d : Client}

/-- Nothing has changed that decides whether the request is to be answered. -/
theorem Answering.same (h : Answering c) (hclean : KeepsClean c d)
    (hresponse : (view d).response = (view c).response)
    (hheader : d.headerStatus = c.headerStatus) (hbody : d.bodyStatus = c.bodyStatus)
    (hexpect : (view d).expect = (view c).expect) (htold : Told d) : Answering d where
  request := by
    refine h.request.imp hclean fun hspent => ⟨?_, ?_, ?_⟩
    · rw [hresponse]
      exact hspent.response
    · unfold Idle
      rw [hheader, hbody]
      exact hspent.idle
    · unfold Whole
      rw [hheader, hbody, hexpect]
      exact hspent.expect
  expect := by
    rw [hheader, hresponse, hexpect]
    exact h.expect
  told := htold

/-- A client that has no response pending has a clean request. -/
theorem Answering.clean (h : Answering c) (hnone : (view c).response = none) :
    Clean c.getRequest := by
  refine h.request.resolve_right fun hspent => ?_
  obtain ⟨status, hresponse, -⟩ := hspent.response
  rw [hnone] at hresponse
  cases hresponse

/-- An accepted request does not wait for an answer 100 that has not been made. -/
theorem accepted_expect {res : ℤ} (h : Accepted c res d) :
    (view d).response = none → (view d).expect ≠ CONTINUE := by
  obtain ⟨body, type, path, hview⟩ := h.settled
  rw [hview]
  split
  · intro hnone
    cases hnone
  · rename_i hexpect
    exact fun _ => hexpect

theorem removeHeader_expect (r : Request) :
    (r.removeHeader (ascii "expect")).getHeader (ascii "expect") = [] := by
  have hsame : Same iLess (ascii "expect") (ascii "expect") = true := same_refl _
  unfold Request.removeHeader Request.getHeader
  rw [OrderedMap.find?_erase_same _ hsame]
  rfl

/-- A request that waits for no answer 100 does not come to wait for one. -/
theorem handleRequestHeaders_expect (env : Env) (h : (view c).expect ≠ CONTINUE) :
    Ends (handleRequestHeaders env c) fun out => (view out.2).expect ≠ CONTINUE := by
  rw [UploadChecks.handleRequestHeaders_eq]
  have honly : ∀ d, CheckedOnly c d → (view d).expect ≠ CONTINUE := by
    intro d hd
    obtain ⟨body, type, path, hview⟩ := hd.checking.settled
    rw [hview]
    exact h
  refine Ends.andThen (I := fun d => (view d).expect ≠ CONTINUE) ?_ ?_
  · intro out hout
    have hd := honly out.2 (throughHost_only env c out hout)
    exact ⟨fun _ => hd, fun _ => hd⟩
  · intro d hd
    refine ends_ok.mpr ?_
    rcases finishHeaders_checked env d with hrefused | haccepted
    · have hget : ¬ d.getRequest.getHeader (ascii "expect") = ascii "100-continue" := hd
      have hverdict := hrefused.verdict
      unfold finishHeaders checkContinue at hverdict ⊢
      dsimp only at hverdict ⊢
      rw [if_neg hget] at hverdict ⊢
      by_cases hother : d.getRequest.getHeader (ascii "expect") ≠ []
      · rw [if_pos hother] at hverdict ⊢
        dsimp only
        rw [if_pos (by decide)]
        show (Request.removeHeader _ (ascii "expect")).getHeader (ascii "expect") ≠ CONTINUE
        rw [removeHeader_expect]
        decide
      · rw [if_neg hother] at hverdict ⊢
        dsimp only at hverdict ⊢
        rw [if_neg (fun hne => hne.1 rfl)] at hverdict
        have hzero : (acceptHeaders env 0 d).1 = 0 := rfl
        rw [hzero] at hverdict
        omega
    · obtain ⟨body, type, path, hview⟩ := haccepted.settled
      rw [hview, if_neg hd]
      exact hd

/-- A client whose request no redirection has been made of. -/
structure Fresh (c : Client) : Prop where
  clean : Clean c.getRequest
  told : Told c
  expect : c.headerStatus = .done → (view c).response = none → (view c).expect ≠ CONTINUE

theorem Fresh.answering (h : Fresh c) : Answering c := ⟨Or.inl h.clean, h.expect, h.told⟩

/-- Clean requests at every place of a step. -/
def answers : Stages where
  readable _ := True
  between _ := Answering
  headed _ c := Clean c.getRequest ∧ Told c
  taking _ := Fresh
  refused _ out := Clean out.2.getRequest ∧ Told out.2 ∧ (out.1 < 400 → out.2.headerStatus = .ready)

theorem parseRequest_answering (bytes : Bytes) (hclean : Clean c.getRequest) (htold : Told c)
    (hongoing : c.headerStatus = .ongoing) : Ends (c.parseRequest bytes) fun out =>
      Clean out.2.getRequest ∧ Told out.2 ∧ (out.1 = 0 → out.2.headerStatus = .ongoing) ∧
        (0 < out.1 → 400 ≤ out.1) := by
  intro out hout
  obtain ⟨hanswer, hparsed, htrace, -⟩ := parseRequest_parsed c bytes out hout
  refine ⟨parseRequest_clean hclean bytes out hout, htold.of_eq htrace, fun hzero => ?_, ?_⟩
  · cases hparsed with
    | head expect _ hview =>
      have hheader : out.2.headerStatus = if out.1 < 0 then .ready else .ongoing :=
        congrArg View.header hview
      rw [hheader, if_neg (by omega)]
    | body expect hdone =>
      rw [hongoing] at hdone
      cases hdone
    | idle hidle => exact absurd hongoing hidle.1
  · intro hpos
    rcases hanswer with hzero | hminus | herror
    · omega
    · omega
    · exact herror

/-- The bytes of a body change no header. -/
theorem parseRequest_fresh (bytes : Bytes) (h : Fresh c) (hheader : c.headerStatus = .done)
    (hbody : c.bodyStatus = .ongoing) : Ends (c.parseRequest bytes) fun out =>
      Fresh out.2 ∧ (0 < out.1 → 400 ≤ out.1) := by
  intro out hout
  obtain ⟨hanswer, hparsed, htrace, -⟩ := parseRequest_parsed c bytes out hout
  have hheaders : out.2.getRequest.headers = c.getRequest.headers := by
    have hopen : c.headerStatus ≠ .ongoing := by
      rw [hheader]
      decide
    unfold Client.parseRequest at hout
    rw [if_neg hopen, if_pos ⟨hheader, hbody⟩] at hout
    obtain ⟨⟨res, ⟨r, stream⟩, rest⟩, hinput, hout⟩ := bind_eq_ok_iff.mp hout
    obtain rfl : out = _ := (Except.ok.inj hout).symm
    exact parseInput_keepsHeaders (c.getRequest, c.bodyStream) _ _ hinput
  have hexpect : (view out.2).expect = (view c).expect := by
    show out.2.getRequest.getHeader (ascii "expect") = c.getRequest.getHeader (ascii "expect")
    unfold Request.getHeader
    rw [hheaders]
  refine ⟨⟨parseRequest_clean h.clean bytes out hout, h.told.of_eq htrace, fun _ hnone => ?_⟩, ?_⟩
  · rw [hexpect]
    refine h.expect hheader ?_
    cases hparsed with
    | head expect hongoing =>
      rw [hheader] at hongoing
      cases hongoing
    | body expect _ _ hview =>
      rw [hview] at hnone
      exact hnone
    | idle hidle => exact absurd ⟨hheader, hbody⟩ hidle.2
  · intro hpos
    rcases hanswer with hzero | hminus | herror
    · omega
    · omega
    · exact herror

theorem handleRequestHeaders_told (env : Env) (h : Told c) :
    Ends (handleRequestHeaders env c) fun out => Told out.2 := by
  intro out hout
  exact h.adds ((handleRequestHeaders_unread env c out hout).prepares.mono fun _ =>
    honest_of_prepares)

theorem checkHeaders_answering (env : Env) (hclean : Clean c.getRequest) (htold : Told c)
    (hready : c.headerStatus = .ready) : Ends (checkHeaders env c) fun out =>
      (out.1 = 0 → Fresh out.2) ∧
        (out.1 ≠ 0 → Clean out.2.getRequest ∧ Told out.2 ∧ out.2.headerStatus = .ready) := by
  intro out hout
  unfold checkHeaders at hout
  obtain ⟨⟨res, d⟩, hheaders, hout⟩ := bind_eq_ok_iff.mp hout
  obtain rfl : out = (res, d.record (.checked res)) := (Except.ok.inj hout).symm
  have hclean' : Clean d.getRequest := handleRequestHeaders_clean env _ _ hheaders hclean
  have htold' : Told (d.record (.checked res)) :=
    (handleRequestHeaders_told env (c := { c with bodyStatus := .none }) htold _ hheaders).adds
      (Adds.record rfl trivial)
  rcases handleRequestHeaders_checked env _ _ hheaders with hrefused | haccepted
  · have hverdict : 300 ≤ res := hrefused.verdict
    refine ⟨fun hzero => ?_, fun _ => ⟨hclean', htold', ?_⟩⟩
    · dsimp only at hzero
      omega
    · obtain ⟨body, type, path, expect, hview⟩ := hrefused.settled
      exact (congrArg View.header hview).trans hready
  · have hverdict : res = 0 := haccepted.verdict
    have hexpect : (view d).response = none → (view d).expect ≠ CONTINUE :=
      accepted_expect haccepted
    refine ⟨fun _ => ⟨hclean', htold', fun _ => hexpect⟩, ?_⟩
    exact fun hne => absurd hverdict hne

/-- A request that its process redirects is answered, or not: its response may be pending. -/
theorem redirected_answering (env : Env) (h : Answering c) (hwhole : Whole c)
    (hredir : c.getRequest.resHints.cgiRedir ≠ .none) :
    Ends (handleRequestHeaders env c) fun out => (out.1 = 0 → Answering out.2) ∧
      (out.1 ≠ 0 → Answering (generateResponse env out.2 out.1).2) := by
  intro out hout
  have hkeeps := handleRequestHeaders_clean env c out hout
  have htold := handleRequestHeaders_told env h.told out hout
  have hwaits : (view c).expect ≠ CONTINUE → (view out.2).expect ≠ CONTINUE :=
    fun hexpect => handleRequestHeaders_expect env hexpect out hout
  rcases handleRequestHeaders_checked env c out hout with hrefused | haccepted
  · have hverdict : 300 ≤ out.1 := hrefused.verdict
    obtain ⟨body, type, path, expect, hview⟩ := hrefused.settled
    have hheader : out.2.headerStatus = c.headerStatus := congrArg View.header hview
    have hbody : out.2.bodyStatus = c.bodyStatus := hrefused.body_eq hredir
    have hresponse : (view out.2).response = (view c).response := by rw [hview]
    have hidle : Idle out.2 := by
      unfold Idle
      rw [hheader, hbody, hwhole.1]
      exact ⟨nofun, fun hand => hwhole.2 hand.2⟩
    refine ⟨fun hzero => by omega, fun _ => ?_⟩
    rcases h.request with hclean | hspent
    · refine generateResponse_answering env _ (hkeeps hclean) htold fun hnone _ => ⟨hidle, ?_⟩
      rw [hresponse] at hnone
      exact fun _ => hwaits (h.expect hwhole.1 hnone)
    · have hpending : ∃ status, (view out.2).response = some status ∧ 300 ≤ status := by
        rw [hresponse]
        exact hspent.response
      have howed : (view out.2).response ≠ none := by
        obtain ⟨status, hsome, -⟩ := hpending
        rw [hsome]
        exact nofun
      rw [generateResponse_owed env out.1 howed]
      exact ⟨Or.inr ⟨hpending, hidle, fun _ => hwaits (hspent.expect hwhole)⟩,
        fun _ hnone => absurd hnone howed, htold⟩
  · have hverdict : out.1 = 0 := haccepted.verdict
    refine ⟨fun _ => ⟨h.request.imp hkeeps fun hspent => ?_, fun _ => accepted_expect haccepted,
      htold⟩, fun hne => absurd hverdict hne⟩
    have hexpect := hspent.expect hwhole
    have hbody : out.2.bodyStatus = c.bodyStatus := haccepted.body_eq hredir
    obtain ⟨body, type, path, hview⟩ := haccepted.settled
    rw [if_neg hexpect] at hview
    have hheader : out.2.headerStatus = .done := congrArg View.header hview
    refine ⟨?_, ?_, fun _ => hwaits hexpect⟩
    · rw [hview]
      exact hspent.response
    · unfold Idle
      rw [hheader, hbody]
      exact ⟨nofun, fun hand => hwhole.2 hand.2⟩

end Steps

theorem answers_staged : Staged answers where
  fresh _ := trivial
  read _ c bytes hc hongoing _ out hout := by
    have hclean : Clean c.getRequest := hc.request.resolve_right fun h => h.idle.1 hongoing
    obtain ⟨hclean', htold, hheader, herror⟩ :=
      parseRequest_answering bytes hclean hc.told hongoing out hout
    refine ⟨fun _ => ⟨hclean', htold⟩, fun hzero => ⟨Or.inl hclean', fun hdone => ?_, htold⟩,
      fun hpos => ⟨hclean', htold, fun hlt => ?_⟩⟩
    · rw [hheader hzero] at hdone
      cases hdone
    · have := herror hpos
      omega
  held _ c bytes hc _ := hc.same (fun h => h) rfl rfl rfl rfl hc.told
  checked _ env c hc hready out hout := by
    obtain ⟨haccepted, hrefused⟩ := checkHeaders_answering env hc.1 hc.2 hready out hout
    refine ⟨haccepted, fun hne => ?_⟩
    obtain ⟨hclean, htold, hheader⟩ := hrefused hne
    exact ⟨hclean, htold, fun _ => hheader⟩
  resumed _ c hc hheader hbody hnone := by
    refine ⟨hc.request.resolve_right fun h => h.idle.2 ⟨hheader, hbody⟩, hc.told, hc.expect⟩
  taken _ c bytes hc hheader hbody out hout := by
    obtain ⟨hfresh, herror⟩ := parseRequest_fresh bytes hc hheader hbody out hout
    refine ⟨fun _ => hfresh, fun hpos => ⟨hfresh.clean, hfresh.told, fun hlt => ?_⟩⟩
    have := herror hpos
    omega
  paused _ _ hc _ _ := hc.answering
  done _ c hc _ := by
    obtain ⟨⟨path, hview⟩, -⟩ := handleRequestBodyDone_view c
    have htold := hc.told.logs (handleRequestBodyDone_logs c)
    exact hc.answering.same (handleRequestBodyDone_clean c) (by rw [hview])
      (congrArg View.header hview) (congrArg View.body hview) (by rw [hview]) htold
  refused _ env out hout hverdict := by
    obtain ⟨hclean, htold, hready⟩ := hout
    refine generateResponse_answering env out.1 hclean htold fun _ h3 => ?_
    have hne : out.1 ≠ 0 := by omega
    have hlt : out.1 < 400 := by
      rw [show statusOf out.2 out.1 = out.1 from if_pos hne] at h3
      exact (range_of_tdiv h3).2
    have hheader := hready hlt
    refine ⟨⟨?_, ?_⟩, fun hwhole => ?_⟩
    · rw [hheader]
      exact nofun
    · rw [hheader]
      exact fun hand => nomatch hand.1
    · rw [hwhole.1] at hheader
      cases hheader
  answered _ env c status hc hwhole := by
    rcases hc.request with hclean | hspent
    · refine generateResponse_answering env status hclean hc.told fun hnone _ => ⟨⟨?_, ?_⟩, ?_⟩
      · rw [hwhole.1]
        exact nofun
      · exact fun hand => hwhole.2 hand.2
      · exact fun _ => hc.expect hwhole.1 hnone
    · obtain ⟨pending, hsome, -⟩ := hspent.response
      have howed : (view c).response ≠ none := by
        rw [hsome]
        exact nofun
      rw [generateResponse_owed env status howed]
      exact hc
  started _ env c hc _ _ := by
    have hclean := generateCGIProcess_clean env c
    have htold := hc.told.logs (generateCGIProcess_logs env c)
    have hstarted := generateCGIProcess_started env c
    generalize generateCGIProcess env c = out at hclean htold hstarted
    obtain ⟨res, d⟩ := out
    cases hstarted with
    | started name hview =>
      exact hc.same hclean (by rw [hview]) (congrArg View.header hview)
        (congrArg View.body hview) (by rw [hview]) htold
    | failed name hview =>
      exact hc.same hclean (by rw [hview]) (congrArg View.header hview)
        (congrArg View.body hview) (by rw [hview]) htold
  removed _ c hc := by
    have hview := deleteCGIProcess_view c
    exact hc.same (deleteCGIProcess_clean c) (by rw [hview]) (congrArg View.header hview)
      (congrArg View.body hview) (by rw [hview]) (hc.told.logs (deleteCGIProcess_logs c))
  judged _ fs c verdict r hc _ hparse := by
    have hheaders : r.headers = c.getRequest.headers := (parseCgiHeaders_keeps fs _ _ hparse).2.1
    have hclean : KeepsClean c (withVerdict c verdict r) := fun h =>
      (parseCgiHeaders_clean fs h _ hparse).of_eq rfl rfl rfl
    refine hc.same hclean rfl rfl rfl ?_ hc.told
    show r.getHeader (ascii "expect") = c.getRequest.getHeader (ascii "expect")
    unfold Request.getHeader
    rw [hheaders]
  redirected _ env c hc hwhole _ hredir _ := redirected_answering env hc hwhole hredir
  reaped _ c p q hc hp houtput := hc.same (fun h => h) rfl rfl rfl rfl hc.told
  sent _ c rest bytes hc :=
    hc.same (fun h => h) rfl rfl rfl rfl (hc.told.adds (Adds.record rfl trivial))
  continued _ c hc hresponse hexpect := by
    have hclean : Clean c.getRequest := by
      refine hc.request.resolve_right fun hspent => ?_
      obtain ⟨status, hsome, hle⟩ := hspent.response
      rw [hresponse] at hsome
      obtain rfl := Option.some.inj hsome
      exact absurd hle (by decide)
    refine ⟨Or.inl (hclean.removeHeader _), fun _ _ => ?_, hc.told⟩
    show (c.getRequest.removeHeader (ascii "expect")).getHeader (ascii "expect") ≠ CONTINUE
    rw [removeHeader_expect]
    decide
  cleared _ c hc _ _ _ := by
    refine ⟨Or.inl clean_new, nofun, hc.told.logs (clear_logs c)⟩
  expired _ env c request hc _ hnone hrequest := by
    have hclean := hc.clean (congrArg (Option.map Response.getStatus) hnone)
    have hget : c.getRequest = request := by
      unfold Client.getRequest
      rw [hrequest]
      rfl
    rw [hget] at hclean
    refine generateResponse_answering env RES_TIMEOUT (hclean.of_eq rfl rfl rfl) hc.told ?_
    intro _ h3
    exact absurd h3 (by decide : (408 : ℤ).tdiv 100 ≠ 3)

theorem newClient_answering (server : ListenServer) : Answering (Client.newClient server) where
  request := Or.inl clean_new
  expect := by
    intro hdone
    cases hdone
  told := by
    intro a ha
    cases ha

theorem left_answers {t t' : Bytes} {c : Client} (h : Left answers t c) : Left answers t' c := h

/-- In every run each response is the answer 100 or was made from a clean request. -/
theorem told_reached {server : ListenServer} {events : List Event} {c : Client}
    (hrun : Reaches EventLoop.step (fun _ _ => True) (Client.newClient server) events c) :
    Told c := by
  have hinv : Sound (view c) ∧ Left answers [] c := by
    refine Reaches.invariant (I := fun c => Sound (view c) ∧ Left answers [] c) ?_ ?_ hrun
    · refine ⟨?_, Or.inl (newClient_answering server)⟩
      rw [newClient_view]
      exact fresh_sound .read
    · intro c event hinv _ d hd
      have hreads : Staged.Reads answers c event := by
        cases event with
        | epoll event => exact fun _ _ _ => True.intro
        | timeOut expired env => exact True.intro
      have hleft := answers_staged.step event hinv.1 hinv.2 hreads d hd
      exact ⟨(step_moves event hinv.1 d hd).sound, left_answers hleft⟩
  rcases hinv.2 with hbetween | ⟨d, hd, rfl⟩
  · exact hbetween.told
  · exact hd.told.logs (terminate_logs d)

/-- A redirection to the address of the moved host, for a target with the file name. -/
def redirects (filename : Bytes) : Action → Bool
  | .responded status _ _ (some o) => status = 301 ∧ o.date = [] ∧
    o.request.resHints.redirList = some [ascii "http://b/"] ∧ o.request.resHints.path = [] ∧
    o.request.resHints.status = 301 ∧ o.request.resHints.parsedUri.filename = filename
  | _ => false

end Webserveau.CleanAnswers
