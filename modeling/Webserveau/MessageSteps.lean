import Webserveau.MessageIntake

/-!
What the operations of a step make of the bytes behind the messages.
Reading moves the parser on, and only the end of a body hands a message over. Responses and
processes leave the bytes alone; a response that is owed for a broken message ends the
connection, so that no bytes behind it are looked at.
-/
namespace Webserveau.MessageSteps

open ByteStrings OrderedMaps Formats Requests Clients EventLoop Checks HeadSafety ParserFrames
  Transitions Intake Replies LoopInvariants LoopSteps HeadSegmentation BodySegmentation Acceptance
  BodyIntake ContentLength UploadIntake UploadStarts BodyTargets BodyShapes HandlerRules HostLookups
  Framings Messages MessageIntake RefusedRequests

section Frames

variable (env : Env) {c d : Client}

theorem tryResponse_unhanded (status : ℤ) : Unhanded c (tryResponse env c status).2 := by
  unfold tryResponse
  dsimp only
  split
  · exact Adds.of_eq rfl
  · exact Adds.record rfl rfl

theorem generateResponse_unhanded (status : ℤ) : Unhanded c (generateResponse env c status).2 := by
  have hfirst : Unhanded c (tryResponse env c status).2 := tryResponse_unhanded env status
  have hcleared : Unhanded c (tryResponse env c status).2.clearResponse :=
    hfirst.trans (Adds.of_eq rfl)
  have hsecond := hcleared.trans (tryResponse_unhanded env RES_INTERNAL_ERROR)
  unfold generateResponse
  split
  · exact Adds.of_eq rfl
  · dsimp only
    split
    · exact hfirst
    · split
      · exact hcleared
      · split
        · exact hsecond
        · exact hsecond.trans (Adds.of_eq rfl)

theorem deleteCGIProcess_unhanded : Unhanded c c.deleteCGIProcess := by
  unfold Client.deleteCGIProcess
  split
  · exact Adds.of_eq rfl
  · exact Adds.record rfl rfl

theorem generateCGIProcess_unhanded : Unhanded c (generateCGIProcess env c).2 := by
  have hexec : Unhanded c (execCGI env c).2 := by
    unfold execCGI
    dsimp only
    split
    · exact Adds.record rfl rfl
    · exact Adds.of_eq rfl
  unfold generateCGIProcess
  dsimp only
  split
  · exact hexec.trans deleteCGIProcess_unhanded
  · exact hexec.trans (Adds.of_eq rfl)

theorem clear_unhanded : Unhanded c c.clear := by
  have hstream : Unhanded c c.deleteBodyStream := by
    unfold Client.deleteBodyStream
    split
    · exact Adds.of_eq rfl
    · dsimp only
      split
      · exact Adds.record rfl rfl
      · exact Adds.of_eq rfl
  exact (hstream.trans deleteCGIProcess_unhanded).trans (Adds.of_eq rfl)

/-- A complete request is handed over once. -/
theorem handleRequestBodyDone_hands (c : Client) : ∃ later,
    (handleRequestBodyDone c).2.trace = c.trace ++ [.bodyDone c.getRequest.method c.getRequest.uri
      c.getRequest.headers c.bodyStream] ++ later ∧ ∀ a ∈ later, handsOver a = false := by
  unfold handleRequestBodyDone
  dsimp only
  split
  · exact ⟨[], (List.append_nil _).symm, fun _ ha => absurd ha List.not_mem_nil⟩
  · split
    · refine ⟨[.deleted c.getRequest.resHints.path], rfl, ?_⟩
      intro a ha
      rw [List.mem_singleton.mp ha]
      rfl
    · exact ⟨[], (List.append_nil _).symm, fun _ ha => absurd ha List.not_mem_nil⟩

end Frames

section Heads

variable {server : ListenServer} {text bytes : Bytes} {c : Client}

/-- More bytes in the course of a head. -/
theorem heading_read (h : Heading text c) : Ends (c.parseRequest bytes) fun out =>
    (out.1 < 0 → Headed (text ++ bytes) out.2) ∧
      (out.1 = 0 → Heading (text ++ bytes) out.2) ∧ (0 < out.1 → Refused out) := by
  intro out hout
  unfold Client.parseRequest at hout
  dsimp only at hout
  rw [if_pos h.header, bind_eq_ok_iff] at hout
  obtain ⟨⟨res, r, rest⟩, hparse, hreturn⟩ := hout
  change Except.ok (res, ({ c.setRequest r with
    buffer := rest
    headerStatus := if res < 0 then .ready else .ongoing } : Client)) = _ at hreturn
  rw [Except.ok.injEq] at hreturn
  subst hreturn
  have hanswer := parseHeaders_answer _ _ hparse
  have hwhole : Request.parseHeaders {} (text ++ bytes) = .ok (res, r, rest) :=
    (h.parses bytes).symm.trans hparse
  dsimp only
  refine ⟨fun hneg => ?_, fun hzero => ?_, fun hpos => ?_⟩
  · obtain rfl : res = -1 := by
      rcases hanswer with hres | hres | hres
      · omega
      · exact hres
      · omega
    have hready : (if (-1 : ℤ) < 0 then HeaderStatus.ready else .ongoing) = .ready := if_pos hneg
    exact ⟨hready, h.response, h.stream, hwhole⟩
  · subst hzero
    have hfresh : Open {} := by
      show Status.new ≠ .term
      decide
    obtain ⟨hopen, rfl, hnext⟩ := parseHeaders_incremental _ _ _ _ hfresh hwhole
    have hongoing : (if (0 : ℤ) < 0 then HeaderStatus.ready else .ongoing) = .ongoing :=
      if_neg (lt_irrefl 0)
    exact ⟨hongoing, h.response, h.stream, hopen, hnext⟩
  · have hongoing : (if res < 0 then HeaderStatus.ready else .ongoing) = .ongoing :=
      if_neg (by omega)
    refine .head ?_ h.response ?_
    · rw [hongoing]
      exact nofun
    · intro _
      rcases hanswer with hres | hres | hres
      · omega
      · omega
      · exact hres

/-- The answer 100 aside, an accepted head is owed nothing. -/
theorem accepted_owing {d : Client} {res : ℤ} (hresponse : (view c).response = none)
    (h : Accepted c res d) : Owing d := by
  obtain ⟨body, type, path, hview⟩ := h.settled
  by_cases hexpect : (view c).expect = CONTINUE
  · rw [if_pos hexpect] at hview
    refine Or.inr (Or.inl ⟨?_, ?_⟩)
    · rw [hview]
    · rw [hview]
      exact hexpect
  · rw [if_neg hexpect] at hview
    refine Or.inl ?_
    rw [hview]
    exact hresponse

/-- The head of a request that the checks accept is served. -/
theorem resolved_serves {host : Host} {r q : Request} {maxSize : ℤ}
    (haddressed : Addressed server r host)
    (h : Resolved host (announcedRequest maxSize r) q) : Serves server r q := by
  cases h with
  | served suffix hsuffix _ hrerouted =>
    obtain ⟨type, hints, rfl⟩ := hrerouted
    exact ⟨rfl, ⟨host, suffix, haddressed, hsuffix, rfl⟩, fun _ _ => rfl⟩
  | broken suffix hsuffix _ hrerouted =>
    obtain ⟨type, hints, rfl⟩ := hrerouted
    exact ⟨rfl, ⟨host, suffix, haddressed, hsuffix, rfl⟩, fun _ _ => rfl⟩

/-- Only the head size tells a head from one with bytes behind it. -/
theorem bodyOpen_of_grow {r q : Request} {n : ℕ} {seen written : Bytes}
    (h : BodyOpen (grow r n) seen q written) : BodyOpen r seen q written := by
  cases h with
  | measured hplain hreceiving hq hlength hlen hwritten =>
    exact .measured hplain hreceiving hq hlength hlen hwritten
  | chunked hchunked hreceiving hq hmidway => exact .chunked hchunked hreceiving hq hmidway

/-- Where nothing is left to be read, the empty body is the one that the head announces. -/
theorem bodyOf_of_isBody {r : Request} {n : ℕ} {payload : Bytes}
    (h : IsBody (grow r n) [] payload) : BodyOf r [] payload := by
  cases h with
  | measured hplain hlength =>
    rw [List.take_nil]
    refine .measured hplain ?_
    have hzero : (bodyLength r).toNat ≤ 0 := hlength
    exact (Nat.le_zero.mp hzero).symm
  | chunked b rest _ hseen =>
    have hnil := (List.append_eq_nil_iff.mp hseen.symm).1
    exact absurd hnil (ChunkedMessages.wire_ne_nil _ _)

/-- A complete head is refused, or its body is to be taken in. -/
theorem headed_checked (env : Env) (h : Headed text c) (hbelongs : Belongs server c) :
    Ends (checkHeaders env c) fun out =>
      (out.1 = 0 → Taking server text out.2) ∧ (out.1 ≠ 0 → Refused out) := by
  rintro ⟨res, d⟩ hout
  dsimp only
  constructor
  · rintro rfl
    obtain ⟨head, s, htext, hhead, hgrow⟩ := parseHeaders_shrink h.parses
    obtain ⟨e, hheaders, rfl, hentered, hbody⟩ := checkHeaders_opens h.parses env rfl hout
    have hserves : Serves server s e.getRequest := by
      have hnone : Belongs server { c with bodyStatus := .none } := hbelongs.same ⟨rfl, rfl⟩
      have haddressed := hostOf_addressed hnone
      have hwhole : Serves server c.getRequest e.getRequest :=
        resolved_serves haddressed hentered.resolved
      rw [hgrow] at hwhole
      exact ⟨hwhole.method, hwhole.target, hwhole.headers⟩
    have howing : Owing e := by
      rcases handleRequestHeaders_checked env _ _ hheaders with hrefused | haccepted
      · have hverdict : (300 : ℤ) ≤ 0 := hrefused.verdict
        omega
      · exact accepted_owing (c := { c with bodyStatus := .none }) h.response haccepted
    have hstream : Holds e.bodyStream [] := hentered.stream h.stream
    have hbuffer : text = head ++ [] ++ e.buffer := by
      rw [List.append_nil, hentered.buffer]
      exact htext
    rw [hgrow] at hbody
    rcases hbody with ⟨hongoing, hopen | herror⟩ | ⟨hnone, hempty⟩
    · exact .filling ⟨hentered.header, hongoing, howing, head, s, [], [], hbuffer, hhead, hserves,
        bodyOpen_of_grow hopen, hstream⟩
    · exact .failed ⟨hentered.header, hongoing, howing, herror⟩
    · refine .complete ⟨⟨hentered.header, ?_⟩, head, s, [], [], hbuffer, hhead, hserves,
        bodyOf_of_isBody hempty, hstream⟩
      show e.bodyStatus ≠ .ongoing
      rw [hnone]
      exact nofun
  · intro hne
    obtain ⟨e, hchecked, hrecord⟩ := checkHeaders_checked env c _ hout
    rcases hchecked with hrefused | haccepted
    · obtain ⟨body, type, path, expect, hview⟩ := hrefused.settled
      have hview' : view d = { view { c with bodyStatus := .none } with
          body := body, type := type, path := path, expect := expect } := by
        rw [show d = e.record (.checked res) from hrecord]
        exact hview
      have hheader : d.headerStatus = .ready := (congrArg View.header hview').trans h.header
      refine .head ?_ ((congrArg View.response hview').trans h.response) ?_
      · show d.headerStatus ≠ .done
        rw [hheader]
        exact nofun
      · intro hongoing
        rw [show d.headerStatus = .ready from hheader] at hongoing
        cases hongoing
    · exact absurd haccepted.verdict hne

end Heads

section Bodies

variable {server : ListenServer} {text bytes : Bytes} {c : Client}

/-- Bytes that are read in the course of a body go to the parser of bodies. -/
theorem parseRequest_body (hheader : c.headerStatus = .done) (hbody : c.bodyStatus = .ongoing)
    (bytes : Bytes) : Ends (c.parseRequest bytes) fun out => ∃ r stream rest,
      Request.parseInput (c.getRequest, c.bodyStream) (c.buffer ++ bytes) =
        .ok (out.1, (r, stream), rest) ∧
      out.2 = { c.setRequest r with
        buffer := rest
        bodyStream := stream
        bodyStatus := if out.1 < 0 then .done else .ongoing } := by
  rintro ⟨res, d⟩ hout
  have hnot : ¬ c.headerStatus = .ongoing := by
    rw [hheader]
    exact nofun
  unfold Client.parseRequest at hout
  dsimp only at hout
  rw [if_neg hnot, if_pos ⟨hheader, hbody⟩, bind_eq_ok_iff] at hout
  obtain ⟨⟨res', ⟨r, stream⟩, rest⟩, hparse, hreturn⟩ := hout
  change Except.ok (res', _) = _ at hreturn
  rw [Except.ok.injEq, Prod.mk.injEq] at hreturn
  obtain ⟨rfl, rfl⟩ := hreturn
  exact ⟨r, stream, rest, hparse, rfl⟩

/-- The wait for the answer 100 is not over where the headers and the response stay. -/
theorem owing_of_body {d : Client} (h : Owing c) (hresponse : d.response = c.response)
    (hheaders : d.getRequest.headers = c.getRequest.headers)
    (hconnection : (view d).connection = (view c).connection) : Owing d := by
  have hresponse' : (view d).response = (view c).response := by
    show d.response.map _ = c.response.map _
    rw [hresponse]
  have hexpect : (view d).expect = (view c).expect := by
    show (d.getRequest.headers.find? _).getD [] = (c.getRequest.headers.find? _).getD []
    rw [hheaders]
  unfold Owing
  rw [hresponse', hexpect, hconnection]
  exact h

theorem filling_taken (h : Filling server text c) : Ends (c.parseRequest bytes) fun out =>
    (out.1 ≤ 0 → Taking server (text ++ bytes) out.2) ∧ (0 < out.1 → Refused out) := by
  intro out hout
  obtain ⟨r, stream, rest, hparse, hclient⟩ := parseRequest_body h.header h.body bytes out hout
  obtain ⟨hanswer, hparsed, -⟩ := parseRequest_parsed c bytes out hout
  obtain ⟨head, s, seen, written, rfl, hhead, hserves, hopen, hstream⟩ := h.parts
  obtain ⟨hsame, hwaits, hends, hfails⟩ := parseInput_takesOn hopen hstream _ _ hparse
  dsimp only at hsame hwaits hends hfails
  have hserves' : Serves server s r := hserves.sameHead hsame
  have howing : Owing out.2 := by
    refine owing_of_body h.owing ?_ ?_ ?_
    · rw [hclient]
      rfl
    · rw [hclient]
      exact hsame.headers
    · cases hparsed with
      | head expect hongoing =>
        rw [h.header] at hongoing
        cases hongoing
      | body expect _ _ hview => rw [hview]
      | idle hidle => exact absurd ⟨h.header, h.body⟩ hidle.2
  obtain ⟨res, d⟩ := out
  dsimp only at hparse hclient hanswer hwaits hends hfails howing ⊢
  have hheader : d.headerStatus = .done := by
    rw [hclient]
    exact h.header
  constructor
  · intro hle
    have hcode : res = 0 ∨ res = -1 := by
      rcases hanswer with hres | hres | hres
      · exact Or.inl hres
      · exact Or.inr hres
      · omega
    rcases hcode with rfl | rfl
    · obtain ⟨rfl, written', hopen', hstream'⟩ := hwaits rfl
      refine .filling ⟨hheader, ?_, howing, head, s, seen ++ (c.buffer ++ bytes), written', ?_,
        hhead, ?_, ?_, ?_⟩
      · rw [hclient]
        rfl
      · rw [hclient]
        simp only [List.append_assoc, List.append_nil]
      · rw [hclient]
        exact hserves'
      · rw [hclient]
        exact hopen'
      · rw [hclient]
        exact hstream'
    · obtain ⟨body, payload, hseen, hbody, hstream'⟩ := hends rfl
      refine .complete ⟨⟨hheader, ?_⟩, head, s, body, payload, ?_, hhead, ?_, hbody, ?_⟩
      · rw [hclient]
        exact nofun
      · rw [hclient]
        show head ++ seen ++ c.buffer ++ bytes = head ++ body ++ rest
        rw [List.append_assoc _ c.buffer, List.append_assoc head, hseen, List.append_assoc]
      · rw [hclient]
        exact hserves'
      · rw [hclient]
        exact hstream'
  · intro hpos
    refine .body ⟨hheader, ?_, howing, ?_⟩
    · show d.bodyStatus = .ongoing
      rw [hclient]
      exact if_neg (by omega)
    · show d.getRequest.final_status = .error
      rw [hclient]
      exact hfails hpos

/-- The parser of bodies does not go on after an error. -/
theorem failed_taken (h : Failed c) : Ends (c.parseRequest bytes) fun out =>
    out.1 = 0 ∧ Failed out.2 := by
  intro out hout
  obtain ⟨r, stream, rest, hparse, hclient⟩ := parseRequest_body h.header h.body bytes out hout
  have hover : Request.parseInput (c.getRequest, c.bodyStream) (c.buffer ++ bytes) =
      .ok (0, (c.getRequest, c.bodyStream), c.buffer ++ bytes) := by
    unfold Request.parseInput
    dsimp only
    rw [if_pos (Or.inl (by rw [h.error]; decide))]
    rfl
  rw [hover, Except.ok.injEq] at hparse
  simp only [Prod.mk.injEq] at hparse
  obtain ⟨hzero, ⟨rfl, rfl⟩, rfl⟩ := hparse
  obtain ⟨res, d⟩ := out
  dsimp only at hzero hclient ⊢
  subst hzero
  refine ⟨rfl, ?_, ?_, ?_, ?_⟩
  · rw [hclient]
    exact h.header
  · rw [hclient]
    rfl
  · rw [hclient]
    exact owing_of_body h.owing rfl rfl rfl
  · rw [hclient]
    exact h.error

/-- The end of a body hands its message over. -/
theorem complete_done {t : Bytes} (h : Behind server (Complete server) t c) :
    Behind server (Between server) t (handleRequestBodyDone c).2 := by
  obtain ⟨hbelongs, front, ms, text, rfl, hframed, hcarried, hwhole, hparts⟩ := h
  obtain ⟨head, r, body, payload, rfl, hhead, hserves, hbody, hstream⟩ := hparts
  obtain ⟨later, htrace, hlater⟩ := handleRequestBodyDone_hands c
  have hsame := handleRequestBodyDone_same c
  refine ⟨hbelongs.same (handleRequestBodyDone_sameHost c), front ++ (head ++ body),
    ms ++ [(r, payload)], c.buffer, ?_, hframed.snoc ⟨head, body, rfl, hhead, hbody⟩, ?_,
    .handed hsame.buffer.symm ?_⟩
  · rw [List.append_assoc front]
  · have hhanded : Carried server (ms ++ [(r, payload)]) (c.record (.bodyDone c.getRequest.method
        c.getRequest.uri c.getRequest.headers c.bodyStream)) := by
      unfold Carried Client.record
      rw [List.filter_append]
      refine List.rel_append hcarried (.cons ⟨?_, hstream⟩ .nil)
      exact ⟨hserves.method, hserves.target, hserves.headers⟩
    exact hhanded.unhanded ⟨later, htrace, hlater⟩
  · exact ⟨hsame.header.trans hwhole.1, fun hongoing => hwhole.2 (hsame.body.symm.trans hongoing)⟩

end Bodies

section Replies

variable {server : ListenServer} {text : Bytes} {c d : Client} {status : ℤ}

/-- A response for a code from 300 on ends the connection. -/
theorem generateResponse_closes (env : Env) (hnone : (view c).response = none)
    (hstatus : 300 ≤ status) :
    (∃ final, (view (generateResponse env c status).2).response = some final ∧ 300 ≤ final ∧
      (400 ≤ status → 400 ≤ final)) ∧
        (view (generateResponse env c status).2).connection = ascii "close" := by
  rcases generateResponse_cases env c status with ⟨hsome, -⟩ | ⟨-, final, e, hout, hresponds, hmade⟩
  · rw [Option.map_eq_none_iff.mp hnone] at hsome
    cases hsome
  · obtain ⟨path, connection, hview, hclose⟩ := hresponds.settled
    have hfinal : final = status ∨ final = RES_INTERNAL_ERROR := by
      refine hmade.imp (fun h => h.2.trans (if_pos ?_)) fun h => h.1
      omega
    have hcode : (500 : ℤ) = RES_INTERNAL_ERROR := rfl
    have hbad : ¬ (final ≥ 200 ∧ final < 300) := by omega
    rw [hout]
    refine ⟨⟨final, congrArg View.response hview, by omega, fun h => by omega⟩, ?_⟩
    exact (congrArg View.connection hview).trans (hclose hbad)

theorem generateResponse_failed (env : Env) (h : Failed c) (hstatus : 300 ≤ status) :
    Failed (generateResponse env c status).2 := by
  have hsame := generateResponse_same env c status
  obtain ⟨hints, hrequest⟩ := hsame.request
  refine ⟨hsame.header.trans h.header, hsame.body.trans h.body, ?_, ?_⟩
  · by_cases hnone : (view c).response = none
    · exact Or.inr (Or.inr (generateResponse_closes env hnone hstatus).2)
    · rw [generateResponse_owed env status hnone]
      exact h.owing
  · rw [hrequest]
    exact h.error

/-- The response for a broken message stops the parser. -/
theorem refused_answered (env : Env) {out : ℤ × Client} (h : Refused out)
    (hverdict : 300 ≤ out.1) : Between server text (generateResponse env out.2 out.1).2 := by
  cases h with
  | body hfailed => exact .failed (generateResponse_failed env hfailed hverdict)
  | head hheader hnone hongoing =>
    have hsame := generateResponse_same env out.2 out.1
    obtain ⟨⟨final, hresponse, hfinal, herror⟩, hconnection⟩ :=
      generateResponse_closes env hnone hverdict
    refine .stopped ⟨?_, ⟨final, hresponse, hfinal, ?_⟩, hconnection⟩
    · rw [hsame.header]
      exact hheader
    · intro h
      exact herror (hongoing (hsame.header.symm.trans h))

/-- What is to be read, the request and the response are those from before. -/
structure SameExchange (c d : Client) : Prop where
  header : d.headerStatus = c.headerStatus
  body : d.bodyStatus = c.bodyStatus
  buffer : d.buffer = c.buffer
  stream : d.bodyStream = c.bodyStream
  request : d.request = c.request
  response : d.response = c.response

theorem SameExchange.getRequest (h : SameExchange c d) : d.getRequest = c.getRequest := by
  unfold Client.getRequest
  rw [h.request]

theorem SameExchange.response_eq (h : SameExchange c d) :
    (view d).response = (view c).response := by
  show d.response.map _ = c.response.map _
  rw [h.response]

theorem SameExchange.connection (h : SameExchange c d) :
    (view d).connection = (view c).connection := by
  show d.getRequest.resHints.getHeader _ = c.getRequest.resHints.getHeader _
  rw [h.getRequest]

theorem SameExchange.owing (h : SameExchange c d) (howing : Owing c) : Owing d :=
  owing_of_body howing h.response (by rw [h.getRequest]) h.connection

theorem SameExchange.between (hsame : SameExchange c d) (h : Between server text c) :
    Between server text d := by
  have hget := hsame.getRequest
  cases h with
  | heading h =>
    refine .heading ⟨hsame.header.trans h.header, hsame.response_eq.trans h.response,
      hsame.stream.trans h.stream, ?_, ?_⟩
    · rw [hget]
      exact h.live
    · rw [hget, hsame.buffer]
      exact h.parses
  | stopped h =>
    refine .stopped ⟨?_, ?_, hsame.connection.trans h.connection⟩
    · rw [hsame.header]
      exact h.header
    · rw [hsame.response_eq, hsame.header]
      exact h.response
  | filling h =>
    refine .filling ⟨hsame.header.trans h.header, hsame.body.trans h.body, hsame.owing h.owing, ?_⟩
    rw [hget, hsame.buffer, hsame.stream]
    exact h.parts
  | failed h =>
    refine .failed ⟨hsame.header.trans h.header, hsame.body.trans h.body, hsame.owing h.owing, ?_⟩
    rw [hget]
    exact h.error
  | handed hbuffer hwhole =>
    refine .handed (hbuffer.trans hsame.buffer.symm) ⟨hsame.header.trans hwhole.1, ?_⟩
    rw [hsame.body]
    exact hwhole.2

/-- A client that has its request whole has handed it over. -/
theorem between_whole (h : Between server text c) (hwhole : Whole c) : text = c.buffer := by
  cases h with
  | heading h =>
    have hdone := hwhole.1
    rw [h.header] at hdone
    cases hdone
  | stopped h => exact absurd hwhole.1 h.header
  | filling h => exact absurd h.body hwhole.2
  | failed h => exact absurd h.body hwhole.2
  | handed hbuffer => exact hbuffer

theorem between_handed (h : Between server text c) (hwhole : Whole c)
    (hheader : d.headerStatus = c.headerStatus) (hbody : d.bodyStatus = c.bodyStatus)
    (hbuffer : d.buffer = c.buffer) : Between server text d := by
  refine .handed ((between_whole h hwhole).trans hbuffer.symm) ⟨hheader.trans hwhole.1, ?_⟩
  rw [hbody]
  exact hwhole.2

theorem between_sameIntake (h : Between server text c) (hwhole : Whole c) (hsame : SameIntake c d) :
    Between server text d := between_handed h hwhole hsame.header hsame.body hsame.buffer

/-- With its stream a body goes, and the bytes behind it stay. -/
theorem deleteBodyStream_takes (c : Client) :
    c.deleteBodyStream.buffer = c.buffer ∧ c.deleteBodyStream.bodyStream = none := by
  unfold Client.deleteBodyStream
  split
  · rename_i hnone
    exact ⟨rfl, hnone⟩
  · dsimp only
    split
    · exact ⟨rfl, rfl⟩
    · exact ⟨rfl, rfl⟩

/-- The bytes behind a message are the beginning of the next one. -/
theorem cleared_between (h : Between server text c) (hresponse : (view c).response ≠ none)
    (hclose : (view c).connection ≠ ascii "close")
    (hcontinue : ¬ ((view c).response = some RES_CONTINUE ∧ (view c).expect = CONTINUE)) :
    Between server text (c.clear.setMode .read) := by
  have howing : ¬ Owing c := by
    rintro (hnone | hboth | hclosing)
    · exact hresponse hnone
    · exact hcontinue hboth
    · exact hclose hclosing
  cases h with
  | heading h => exact absurd h.response hresponse
  | stopped h => exact absurd h.connection hclose
  | filling h => exact absurd h.owing howing
  | failed h => exact absurd h.owing howing
  | handed hbuffer hwhole =>
    obtain ⟨hbuffer', hstream'⟩ := deleteBodyStream_takes c
    have hkept : c.clear.buffer = c.buffer :=
      (deleteCGIProcess_same c.deleteBodyStream).buffer.trans hbuffer'
    have hstream : c.clear.bodyStream = none :=
      (deleteCGIProcess_same c.deleteBodyStream).stream.trans hstream'
    refine .heading ⟨rfl, rfl, hstream, ?_, ?_⟩
    · show Status.new ≠ .term
      decide
    · intro more
      show Request.parseHeaders {} (c.clear.buffer ++ more) = _
      rw [hkept, hbuffer]

/-- The answer 100 is out, and the body may come. -/
theorem continued_between (h : Between server text c)
    (hresponse : (view c).response = some RES_CONTINUE) :
    Between server text
      ((c.setRequest (c.getRequest.removeHeader (ascii "expect"))).clearResponse.setMode .read) := by
  have hheaders : ∀ name, Same iLess (ascii "expect") name = false →
      (c.getRequest.removeHeader (ascii "expect")).headers.find? name =
        c.getRequest.headers.find? name :=
    fun _ hname => OrderedMap.find?_erase_of_not_same _ hname
  cases h with
  | heading h =>
    rw [h.response] at hresponse
    cases hresponse
  | stopped h =>
    obtain ⟨status, hstatus, hlarge, -⟩ := h.response
    rw [hstatus, Option.some.injEq] at hresponse
    have hcode : RES_CONTINUE = 100 := rfl
    omega
  | filling h =>
    obtain ⟨head, r, seen, written, htext, hhead, hkept, hopen, hstream⟩ := h.parts
    exact .filling ⟨h.header, h.body, Or.inl rfl, head, r, seen, written, htext, hhead,
      hkept.kept ⟨rfl, rfl⟩ hheaders, hopen.of_hints _ c.getRequest.resHints, hstream⟩
  | failed h => exact .failed ⟨h.header, h.body, Or.inl rfl, h.error⟩
  | handed hbuffer hwhole => exact .handed hbuffer hwhole

/-- Whatever a client was reading when its time ran out, the response ends the connection. -/
theorem expired_between (env : Env) (request : Request) (h : Between server text c)
    (hnone : c.response = none) :
    Between server text (generateResponse env ((c.setMode .write).setRequest
      ((request.setStatus .complete).fillError 408 []).2) RES_TIMEOUT).2 := by
  have hresponse : (view c).response = none := by
    show c.response.map _ = none
    rw [hnone]
    rfl
  generalize hlate : (c.setMode .write).setRequest
    ((request.setStatus .complete).fillError 408 []).2 = late
  cases h with
  | heading h =>
    have hrefused : Refused (RES_TIMEOUT, late) := by
      subst hlate
      refine .head ?_ hresponse fun _ => ?_
      · show c.headerStatus ≠ .done
        rw [h.header]
        exact nofun
      · show (400 : ℤ) ≤ 408
        decide
    have hverdict : (300 : ℤ) ≤ 408 := by decide
    exact refused_answered env hrefused hverdict
  | stopped h =>
    obtain ⟨status, hstatus, -⟩ := h.response
    rw [hstatus] at hresponse
    cases hresponse
  | filling h =>
    subst hlate
    refine .failed (generateResponse_failed env ⟨h.header, h.body, Or.inl hresponse, rfl⟩ ?_)
    decide
  | failed h =>
    subst hlate
    refine .failed (generateResponse_failed env ⟨h.header, h.body, Or.inl hresponse, rfl⟩ ?_)
    decide
  | handed hbuffer hwhole =>
    subst hlate
    have hwhole' : Whole ((c.setMode .write).setRequest
      ((request.setStatus .complete).fillError 408 []).2) := hwhole
    have hlate : Between server text ((c.setMode .write).setRequest
      ((request.setStatus .complete).fillError 408 []).2) := .handed hbuffer hwhole'
    exact between_sameIntake hlate hwhole' (generateResponse_same env _ _)

end Replies

section Places

variable {server : ListenServer} {text bytes : Bytes} {c : Client}

/-- Bytes may be read for an incomplete head only where the parser goes on with it. -/
theorem between_heading (h : Between server text c) (hheader : c.headerStatus = .ongoing)
    (hreadable : (stages server).readable c) : Heading text c := by
  have hnot : ¬ c.headerStatus = .done := by
    rw [hheader]
    exact nofun
  cases h with
  | heading h => exact h
  | stopped h =>
    obtain ⟨status, hstatus, -, herror⟩ := h.response
    exact absurd ⟨hheader, status, hstatus, herror hheader⟩ hreadable
  | filling h => exact absurd h.header hnot
  | failed h => exact absurd h.header hnot
  | handed _ hwhole => exact absurd hwhole.1 hnot

/-- Bytes that come too early wait behind the message that was handed over. -/
theorem between_held (h : Between server text c) (hidle : Idle c) : Between server (text ++ bytes)
    { c.setRequest c.getRequest with buffer := c.buffer ++ bytes } := by
  cases h with
  | heading h => exact absurd h.header hidle.1
  | stopped h => exact .stopped ⟨h.header, h.response, h.connection⟩
  | filling h => exact absurd ⟨h.header, h.body⟩ hidle.2
  | failed h => exact absurd ⟨h.header, h.body⟩ hidle.2
  | handed hbuffer hwhole =>
    rw [hbuffer]
    exact .handed rfl hwhole

theorem between_taking (h : Between server text c) (hheader : c.headerStatus = .done)
    (hbody : c.bodyStatus = .ongoing) : Taking server text c := by
  cases h with
  | heading h =>
    rw [h.header] at hheader
    cases hheader
  | stopped h => exact absurd hheader h.header
  | filling h => exact .filling h
  | failed h => exact .failed h
  | handed _ hwhole => exact absurd hbody hwhole.2

theorem taking_between (h : Taking server text c) (hbody : c.bodyStatus = .ongoing) :
    Between server text c := by
  cases h with
  | filling h => exact .filling h
  | failed h => exact .failed h
  | complete h => exact absurd hbody h.whole.2

theorem taking_complete (h : Taking server text c) (hwhole : Whole c) : Complete server text c := by
  cases h with
  | filling h => exact absurd h.body hwhole.2
  | failed h => exact absurd h.body hwhole.2
  | complete h => exact h

theorem taking_taken (h : Taking server text c) (hbody : c.bodyStatus = .ongoing) :
    Ends (c.parseRequest bytes) fun out =>
      (out.1 ≤ 0 → Taking server (text ++ bytes) out.2) ∧ (0 < out.1 → Refused out) := by
  cases h with
  | filling h => exact filling_taken h
  | failed h =>
    refine (failed_taken h).mono ?_
    intro out hout
    refine ⟨fun _ => .failed hout.2, fun hpos => ?_⟩
    rw [hout.1] at hpos
    exact absurd hpos (lt_irrefl 0)
  | complete h => exact absurd hbody h.whole.2

theorem parseRequest_unhanded (bytes : Bytes) :
    Ends (c.parseRequest bytes) fun out => Unhanded c out.2 := by
  intro out hout
  obtain ⟨-, -, htrace, -⟩ := parseRequest_parsed c bytes out hout
  exact Adds.of_eq htrace

/-- A redirection by a process concerns a request that has been handed over. -/
theorem redirected_between (env : Env) (h : Between server text c) (hwhole : Whole c)
    (hredir : c.getRequest.resHints.cgiRedir ≠ .none) :
    Ends (handleRequestHeaders env c) fun out => Between server text out.2 ∧ Whole out.2 := by
  intro out hout
  have hbuffer := (handleRequestHeaders_unread env c out hout).buffer
  have hsame : out.2.headerStatus = c.headerStatus ∨ out.2.headerStatus = .done := by
    rcases handleRequestHeaders_checked env c out hout with hrefused | haccepted
    · obtain ⟨body, type, path, expect, hview⟩ := hrefused.settled
      exact Or.inl (congrArg View.header hview)
    · obtain ⟨body, type, path, hview⟩ := haccepted.settled
      have hheader := congrArg View.header hview
      split at hheader
      · exact Or.inr hheader
      · exact Or.inr hheader
  have hheader : out.2.headerStatus = c.headerStatus := by
    rcases hsame with heq | hdone
    · exact heq
    · rw [hdone, hwhole.1]
  have hbody : out.2.bodyStatus = c.bodyStatus := by
    rcases handleRequestHeaders_checked env c out hout with hrefused | haccepted
    · exact hrefused.body_eq hredir
    · exact haccepted.body_eq hredir
  refine ⟨between_handed h hwhole hheader hbody hbuffer, hheader.trans hwhole.1, ?_⟩
  rw [hbody]
  exact hwhole.2

end Places

/-- The operations that hand nothing over keep the server and look hosts up at most. -/
theorem parseRequest_quiet (c : Client) (bytes : Bytes) :
    Ends (c.parseRequest bytes) fun out => Quiet c out.2 := fun out hout =>
  .of_same (parseRequest_unhanded bytes out hout) (parseRequest_sameHost c bytes out hout)

theorem handleRequestHeaders_quiet (env : Env) (c : Client) :
    Ends (handleRequestHeaders env c) fun out => Quiet c out.2 := fun out hout =>
  ⟨(handleRequestHeaders_unread env c out hout).unhanded,
    handleRequestHeaders_asks env (Asks.refl c) out hout⟩

theorem checkHeaders_quiet (env : Env) (c : Client) :
    Ends (checkHeaders env c) fun out => Quiet c out.2 := by
  unfold checkHeaders
  refine Ends.bind (handleRequestHeaders_quiet env _) ?_
  intro out hout
  have hnone : Quiet c { c with bodyStatus := .none } := .of_same (Adds.of_eq rfl) ⟨rfl, rfl⟩
  exact ends_pure.mpr ((hnone.trans hout).trans (.of_same (Adds.record rfl rfl) ⟨rfl, rfl⟩))

theorem generateResponse_quiet (env : Env) (c : Client) (status : ℤ) :
    Quiet c (generateResponse env c status).2 :=
  .of_same (generateResponse_unhanded env status) (generateResponse_sameHost env c status)

/-- Every operation of a step keeps the bytes, the messages and the place together. -/
theorem messages_staged (server : ListenServer) : Staged (stages server) where
  fresh c := by
    rintro ⟨-, status, hstatus, -⟩
    cases hstatus
  read t c bytes hc hheader hreadable out hout := by
    have hquiet := parseRequest_quiet c bytes out hout
    have hread : ∀ text, Between server text c → (out.1 < 0 → Headed (text ++ bytes) out.2) ∧
        (out.1 = 0 → Heading (text ++ bytes) out.2) ∧ (0 < out.1 → Refused out) :=
      fun text h => heading_read (between_heading h hheader hreadable) out hout
    refine ⟨fun hneg => ?_, fun hzero => ?_, fun hpos => ?_⟩
    · exact hc.moves hquiet fun text h _ => (hread text h).1 hneg
    · exact hc.moves hquiet fun text h _ => .heading ((hread text h).2.1 hzero)
    · show Behind server (fun _ c => Refused (out.1, c)) _ out.2
      exact hc.moves hquiet fun text h _ => (hread text h).2.2 hpos
  held t c bytes hc hidle :=
    hc.moves (.of_same (Adds.of_eq rfl) ⟨rfl, rfl⟩) fun text h _ => between_held h hidle
  checked t env c hc _ out hout := by
    have hquiet := checkHeaders_quiet env c out hout
    refine ⟨fun hzero => ?_, fun hne => ?_⟩
    · exact hc.stays hquiet fun text h hbelongs => (headed_checked env h hbelongs out hout).1 hzero
    · show Behind server (fun _ c => Refused (out.1, c)) _ out.2
      exact hc.stays hquiet fun text h hbelongs => (headed_checked env h hbelongs out hout).2 hne
  resumed t c hc hheader hbody _ :=
    hc.stays (.of_same (Adds.of_eq rfl) ⟨rfl, rfl⟩) fun text h _ => between_taking h hheader hbody
  taken t c bytes hc _ hbody out hout := by
    have hquiet := parseRequest_quiet c bytes out hout
    refine ⟨fun hle => ?_, fun hpos => ?_⟩
    · exact hc.moves hquiet fun text h _ => (taking_taken h hbody out hout).1 hle
    · show Behind server (fun _ c => Refused (out.1, c)) _ out.2
      exact hc.moves hquiet fun text h _ => (taking_taken h hbody out hout).2 hpos
  paused t c hc _ hbody :=
    hc.stays (.of_same (Adds.of_eq rfl) ⟨rfl, rfl⟩) fun text h _ => taking_between h hbody
  done t c hc hwhole := complete_done (hc.stays (.of_same (Adds.of_eq rfl) (SameHost.refl c))
    fun text h _ => taking_complete h hwhole)
  refused t env out hc hverdict := by
    have hrefused : Behind server (fun _ c => Refused (out.1, c)) t out.2 := hc
    exact hrefused.stays (generateResponse_quiet env out.2 out.1)
      fun text h _ => refused_answered env h hverdict
  answered t env c status hc hwhole := hc.stays (generateResponse_quiet env c status)
    fun text h _ => between_sameIntake h hwhole (generateResponse_same env c status)
  started t env c hc hwhole _ :=
    hc.stays (.of_same (generateCGIProcess_unhanded env) (generateCGIProcess_sameHost env c))
      fun text h _ => between_sameIntake h hwhole (generateCGIProcess_same env c)
  removed t c hc := by
    refine hc.stays (.of_same deleteCGIProcess_unhanded (deleteCGIProcess_sameHost c)) ?_
    intro text h _
    refine SameExchange.between ?_ h
    unfold Client.deleteCGIProcess
    split
    · exact ⟨rfl, rfl, rfl, rfl, rfl, rfl⟩
    · exact ⟨rfl, rfl, rfl, rfl, rfl, rfl⟩
  judged t fs c verdict r hc hwhole _ := hc.stays (.of_same (Adds.of_eq rfl) ⟨rfl, rfl⟩)
    fun text h _ => between_handed h hwhole rfl rfl rfl
  redirected t env c hc hwhole _ hredir _ out hout := by
    have hquiet := handleRequestHeaders_quiet env c out hout
    refine ⟨fun _ => ?_, fun _ => ?_⟩
    · exact hc.stays hquiet fun text h _ => (redirected_between env h hwhole hredir out hout).1
    · refine hc.stays (hquiet.trans (generateResponse_quiet env out.2 out.1)) ?_
      intro text h _
      obtain ⟨hbetween, hwhole'⟩ := redirected_between env h hwhole hredir out hout
      exact between_sameIntake hbetween hwhole' (generateResponse_same env out.2 out.1)
  reaped t c p q hc _ _ := by
    have hsame : SameExchange c { c with cgiProcess := some q } := ⟨rfl, rfl, rfl, rfl, rfl, rfl⟩
    exact hc.stays (.of_same (Adds.of_eq rfl) ⟨rfl, rfl⟩) fun text h _ => hsame.between h
  sent t c rest bytes hc := by
    have hsame : SameExchange c ({ c with outBuffers := rest }.record (.sent bytes)) :=
      ⟨rfl, rfl, rfl, rfl, rfl, rfl⟩
    exact hc.stays (.of_same (Adds.record rfl rfl) ⟨rfl, rfl⟩) fun text h _ => hsame.between h
  continued t c hc hresponse _ := hc.stays (.of_same (Adds.of_eq rfl) ⟨rfl, rfl⟩)
    fun text h _ => continued_between h hresponse
  cleared t c hc hresponse hclose hcontinue := by
    have hcleared := clear_sameHost c
    have hquiet : Quiet c (c.clear.setMode .read) :=
      .of_same (clear_unhanded.trans (Adds.of_eq rfl)) ⟨hcleared.server, hcleared.host⟩
    exact hc.stays hquiet
      fun text h _ => cleared_between h hresponse hclose hcontinue
  expired t env c request hc _ hnone _ := by
    refine hc.stays ?_ fun text h _ => expired_between env request h hnone
    have hlate : Quiet c ((c.setMode .write).setRequest
        ((request.setStatus .complete).fillError 408 []).2) :=
      .of_same (Adds.of_eq rfl) ⟨rfl, rfl⟩
    exact hlate.trans (generateResponse_quiet env _ RES_TIMEOUT)

end Webserveau.MessageSteps
