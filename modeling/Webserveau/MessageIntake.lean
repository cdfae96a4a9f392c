import Webserveau.BodyTargets
import Webserveau.CleanRequests
import Webserveau.BodyShapes
import Webserveau.HostLookups
import Webserveau.Messages
import Webserveau.RefusedRequests
import Webserveau.UploadStarts

/-!
The messages that a client takes in, one byte string at a time.
At each place of a step it is known which bytes belong to messages that were handed over, and
how far the parser is in what follows them: in a head, in a body, or where it stops. Each
operation of a step takes a client from one of these places to another, and only the end of a
body adds a message.
-/
namespace Webserveau.MessageIntake

open ByteStrings OrderedMaps Formats Requests Clients EventLoop Checks HeadSafety ParserFrames
  Transitions Replies LoopInvariants LoopSteps HeadSegmentation BodySegmentation Acceptance
  BodyIntake ContentLength ChunkedMessages ChunkedIntake UploadIntake UploadStarts BodyTargets
  CleanRequests BodyShapes HandlerRules HostLookups Framings Messages

section Bodies

variable {r q : Request} {seen written x : Bytes}

/-- A stream, if there is one, holds some bytes. -/
def Holds (stream : Option BodyStream) (written : Bytes) : Prop :=
  ∀ s, stream = some s → s.written = written

/-- Headers, method and URI are those that the head gave. -/
structure SameHead (q q' : Request) : Prop where
  headers : q'.headers = q.headers
  target : SameTarget q q'

theorem parseInput_sameHead (q : Request) (stream : Option BodyStream) (x : Bytes) :
    Ends (Request.parseInput (q, stream) x) fun out => SameHead q out.2.1.1 := fun _ hout =>
  ⟨parseInput_keepsHeaders _ _ _ hout, (parseInput_onTarget _ _ _ hout).toSameTarget⟩

theorem bodyOpen_receiving (h : BodyOpen r seen q written) : Receiving q := by
  cases h with
  | measured _ hreceiving => exact hreceiving
  | chunked _ hreceiving => exact hreceiving

/-- Where the parser ends a body, the body that the head announces ends. -/
theorem parseInput_ends {stream : BodyStream} (h : BodyOpen r seen q stream.written)
    {b : Body} {rest : Bytes} (hout : Request.parseInput (q, some stream) x = .ok (-1, b, rest)) :
    ∃ text payload, seen ++ x = text ++ rest ∧ BodyOf r text payload ∧ Holds b.2 payload := by
  by_cases hx : x = []
  · rw [hx, parseInput_nil] at hout
    cases hout
  · cases h with
    | measured hplain hreceiving hq hlength hlen hwritten =>
      obtain ⟨hlow, hlt, -⟩ := hreceiving.framed.resolve_left (by simp [hq])
      rw [hlength, hlen] at hlt
      obtain ⟨hshort, hfull⟩ := parseInput_counts hreceiving hq hlength hlen (some stream) x
      by_cases hmore : x.length < (bodyLength r).toNat - seen.length
      · obtain ⟨q', -, -, -, hparse⟩ := hshort hmore
        rw [hout] at hparse
        cases hparse
      · obtain ⟨q', -, hparse⟩ := hfull (by omega)
        rw [hout, Except.ok.injEq] at hparse
        cases hparse
        refine ⟨seen ++ x.take ((bodyLength r).toNat - seen.length), _, ?_, .measured hplain ?_, ?_⟩
        · rw [List.append_assoc, List.take_append_drop]
        · rw [List.length_append, List.length_take]
          omega
        · intro s hs
          cases hs
          show stream.written ++ _ = seen ++ _
          rw [hwritten]
    | chunked hchunked hreceiving hq hmidway =>
      have hgrown : Midway (growBody (entered q) x.length) seen stream.written := by
        obtain ⟨cs, tail, hseen, hpayload, hpending⟩ := hmidway
        refine ⟨cs, tail, hseen, hpayload, ?_⟩
        cases hpending with
        | size hstatus => exact .size hstatus
        | data hstatus hsize hn hlen => exact .data hstatus hsize hn hlen
      rw [parseInput_chunked hreceiving hq (some stream) hx] at hout
      obtain ⟨⟨stream', hstream, -, -, hdone⟩, -, -⟩ :=
        chunkLoop_takenIn _ x stream seen hgrown _ hout
      obtain ⟨body, hbytes, hpayload⟩ := hdone rfl
      refine ⟨body.bytes, body.payload, hbytes, .chunked body hchunked, ?_⟩
      intro s hs
      rw [show b.2 = some stream' from hstream, Option.some.injEq] at hs
      rw [← hs, hpayload]

/-- What the parser of a body makes of more bytes. -/
structure TakesOn (r q : Request) (seen : Bytes) (out : ℤ × Body × Bytes) : Prop where
  head : SameHead q out.2.1.1
  waits : out.1 = 0 → out.2.2 = [] ∧ ∃ written, BodyOpen r seen out.2.1.1 written ∧
    Holds out.2.1.2 written
  ends : out.1 = -1 → ∃ text payload, seen = text ++ out.2.2 ∧ BodyOf r text payload ∧
    Holds out.2.1.2 payload
  fails : 0 < out.1 → out.2.1.1.final_status = .error

/-- With or without a stream the parser finds the same end of a body. -/
theorem parseInput_takesOn (h : BodyOpen r seen q written) {stream : Option BodyStream}
    (hstream : Holds stream written) (x : Bytes) :
    Ends (Request.parseInput (q, stream) x) (TakesOn r q (seen ++ x)) := by
  have hsome : ∀ s : BodyStream, s.written = written →
      Ends (Request.parseInput (q, some s) x) (TakesOn r q (seen ++ x)) := by
    rintro s rfl out hout
    obtain ⟨-, ⟨s', hs', -, hopen, -⟩, hfails⟩ := parseInput_parses h x out hout
    refine ⟨parseInput_sameHead _ _ _ _ hout, ?_, ?_, hfails⟩
    · intro hzero
      obtain ⟨hrest, hbody⟩ := hopen hzero
      refine ⟨hrest, s'.written, hbody, ?_⟩
      intro t ht
      rw [hs', Option.some.injEq] at ht
      rw [ht]
    · intro hend
      obtain ⟨res, b, rest⟩ := out
      dsimp only at hend
      subst hend
      exact parseInput_ends h hout
  cases hcase : stream with
  | some s => exact hsome s (hstream s hcase)
  | none =>
    intro out hout
    -- the answer is the one that a stream would have brought about
    have hsame := parseInput_headers (bodyOpen_receiving h) q.headers
      (some { opened := true, written }) x
    rw [show ({ q with headers := q.headers } : Request) = q from rfl, hout] at hsame
    cases hghost : Request.parseInput (q, some { opened := true, written }) x with
    | error e =>
      rw [hghost] at hsame
      cases hsame
    | ok ghost =>
      rw [hghost] at hsame
      change Except.ok out = Except.ok (bare q.headers ghost) at hsame
      obtain ⟨hhead, hopen, hends, hfails⟩ := hsome _ rfl ghost hghost
      rw [Except.ok.injEq] at hsame
      subst hsame
      refine ⟨⟨rfl, hhead.target.method, hhead.target.uri⟩, ?_, ?_, hfails⟩
      · intro hzero
        obtain ⟨hrest, written', hbody, -⟩ := hopen hzero
        exact ⟨hrest, written', hbody.of_hints q.headers _, nofun⟩
      · intro hend
        obtain ⟨text, payload, hseen, hbody, -⟩ := hends hend
        exact ⟨text, payload, hseen, hbody, nofun⟩

end Bodies

section Served

variable {server : ListenServer}

/-- A request that is served has the head of a message. Its URI has got the default that the
host it is addressed to has for it, and its wait for the answer 100 may be over. -/
structure Serves (server : ListenServer) (r q : Request) : Prop where
  method : q.method = r.method
  target : ∃ host suffix, Addressed server r host ∧ Completed host r.uri suffix ∧
    q.uri = r.uri ++ suffix
  headers : ∀ name, Same iLess (ascii "expect") name = false →
    q.headers.find? name = r.headers.find? name

theorem Serves.kept {r q s : Request} (h : Serves server r q) (hsame : SameTarget q s)
    (hheaders : ∀ name, Same iLess (ascii "expect") name = false →
      s.headers.find? name = q.headers.find? name) : Serves server r s where
  method := hsame.method.trans h.method
  target := by
    rw [hsame.uri]
    exact h.target
  headers name hname := (hheaders name hname).trans (h.headers name hname)

theorem Serves.sameHead {r q s : Request} (h : Serves server r q) (hsame : SameHead q s) :
    Serves server r s := by
  refine h.kept hsame.target ?_
  intro name _
  rw [hsame.headers]

/-- A message is handed over with what was served of its head and what its body carries. -/
def HandedOver (server : ListenServer) (m : Message) : Action → Prop
  | .bodyDone method uri headers stream =>
    Serves server m.1 { method := method, uri := uri, headers := headers } ∧ Holds stream m.2
  | _ => False

/-- What a client has handed over are some messages, in their order. -/
def Carried (server : ListenServer) (ms : List Message) (c : Client) : Prop :=
  List.Forall₂ (HandedOver server) ms (c.trace.filter handsOver)

theorem Carried.unhanded {ms : List Message} {c d : Client} (h : Carried server ms c)
    (hunhanded : Unhanded c d) : Carried server ms d := by
  obtain ⟨actions, htrace, hactions⟩ := hunhanded
  have hnone : actions.filter handsOver = [] := by
    rw [List.filter_eq_nil_iff]
    intro a ha
    rw [hactions a ha]
    exact Bool.false_ne_true
  unfold Carried
  rw [htrace, List.filter_append, hnone, List.append_nil]
  exact h

end Served

/-- No response is owed that lets the connection go on with another request. -/
def Owing (c : Client) : Prop :=
  (view c).response = none ∨
    (view c).response = some RES_CONTINUE ∧ (view c).expect = CONTINUE ∨
      (view c).connection = ascii "close"

/-- The parser is in a head; it goes on as if it had all the text at once. -/
structure Heading (text : Bytes) (c : Client) : Prop where
  header : c.headerStatus = .ongoing
  response : (view c).response = none
  stream : c.bodyStream = none
  live : Open c.getRequest
  parses : ∀ more, c.getRequest.parseHeaders (c.buffer ++ more) =
    Request.parseHeaders {} (text ++ more)

/-- A head was refused: the response is owed that ends the connection. -/
structure Stopped (c : Client) : Prop where
  header : c.headerStatus ≠ .done
  response : ∃ status, (view c).response = some status ∧ 300 ≤ status ∧
    (c.headerStatus = .ongoing → 400 ≤ status)
  connection : (view c).connection = ascii "close"

/-- The parser is in the body of a head. -/
structure Filling (server : ListenServer) (text : Bytes) (c : Client) : Prop where
  header : c.headerStatus = .done
  body : c.bodyStatus = .ongoing
  owing : Owing c
  parts : ∃ head r seen written, text = head ++ seen ++ c.buffer ∧ HeadOf head r ∧
    Serves server r c.getRequest ∧ BodyOpen r seen c.getRequest written ∧ Holds c.bodyStream written

/-- The parser has given a body up. -/
structure Failed (c : Client) : Prop where
  header : c.headerStatus = .done
  body : c.bodyStatus = .ongoing
  owing : Owing c
  error : c.getRequest.final_status = .error

/-- The body of a head is in, and not handed over. -/
structure Complete (server : ListenServer) (text : Bytes) (c : Client) : Prop where
  whole : Whole c
  parts : ∃ head r body payload, text = head ++ body ++ c.buffer ∧ HeadOf head r ∧
    Serves server r c.getRequest ∧ BodyOf r body payload ∧ Holds c.bodyStream payload

/-- How far the parser is in the bytes behind the messages, between two events. -/
inductive Between (server : ListenServer) (text : Bytes) (c : Client) : Prop
  | heading : Heading text c → Between server text c
  | stopped : Stopped c → Between server text c
  | filling : Filling server text c → Between server text c
  | failed : Failed c → Between server text c
  | handed : text = c.buffer → Whole c → Between server text c

/-- A head that has just been completed. -/
structure Headed (text : Bytes) (c : Client) : Prop where
  header : c.headerStatus = .ready
  response : (view c).response = none
  stream : c.bodyStream = none
  parses : Request.parseHeaders {} text = .ok (-1, c.getRequest, c.buffer)

inductive Taking (server : ListenServer) (text : Bytes) (c : Client) : Prop
  | filling : Filling server text c → Taking server text c
  | failed : Failed c → Taking server text c
  | complete : Complete server text c → Taking server text c

/-- A code that a response is due for. -/
inductive Refused (out : ℤ × Client) : Prop
  | head : out.2.headerStatus ≠ .done → (view out.2).response = none →
      (out.2.headerStatus = .ongoing → 400 ≤ out.1) → Refused out
  | body : Failed out.2 → Refused out

/-- Messages that were handed over, and a place in what follows them. -/
def Behind (server : ListenServer) (place : Bytes → Client → Prop) (t : Bytes) (c : Client) :
    Prop :=
  Belongs server c ∧ ∃ front ms text, t = front ++ text ∧ Framed Spells front ms ∧
    Carried server ms c ∧ place text c

/-- What is known of a client at each place of a step, in terms of the bytes it has read. -/
def stages (server : ListenServer) : Stages where
  readable c := ¬ (c.headerStatus = .ongoing ∧ RefusedRequests.ErrorPending (view c))
  between := Behind server (Between server)
  headed := Behind server Headed
  taking := Behind server (Taking server)
  refused t out := Behind server (fun _ c => Refused (out.1, c)) t out.2

/-- What a step that hands nothing over leaves as it is. -/
structure Quiet (c d : Client) : Prop where
  unhanded : Unhanded c d
  asks : Asks c d

theorem Quiet.trans {c d e : Client} (h : Quiet c d) (h' : Quiet d e) : Quiet c e :=
  ⟨h.unhanded.trans h'.unhanded, h.asks.trans h'.asks⟩

theorem Quiet.of_same {c d : Client} (hunhanded : Unhanded c d) (hsame : SameHost c d) :
    Quiet c d :=
  ⟨hunhanded, (Asks.refl c).same hsame⟩

section Steps

variable {server : ListenServer} {place place' : Bytes → Client → Prop} {t bytes : Bytes}
  {c d : Client}

/-- A step that hands nothing over moves the place. -/
theorem Behind.moves (h : Behind server place t c) (hquiet : Quiet c d)
    (hplace : ∀ text, place text c → Belongs server c → place' (text ++ bytes) d) :
    Behind server place' (t ++ bytes) d := by
  obtain ⟨hbelongs, front, ms, text, rfl, hframed, hcarried, htext⟩ := h
  exact ⟨hbelongs.asks hquiet.asks, front, ms, text ++ bytes, List.append_assoc _ _ _, hframed,
    hcarried.unhanded hquiet.unhanded, hplace text htext hbelongs⟩

theorem Behind.stays (h : Behind server place t c) (hquiet : Quiet c d)
    (hplace : ∀ text, place text c → Belongs server c → place' text d) :
    Behind server place' t d := by
  have hmoves : Behind server place' (t ++ []) d := by
    refine h.moves hquiet ?_
    intro text htext hbelongs
    rw [List.append_nil]
    exact hplace text htext hbelongs
  rwa [List.append_nil] at hmoves

end Steps

end Webserveau.MessageIntake
