import Webserveau.Transitions

/-!
What reading from the connection can do to a client.
Bytes that arrive after a complete request wait in the buffer. A request is only handed
to a cgi process with its head done and no part of its body outstanding.
-/
namespace Webserveau.Intake

open ByteStrings OrderedMaps Formats Requests Clients EventLoop Checks HeadSafety ParserFrames
  Transitions

/-- What the intake of bytes keeps, and what it ends with. -/
structure Received (c : Client) (res : ℤ) (c' : Client) : Prop where
  cgi_eq : (view c').cgi = (view c).cgi
  connection_eq : (view c').connection = (view c).connection
  reply : (view c').mode = (view c).mode ∧ (view c').response = (view c).response ∨
    (view c').mode = .write ∧ (view c').response = some 100
  ready : res = RES_OK → (view c').type = .cgi →
    (view c').header = .done ∧ (view c').body ≠ .ongoing
  adds : Adds (fun a => ¬ Misplaced a) c c'
  alive_eq : c'.alive = c.alive

theorem Received.of_view {c c' : Client} {res : ℤ} {header : HeaderStatus} {body : BodyStatus}
    {expect : Bytes}
    (hview : view c' = { view c with header := header, body := body, expect := expect })
    (htrace : c'.trace = c.trace) (halive : c'.alive = c.alive) (hres : Answer res) :
    Received c res c' where
  cgi_eq := by rw [hview]
  connection_eq := by rw [hview]
  reply := Or.inl ⟨by rw [hview], by rw [hview]⟩
  ready := by
    intro hok
    have hpos : res = 200 := hok
    rcases hres with h | h | h
    · omega
    · omega
    · omega
  adds := Adds.of_eq htrace
  alive_eq := halive

/-- What comes after does not undo what was kept. -/
theorem Received.after {c d c' : Client} {res : ℤ} (hcgi : (view d).cgi = (view c).cgi)
    (hconnection : (view d).connection = (view c).connection)
    (hreply : (view d).mode = (view c).mode ∧ (view d).response = (view c).response ∨
      (view d).mode = .write ∧ (view d).response = some 100)
    (hadds : Adds (fun a => ¬ Misplaced a) c d) (halive : d.alive = c.alive)
    (h : Received d res c') : Received c res c' where
  cgi_eq := h.cgi_eq.trans hcgi
  connection_eq := h.connection_eq.trans hconnection
  reply := by
    rcases h.reply with ⟨hmode, hresponse⟩ | hcontinue
    · rw [hmode, hresponse]
      exact hreply
    · exact Or.inr hcontinue
  ready := h.ready
  adds := hadds.trans h.adds
  alive_eq := h.alive_eq.trans halive

theorem handleRequestBodyDone_view (c : Client) :
    (∃ path, view (handleRequestBodyDone c).2 = { view c with path := path }) ∧
      Adds (fun a => ¬ Misplaced a) c (handleRequestBodyDone c).2 ∧
      (handleRequestBodyDone c).2.alive = c.alive := by
  have hdone : Adds (fun a => ¬ Misplaced a) c
      (c.record (.bodyDone c.getRequest.method c.getRequest.uri c.getRequest.headers
        c.bodyStream)) := Adds.record rfl (by intro h; exact h)
  unfold handleRequestBodyDone
  dsimp only
  split
  · exact ⟨⟨(view c).path, rfl⟩, hdone, rfl⟩
  · split
    · refine ⟨⟨[], rfl⟩, ?_, rfl⟩
      have hdelete : ∀ d : Client, Adds (fun a => ¬ Misplaced a) d (handleDeleteMethod d) :=
        fun d => Adds.record rfl (by intro h; exact h)
      exact (hdone.trans (hdelete _)).trans (Adds.of_eq rfl)
    · exact ⟨⟨(view c).path, rfl⟩, hdone, rfl⟩

/-- The end of the intake, for a request whose head is done. -/
theorem finishBody_received {c : Client} {res : ℤ} (hheader : (view c).header = .done)
    (hres : res ≠ RES_OK) : Received c (finishBody res c).1 (finishBody res c).2 := by
  unfold finishBody
  split
  · rename_i hdone
    obtain ⟨⟨path, hview⟩, hadds, halive⟩ := handleRequestBodyDone_view c
    have hbody : (view c).body ≠ .ongoing := hdone.2
    refine ⟨by rw [hview], by rw [hview], Or.inl ⟨by rw [hview], by rw [hview]⟩, ?_, hadds,
      halive⟩
    intro _ _
    rw [hview]
    exact ⟨hheader, hbody⟩
  · refine ⟨rfl, rfl, Or.inl ⟨rfl, rfl⟩, ?_, Adds.of_eq rfl, rfl⟩
    intro h
    exact absurd h hres

theorem answer_not_ok {res : ℤ} (h : Answer res) : res ≠ RES_OK := by
  intro hok
  have hpos : res = 200 := hok
  rcases h with h | h | h
  · omega
  · omega
  · omega

/-- Parsing keeps a head that is done. -/
theorem Parsed.keeps {c c' : Client} {res : ℤ} (h : Parsed c res c') :
    ∃ header body expect,
      view c' = { view c with header := header, body := body, expect := expect } ∧
        ((view c).header = .done → header = .done) := by
  cases h with
  | head expect hheader hview =>
    refine ⟨_, (view c).body, expect, hview, ?_⟩
    intro hdone
    have hongoing : (view c).header = .ongoing := hheader
    rw [hongoing] at hdone
    cases hdone
  | body expect hheader hbody hview => exact ⟨(view c).header, _, expect, hview, fun h => h⟩
  | idle hidle hres hview => exact ⟨_, _, _, hview, fun h => h⟩

theorem startBody_received {c : Client} (hheader : (view c).header = .done) :
    Ends (startBody c) fun out => Received c out.1 out.2 := by
  unfold startBody
  refine Ends.bind (P := fun out : ℤ × Client => Answer out.1 ∧ out.2.trace = c.trace ∧
    out.2.alive = c.alive ∧ ∃ body expect,
      view out.2 = { view c with body := body, expect := expect }) ?_ ?_
  · unfold parseRest
    split
    · refine (parseRequest_parsed c []).mono ?_
      intro out hout
      obtain ⟨hanswer, hparsed, htrace, halive, -⟩ := hout
      obtain ⟨header, body, expect, hview, hkeeps⟩ := Parsed.keeps hparsed
      rw [hkeeps hheader, ← hheader] at hview
      exact ⟨hanswer, htrace, halive, body, expect, hview⟩
    · exact ends_ok.mpr ⟨Or.inl rfl, rfl, rfl, (view c).body, (view c).expect, rfl⟩
  · intro out hout
    obtain ⟨hanswer, htrace, halive, body, expect, hview⟩ := hout
    refine ends_pure.mpr ?_
    refine Received.after (by rw [hview]) (by rw [hview])
      (Or.inl ⟨by rw [hview], by rw [hview]⟩) (Adds.of_eq htrace) halive ?_
    exact finishBody_received (by rw [hview]; exact hheader) (answer_not_ok hanswer)

theorem checkHeaders_checked (env : Env) (c : Client) :
    Ends (checkHeaders env c) fun out => ∃ d,
      HeadersChecked { c with bodyStatus := .none } (out.1, d) ∧
        out.2 = d.record (.checked out.1) := by
  unfold checkHeaders
  refine Ends.bind (handleRequestHeaders_checked env _) ?_
  intro out hout
  exact ends_pure.mpr ⟨out.2, hout, rfl⟩

/-- A complete head is refused or taken up. -/
theorem takeUp_received (env : Env) (c : Client) :
    Ends (andThen (checkHeaders env c) startBody) fun out => Received c out.1 out.2 := by
  refine Ends.andThen (I := fun d => (view d).header = .done ∧
    (view d).cgi = (view c).cgi ∧ (view d).connection = (view c).connection ∧
    ((view d).mode = (view c).mode ∧ (view d).response = (view c).response ∨
      (view d).mode = .write ∧ (view d).response = some 100) ∧
    Adds (fun a => ¬ Misplaced a) c d ∧ d.alive = c.alive) ?_ ?_
  · refine (checkHeaders_checked env c).mono ?_
    intro out hout
    obtain ⟨res, c'⟩ := out
    obtain ⟨d, hchecked, hrecord⟩ := hout
    dsimp only at hchecked hrecord ⊢
    subst hrecord
    rcases hchecked with hrefused | haccepted
    · obtain ⟨hverdict, ⟨body, type, path, expect, hview⟩, htrace, halive, -⟩ := hrefused
      dsimp only at hverdict hview htrace halive
      constructor
      · intro hzero
        omega
      · intro _
        have hview' : view (d.record (.checked res)) =
            { view c with body := body, type := type, path := path, expect := expect } := hview
        refine ⟨by rw [hview'], by rw [hview'], Or.inl ⟨by rw [hview'], by rw [hview']⟩, ?_,
          Adds.record htrace fun h => h, halive⟩
        intro hok
        have hpos : res = 200 := hok
        omega
    · obtain ⟨hverdict, ⟨body, type, path, hview⟩, hadds, halive, -⟩ := haccepted
      dsimp only at hverdict hview hadds halive
      constructor
      · intro _
        have hadds' : Adds (fun a => ¬ Misplaced a) c (d.record (.checked res)) :=
          Adds.trans (hadds.mono fun a ha => ha.1) (Adds.record rfl fun h => h)
        have hview' : view (d.record (.checked res)) = _ := hview
        split at hview'
        · refine ⟨by rw [hview'], by rw [hview']; rfl, by rw [hview']; rfl, ?_, hadds', halive⟩
          rw [hview']
          exact Or.inr ⟨rfl, rfl⟩
        · refine ⟨by rw [hview'], by rw [hview']; rfl, by rw [hview']; rfl, ?_, hadds', halive⟩
          rw [hview']
          exact Or.inl ⟨rfl, rfl⟩
      · intro hne
        exact absurd hverdict hne
  · intro d hd
    obtain ⟨hheader, hcgi, hconnection, hreply, hadds, halive⟩ := hd
    refine (startBody_received hheader).mono ?_
    intro out hout
    exact hout.after hcgi hconnection hreply hadds halive

/-- The intake of bytes: nothing happens to an idle client, and the rest is kept. -/
theorem receive_received (env : Env) (c : Client) (bytes : Bytes) :
    Ends (receive env c bytes) fun out => Received c out.1 out.2 ∧
      (Idle c → out.1 = 0 ∧ view out.2 = view c ∧ out.2.trace = c.trace) := by
  unfold receive
  refine Ends.bind (parseRequest_parsed c bytes) ?_
  intro out hout
  obtain ⟨res, d⟩ := out
  obtain ⟨hanswer, hparsed, htrace, halive, -⟩ := hout
  dsimp only at hanswer hparsed htrace halive ⊢
  obtain ⟨header, body, expect, hview, -⟩ := Parsed.keeps hparsed
  split
  · refine ends_pure.mpr ⟨Received.of_view hview htrace halive hanswer, ?_⟩
    intro hidle
    cases hparsed with
    | head expect hheader hview => exact absurd hheader hidle.1
    | body expect hheader hbody hview => exact absurd ⟨hheader, hbody⟩ hidle.2
    | idle _ hres hview => exact ⟨hres, hview, htrace⟩
  · rename_i hneg
    have hbusy : ¬ Idle c := by
      intro hidle
      cases hparsed with
      | head expect hheader hview => exact hidle.1 hheader
      | body expect hheader hbody hview => exact hidle.2 ⟨hheader, hbody⟩
      | idle _ hres hview =>
        omega
    have hkept : ∀ {res' : ℤ} {c' : Client}, Received d res' c' → Received c res' c' := by
      intro res' c' h
      exact h.after (by rw [hview]) (by rw [hview]) (Or.inl ⟨by rw [hview], by rw [hview]⟩)
        (Adds.of_eq htrace) halive
    split
    · refine (takeUp_received env d).mono ?_
      intro out hout
      exact ⟨hkept hout, fun hidle => absurd hidle hbusy⟩
    · rename_i hready
      have hdone : (view d).header = .done := by
        cases hparsed with
        | head expect hheader hview' =>
          have hheader' : (view d).header = .ready := by
            rw [hview', if_pos (by omega)]
          exact absurd hheader' hready
        | body expect hheader hbody hview' =>
          rw [hview']
          exact hheader
        | idle hidle hres hview' => exact absurd hidle hbusy
      exact ends_pure.mpr ⟨hkept (finishBody_received hdone (answer_not_ok hanswer)),
        fun hidle => absurd hidle hbusy⟩

end Webserveau.Intake
