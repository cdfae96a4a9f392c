import Webserveau.BodyEvents

/-!
The rule for properties that every handler keeps.
What is known of a client differs along a step: between two events, with a head that is
complete, while an accepted body is taken, and with a code that a response is due for. Each
operation is the call of a handler, with what is known where it is called, so a property is
shown once for an operation and not again for every handler.
-/
namespace Webserveau.HandlerRules

open ByteStrings OrderedMaps Formats Requests Clients EventLoop Checks HeadSafety ParserFrames
  Transitions Intake Replies LoopInvariants LoopSteps BodyEvents

/-- What is to hold of a client after some bytes have been read, at each place of a step. -/
structure Stages where
  readable : Client → Prop
  between : Bytes → Client → Prop
  headed : Bytes → Client → Prop
  taking : Bytes → Client → Prop
  refused : Bytes → ℤ × Client → Prop

/-- The request of a client is in, with the whole of its body. -/
def Whole (c : Client) : Prop := c.headerStatus = .done ∧ c.bodyStatus ≠ .ongoing

/-- The operations of a step, each from one of its places to another. -/
structure Staged (P : Stages) : Prop where
  fresh : ∀ c : Client, P.readable (c.clear.setMode .read)
  read : ∀ (t : Bytes) (c : Client) (bytes : Bytes), P.between t c →
    c.headerStatus = .ongoing → P.readable c → Ends (c.parseRequest bytes) fun out =>
      (out.1 < 0 → P.headed (t ++ bytes) out.2) ∧
        (out.1 = 0 → P.between (t ++ bytes) out.2) ∧ (0 < out.1 → P.refused (t ++ bytes) out)
  held : ∀ (t : Bytes) (c : Client) (bytes : Bytes), P.between t c → Idle c →
    P.between (t ++ bytes) { c.setRequest c.getRequest with buffer := c.buffer ++ bytes }
  checked : ∀ (t : Bytes) (env : Env) (c : Client), P.headed t c → c.headerStatus = .ready →
    Ends (checkHeaders env c) fun out =>
      (out.1 = 0 → P.taking t out.2) ∧ (out.1 ≠ 0 → P.refused t out)
  resumed : ∀ (t : Bytes) (c : Client), P.between t c → c.headerStatus = .done →
    c.bodyStatus = .ongoing → c.response = none → P.taking t c
  taken : ∀ (t : Bytes) (c : Client) (bytes : Bytes), P.taking t c → c.headerStatus = .done →
    c.bodyStatus = .ongoing → Ends (c.parseRequest bytes) fun out =>
      (out.1 ≤ 0 → P.taking (t ++ bytes) out.2) ∧ (0 < out.1 → P.refused (t ++ bytes) out)
  paused : ∀ (t : Bytes) (c : Client), P.taking t c → c.headerStatus = .done →
    c.bodyStatus = .ongoing → P.between t c
  done : ∀ (t : Bytes) (c : Client), P.taking t c → Whole c →
    P.between t (handleRequestBodyDone c).2
  refused : ∀ (t : Bytes) (env : Env) (out : ℤ × Client), P.refused t out → 300 ≤ out.1 →
    P.between t (generateResponse env out.2 out.1).2
  answered : ∀ (t : Bytes) (env : Env) (c : Client) (status : ℤ), P.between t c → Whole c →
    P.between t (generateResponse env c status).2
  started : ∀ (t : Bytes) (env : Env) (c : Client), P.between t c → Whole c →
    c.getRequest.type = .cgi → P.between t (generateCGIProcess env c).2
  removed : ∀ (t : Bytes) (c : Client), P.between t c → P.between t c.deleteCGIProcess
  judged : ∀ (t : Bytes) (fs : FileSystem) (c : Client) (verdict : CgiRes) (r : Request),
    P.between t c → Whole c → c.getRequest.parseCgiHeaders fs = .ok (verdict, r) →
      P.between t (withVerdict c verdict r)
  redirected : ∀ (t : Bytes) (env : Env) (c : Client), P.between t c → Whole c →
    c.getRequest.type = .cgi → c.getRequest.resHints.cgiRedir ≠ .none → c.cgiProcess = none →
      Ends (handleRequestHeaders env c) fun out => (out.1 = 0 → P.between t out.2) ∧
        (out.1 ≠ 0 → P.between t (generateResponse env out.2 out.1).2)
  reaped : ∀ (t : Bytes) (c : Client) (p q : CGIProcess), P.between t c →
    c.cgiProcess = some p → q.output = p.output → P.between t { c with cgiProcess := some q }
  sent : ∀ (t : Bytes) (c : Client) (rest : List Bytes) (bytes : Bytes), P.between t c →
    P.between t ({ c with outBuffers := rest }.record (.sent bytes))
  continued : ∀ (t : Bytes) (c : Client), P.between t c →
    (view c).response = some RES_CONTINUE → (view c).expect = CONTINUE →
      P.between t ((c.setRequest (c.getRequest.removeHeader (ascii "expect"))).clearResponse.setMode
        .read)
  cleared : ∀ (t : Bytes) (c : Client), P.between t c → (view c).response ≠ none →
    (view c).connection ≠ ascii "close" →
      ¬ ((view c).response = some RES_CONTINUE ∧ (view c).expect = CONTINUE) →
        P.between t (c.clear.setMode .read)
  expired : ∀ (t : Bytes) (env : Env) (c : Client) (request : Request), P.between t c →
    c.mode = .read → c.response = none → c.request = some request →
      P.between t (generateResponse env ((c.setMode .write).setRequest
        ((request.setStatus .complete).fillError 408 []).2) RES_TIMEOUT).2

section Heads

variable {env : Env} {c d : Client}

/-- The action by which a request is handed over. -/
def handsOver : Action → Bool
  | .bodyDone _ _ _ _ => true
  | _ => false

/-- On the way nothing is handed over. -/
abbrev Unhanded : Client → Client → Prop := Adds fun a => handsOver a = false

/-- While a head is checked files are opened and the answer 100 is made. -/
inductive Prepares : Action → Prop
  | opened (path : Bytes) : Prepares (.opened path)
  | continued : Prepares (.responded RES_CONTINUE [] Acceptance.continueBuffers none)

/-- The checks of a head leave the bytes behind it, and at most announce a body. -/
structure Unread (c d : Client) : Prop where
  buffer : d.buffer = c.buffer
  body : d.bodyStatus = c.bodyStatus ∨ d.bodyStatus = .ongoing
  prepares : Adds Prepares c d

theorem Unread.unhanded (h : Unread c d) : Unhanded c d := by
  refine h.prepares.mono ?_
  intro a ha
  cases ha with
  | opened path => rfl
  | continued => rfl

theorem Unread.of_eq (hbuffer : d.buffer = c.buffer) (hbody : d.bodyStatus = c.bodyStatus)
    (htrace : d.trace = c.trace) : Unread c d :=
  ⟨hbuffer, Or.inl hbody, Adds.of_eq htrace⟩

theorem Unread.refl (c : Client) : Unread c c := Unread.of_eq rfl rfl rfl

theorem Unread.trans {e : Client} (h : Unread c d) (h' : Unread d e) : Unread c e where
  buffer := h'.buffer.trans h.buffer
  body := by
    rcases h'.body with hbody | hbody
    · rw [hbody]
      exact h.body
    · exact Or.inr hbody
  prepares := h.prepares.trans h'.prepares

theorem assignHost_unread (c : Client) : Unread c (assignHost c).2 := by
  unfold assignHost
  dsimp only
  split
  · exact Unread.of_eq rfl rfl rfl
  · unfold Client.setHost
    split
    · exact Unread.refl c
    · exact Unread.of_eq rfl rfl rfl

theorem onRequest_unread (check : Request → Checked (ℤ × Request)) (c : Client) :
    Ends (onRequest check c) fun out => Unread c out.2 := by
  apply Ends.bind_any
  intro out
  exact ends_pure.mpr (Unread.of_eq rfl rfl rfl)

theorem checkNewBody_unread (c : Client) : Unread c (checkNewBody c).2 := by
  unfold checkNewBody checkBodyLength
  dsimp only
  split
  · split
    · exact Unread.of_eq rfl rfl rfl
    · unfold announceBody
      dsimp only
      split
      · exact ⟨rfl, Or.inr rfl, Adds.of_eq rfl⟩
      · exact Unread.of_eq rfl rfl rfl
  · exact Unread.refl c

theorem setBodyFile_unread (c : Client) (path : Bytes) (opens : Bool) :
    Unread c (c.setBodyFile path opens) := by
  unfold Client.setBodyFile
  dsimp only
  split
  · exact ⟨rfl, Or.inl rfl, Adds.record rfl (.opened path)⟩
  · exact Unread.of_eq rfl rfl rfl

theorem keepContentType_unread (c : Client) : Unread c (keepContentType c) := by
  unfold keepContentType
  dsimp only
  split
  · exact Unread.of_eq rfl rfl rfl
  · exact Unread.refl c

theorem uploadTo_unread (env : Env) (c : Client) (filePath : Bytes) (status : ℤ)
    (alreadyExist : Bool) : Unread c (uploadTo env c filePath status alreadyExist) := by
  have hset := setBodyFile_unread (c.setRequest { c.getRequest with
    resHints := { c.getRequest.resHints with
      alreadyExist := alreadyExist
      status := status
      path := filePath } }) filePath env.opens
  have hunlink : Unread c (setUnlink ((c.setRequest { c.getRequest with
    resHints := { c.getRequest.resHints with
      alreadyExist := alreadyExist
      status := status
      path := filePath } }).setBodyFile filePath env.opens) false) :=
    ⟨hset.buffer, hset.body, hset.prepares⟩
  exact hunlink.trans (keepContentType_unread _)

theorem defineBodyParsing_unread (env : Env) (c : Client) : Unread c (defineBodyParsing env c) := by
  unfold defineBodyParsing
  dsimp only
  split
  · have hset := setBodyFile_unread c
      (if c.bodyStatus ≠ .none then generateName (some (hostName c)) env.bodyTime else []) env.opens
    have hunlink : Unread c (setUnlink (c.setBodyFile
        (if c.bodyStatus ≠ .none then generateName (some (hostName c)) env.bodyTime else [])
        env.opens) true) :=
    ⟨hset.buffer, hset.body, hset.prepares⟩
    exact hunlink.trans (keepContentType_unread _)
  · split
    · split
      · exact uploadTo_unread env c _ _ _
      · split
        · exact Unread.of_eq rfl rfl rfl
        · exact uploadTo_unread env c _ _ _
      · exact Unread.of_eq rfl rfl rfl
    · exact (setBodyFile_unread c [] env.opens).trans (keepContentType_unread _)

theorem finishHeaders_unread (env : Env) (c : Client) : Unread c (finishHeaders env c).2 := by
  have hcontinue : Unread c (checkContinue c).2 := by
    unfold checkContinue
    dsimp only
    split
    · split
      · exact Unread.of_eq rfl rfl rfl
      · exact Unread.refl c
    · split
      · exact Unread.of_eq rfl rfl rfl
      · exact Unread.refl c
  unfold finishHeaders
  dsimp only
  split
  · exact hcontinue
  · refine hcontinue.trans ?_
    generalize (checkContinue c).2 = e
    have hdefined : Unread e
        (if e.getRequest.resHints.cgiRedir = .none then defineBodyParsing env e else e) := by
      split
      · exact defineBodyParsing_unread env e
      · exact Unread.refl e
    unfold acceptHeaders
    dsimp only
    split
    · refine ⟨hdefined.buffer, hdefined.body, ?_⟩
      exact hdefined.prepares.trans (Adds.record rfl .continued)
    · exact ⟨hdefined.buffer, hdefined.body, hdefined.prepares⟩

theorem andThen_unread {first : Checked (ℤ × Client)} {next : Client → Checked (ℤ × Client)}
    (hfirst : Ends first fun out => Unread c out.2)
    (hnext : ∀ d, Ends (next d) fun out => Unread d out.2) :
    Ends (andThen first next) fun out => Unread c out.2 := by
  refine Ends.andThen (I := Unread c) ?_ ?_
  · intro out hout
    exact ⟨fun _ => hfirst out hout, fun _ => hfirst out hout⟩
  · intro d hd out hout
    exact hd.trans (hnext d out hout)

theorem handleRequestHeaders_unread (env : Env) (c : Client) :
    Ends (handleRequestHeaders env c) fun out => Unread c out.2 := by
  refine andThen_unread (ends_ok.mpr (assignHost_unread c)) ?_
  intro d
  refine andThen_unread (onRequest_unread _ d) ?_
  intro d
  refine andThen_unread (onRequest_unread _ d) ?_
  intro d
  refine andThen_unread (ends_ok.mpr (checkNewBody_unread d)) ?_
  intro d
  refine andThen_unread (onRequest_unread _ d) ?_
  intro d
  exact ends_ok.mpr (finishHeaders_unread env d)

/-- An accepted request has its head done, and its body is absent or still to be read. -/
theorem checkHeaders_accepted (h : checkHeaders env c = .ok (0, d)) :
    d.headerStatus = .done ∧ (d.bodyStatus = .none ∨ d.bodyStatus = .ongoing) := by
  obtain ⟨e, hchecked, hrecord⟩ := checkHeaders_checked env c _ h
  dsimp only at hchecked hrecord
  have hbody : e.bodyStatus = .none ∨ e.bodyStatus = .ongoing := by
    unfold checkHeaders at h
    rw [bind_eq_ok_iff] at h
    obtain ⟨⟨res, f⟩, hheaders, hout⟩ := h
    have hunread := handleRequestHeaders_unread env _ _ hheaders
    change Except.ok (res, f.record (.checked res)) = _ at hout
    rw [hrecord, Except.ok.injEq, Prod.mk.injEq] at hout
    have hsame : (f.record (.checked res)).bodyStatus = (e.record (.checked 0)).bodyStatus :=
      congrArg Client.bodyStatus hout.2
    rw [← show f.bodyStatus = e.bodyStatus from hsame]
    exact hunread.body
  rw [hrecord]
  refine ⟨?_, hbody⟩
  rcases hchecked with hrefused | haccepted
  · have hverdict : (300 : ℤ) ≤ 0 := hrefused.verdict
    omega
  · obtain ⟨body, type, path, hview⟩ := haccepted.settled
    have hdone := congrArg View.header hview
    split at hdone
    · exact hdone
    · exact hdone

theorem checkHeaders_refused {res : ℤ} (h : checkHeaders env c = .ok (res, d)) (hne : res ≠ 0) :
    300 ≤ res := by
  obtain ⟨e, hchecked, -⟩ := checkHeaders_checked env c _ h
  rcases hchecked with hrefused | haccepted
  · exact hrefused.verdict
  · exact absurd haccepted.verdict hne

end Heads

/-- How a step ends: the client is between two events, or it has been let go. -/
def Left (P : Stages) (t : Bytes) (c : Client) : Prop :=
  P.between t c ∨ ∃ d, P.between t d ∧ c = d.terminate

/-- How a handler ends: a code that is negative has its client let go. -/
def Handled (P : Stages) (t : Bytes) (out : ℤ × Client) : Prop :=
  P.between t out.2 ∨ 0 ≤ out.1 ∧ ∃ d, P.between t d ∧ out.2 = d.terminate

/-- What reading ends with: a positive code asks for a response. -/
structure Taken (P : Stages) (t : Bytes) (out : ℤ × Client) : Prop where
  kept : out.1 ≤ 0 → P.between t out.2
  due : 0 < out.1 → P.between t out.2 ∧ Whole out.2 ∨ P.refused t out ∧ 300 ≤ out.1

namespace Staged

variable {P : Stages} (h : Staged P) {t : Bytes} {c : Client}

include h

theorem finishBody {res : ℤ} (hres : res ≤ 0) (hc : P.taking t c)
    (hheader : c.headerStatus = .done) : Taken P t (EventLoop.finishBody res c) := by
  unfold EventLoop.finishBody
  by_cases hdone : c.bodyStatus = .ongoing
  · rw [if_neg fun hend => hend.2 hdone]
    refine ⟨fun _ => h.paused t c hc hheader hdone, fun hpos => ?_⟩
    exact absurd hres (not_le.mpr hpos)
  · rw [if_pos ⟨hres, hdone⟩]
    have hkept := h.done t c hc ⟨hheader, hdone⟩
    obtain ⟨⟨path, hview⟩, -⟩ := handleRequestBodyDone_view c
    refine ⟨fun _ => hkept, fun _ => Or.inl ⟨hkept, ?_, ?_⟩⟩
    · exact (congrArg View.header hview).trans hheader
    · rw [show (handleRequestBodyDone c).2.bodyStatus = c.bodyStatus from congrArg View.body hview]
      exact hdone

/-- The bytes of a body, and what follows from its end. -/
theorem takeOn (bytes : Bytes) (hc : P.taking t c) (hheader : c.headerStatus = .done)
    (hbody : c.bodyStatus = .ongoing) :
    Ends (c.parseRequest bytes) fun out =>
      Taken P (t ++ bytes) (EventLoop.finishBody out.1 out.2) ∧
        (0 ≤ out.1 → Taken P (t ++ bytes) out) := by
  intro out hout
  obtain ⟨htaking, hrefused⟩ := h.taken t c bytes hc hheader hbody out hout
  obtain ⟨hanswer, hparsed, -⟩ := parseRequest_parsed c bytes out hout
  obtain ⟨res, d⟩ := out
  dsimp only at htaking hrefused hanswer hparsed ⊢
  cases hparsed with
  | head expect hongoing hview =>
    rw [hheader] at hongoing
    cases hongoing
  | idle hidle hres hview => exact absurd ⟨hheader, hbody⟩ hidle.2
  | body expect _ _ hview =>
    have hheader' : d.headerStatus = .done := (congrArg View.header hview).trans hheader
    have hbody' := congrArg View.body hview
    by_cases hpos : 0 < res
    · have hrest : Taken P (t ++ bytes) (res, d) := by
        refine ⟨fun hle => absurd hle (not_le.mpr hpos), fun _ => Or.inr ⟨hrefused hpos, ?_⟩⟩
        rcases hanswer with hzero | hminus | herror
        · omega
        · omega
        · omega
      have hsame : EventLoop.finishBody res d = (res, d) := by
        unfold EventLoop.finishBody
        rw [if_neg fun hend => absurd hend.1 (not_le.mpr hpos)]
      rw [hsame]
      exact ⟨hrest, fun _ => hrest⟩
    · have hd := htaking (not_lt.mp hpos)
      refine ⟨h.finishBody (not_lt.mp hpos) hd hheader', fun hge => ?_⟩
      rw [if_neg (not_lt.mpr hge)] at hbody'
      refine ⟨fun _ => h.paused _ _ hd hheader' hbody', fun hlt => absurd hlt hpos⟩

theorem startBody (hc : P.taking t c) (hheader : c.headerStatus = .done)
    (hbody : c.bodyStatus = .none ∨ c.bodyStatus = .ongoing) :
    Ends (EventLoop.startBody c) (Taken P t) := by
  unfold EventLoop.startBody parseRest
  rcases hbody with hnone | hongoing
  · rw [if_neg (not_not_intro hnone)]
    exact ends_ok.mpr (h.finishBody le_rfl hc hheader)
  · have hopen : c.bodyStatus ≠ .none := by
      rw [hongoing]
      exact nofun
    rw [if_pos hopen]
    refine Ends.bind (h.takeOn [] hc hheader hongoing) ?_
    intro out hout
    rw [List.append_nil] at hout
    exact ends_pure.mpr hout.1

/-- A body that is not read to its end belongs to a request without a response. -/
theorem receive (env : Env) (bytes : Bytes) (hc : P.between t c)
    (hreadable : c.headerStatus = .ongoing → P.readable c)
    (hopen : c.headerStatus = .done → c.bodyStatus = .ongoing → c.response = none) :
    Ends (EventLoop.receive env c bytes) (Taken P (t ++ bytes)) := by
  unfold EventLoop.receive
  by_cases hheader : c.headerStatus = .ongoing
  · refine Ends.bind (P := fun out => c.parseRequest bytes = .ok out) (fun _ hout => hout) ?_
    intro out hout
    obtain ⟨hheaded, hkept, hrefused⟩ := h.read t c bytes hc hheader (hreadable hheader) out hout
    obtain ⟨hanswer, hparsed, -⟩ := parseRequest_parsed c bytes out hout
    obtain ⟨res, d⟩ := out
    dsimp only at hheaded hkept hrefused hanswer hparsed ⊢
    by_cases hge : res ≥ 0
    · rw [if_pos hge]
      refine ends_pure.mpr ⟨fun hle => hkept (by omega), fun hpos => Or.inr ⟨hrefused hpos, ?_⟩⟩
      rcases hanswer with hzero | hminus | herror
      · omega
      · omega
      · omega
    · have hready : d.headerStatus = .ready := by
        cases hparsed with
        | head expect _ hview =>
          have hheader' := congrArg View.header hview
          rwa [if_pos (not_le.mp hge)] at hheader'
        | body expect hdone =>
          rw [hheader] at hdone
          cases hdone
        | idle hidle => exact absurd hheader hidle.1
      rw [if_neg hge, if_pos hready]
      refine Ends.andThen (I := fun e => P.taking (t ++ bytes) e ∧ e.headerStatus = .done ∧
        (e.bodyStatus = .none ∨ e.bodyStatus = .ongoing)) ?_ ?_
      · rintro ⟨res', e⟩ hout'
        obtain ⟨haccepted, hrefused'⟩ :=
          h.checked _ env d (hheaded (not_le.mp hge)) hready _ hout'
        dsimp only at haccepted hrefused' ⊢
        constructor
        · rintro rfl
          exact ⟨haccepted rfl, checkHeaders_accepted hout'⟩
        · intro hne
          have hverdict := checkHeaders_refused hout' hne
          exact ⟨fun hle => by dsimp only at hle; omega,
            fun _ => Or.inr ⟨hrefused' hne, hverdict⟩⟩
      · intro e he
        exact h.startBody he.1 he.2.1 he.2.2
  · by_cases hbusy : c.headerStatus = .done ∧ c.bodyStatus = .ongoing
    · obtain ⟨hdone, hongoing⟩ := hbusy
      have hdue := h.resumed t c hc hdone hongoing (hopen hdone hongoing)
      refine Ends.bind (P := fun out : ℤ × Client =>
        (Taken P (t ++ bytes) (EventLoop.finishBody out.1 out.2) ∧
          (0 ≤ out.1 → Taken P (t ++ bytes) out)) ∧ out.2.headerStatus = .done) ?_ ?_
      · intro out hout
        refine ⟨h.takeOn bytes hdue hdone hongoing out hout, ?_⟩
        obtain ⟨-, hparsed, -⟩ := parseRequest_parsed c bytes out hout
        obtain ⟨header, body, expect, hview, hkeeps⟩ := Parsed.keeps hparsed
        exact (congrArg View.header hview).trans (hkeeps hdone)
      · rintro ⟨res, d⟩ ⟨⟨hfinish, hkept⟩, hheader'⟩
        dsimp only at hfinish hkept hheader' ⊢
        split
        · rename_i hge
          exact ends_pure.mpr (hkept hge)
        · rw [if_neg (by rw [hheader']; exact nofun)]
          exact ends_pure.mpr hfinish
    · have hidle : Idle c := ⟨hheader, hbusy⟩
      rw [BodyIntake.parseRequest_idle hidle]
      have hheld := h.held t c bytes hc hidle
      refine ends_ok.mpr ⟨fun _ => hheld, fun hpos => ?_⟩
      exact absurd hpos (lt_irrefl 0)

theorem generateFailed (env : Env) (hc : P.between t c) (hwhole : Whole c)
    (htype : c.getRequest.type = .cgi) (status : ℤ) :
    P.between t (generateResponse env (generateCGIProcess env c).2 status).2 := by
  refine h.answered t env _ _ (h.started t env c hc hwhole htype) ?_
  have hsame := BodyIntake.generateCGIProcess_same env c
  exact ⟨hsame.header.trans hwhole.1, fun hongoing => hwhole.2 (hsame.body.symm.trans hongoing)⟩

theorem handleClientResponse (env : Env) {out : ℤ × Client} (hout : Taken P t out)
    (hpos : 0 < out.1) : P.between t (EventLoop.handleClientResponse env out.2 out.1).2 := by
  unfold EventLoop.handleClientResponse
  split
  · rcases hout.due hpos with ⟨hc, hwhole⟩ | ⟨hrefused, hverdict⟩
    · exact h.answered t env _ _ hc hwhole
    · exact h.refused t env out hrefused hverdict
  · rename_i hprocess
    obtain ⟨htype, hok⟩ := not_or.mp hprocess
    rcases hout.due hpos with ⟨hc, hwhole⟩ | ⟨-, hverdict⟩
    · have htype' := not_not.mp htype
      dsimp only
      split
      · exact h.generateFailed env hc hwhole htype' _
      · exact h.started t env _ hc hwhole htype'
    · have hcode : out.1 = 200 := not_not.mp hok
      omega

theorem respondTo (env : Env) {out : ℤ × Client} (hout : Taken P t out) :
    P.between t (EventLoop.respondTo env out).2 := by
  unfold EventLoop.respondTo
  split
  · rename_i hpos
    exact h.handleClientResponse env hout hpos
  · rename_i hle
    exact hout.kept (not_lt.mp hle)

theorem handleReadable (event : EpollEvent) (hc : P.between t c)
    (hreadable : event.incoming.getD [] ≠ [] → c.headerStatus = .ongoing → P.readable c)
    (hopen : c.headerStatus = .done → c.bodyStatus = .ongoing → c.response = none) :
    Ends (EventLoop.handleReadable event c) fun out =>
      P.between (t ++ event.incoming.getD []) out.2 := by
  have hclosed : P.between (t ++ []) (EventLoop.respondTo event.env (-1, c)).2 := by
    rw [List.append_nil]
    exact hc
  unfold EventLoop.handleReadable
  refine Ends.bind (P := fun out =>
    P.between (t ++ event.incoming.getD []) (EventLoop.respondTo event.env out).2) ?_ ?_
  · unfold handleClientIn
    cases hincoming : event.incoming with
    | none => exact ends_ok.mpr hclosed
    | some bytes =>
      dsimp only [Option.getD_some]
      split
      · rename_i hnil
        rw [hnil]
        exact ends_ok.mpr hclosed
      · rename_i hne
        intro out hout
        refine h.respondTo event.env (h.receive event.env bytes hc ?_ hopen out hout)
        exact hreadable (by rwa [hincoming])
  · intro out hout
    exact ends_pure.mpr hout

/-- The next request of a kept connection may be at hand already. -/
theorem keepAlive (env : Env) (hc : P.between t (c.clear.setMode .read)) :
    Ends (EventLoop.keepAlive env c) fun out => P.between t out.2 := by
  unfold EventLoop.keepAlive
  refine Ends.bind (P := Taken P t) ?_ ?_
  · have hreceive := h.receive env [] hc (fun _ => h.fresh c) nofun
    rwa [List.append_nil] at hreceive
  · intro out hout
    exact ends_pure.mpr (h.respondTo env hout)

/-- The first buffer is written, or the connection fails. -/
theorem writeBuffer (written : Bytes → ℤ) (hc : P.between t c) {d : Client}
    (hwrite : EventLoop.writeBuffer written c = some d) : P.between t d := by
  unfold EventLoop.writeBuffer at hwrite
  split at hwrite
  · cases hwrite
    exact hc
  · split at hwrite
    · cases hwrite
    · cases hwrite
      exact h.sent t c _ _ hc

theorem handleResponseOut (event : EpollEvent) (hc : P.between t c) :
    Ends (EventLoop.handleResponseOut event c) (Handled P t) := by
  unfold EventLoop.handleResponseOut
  split
  · exact ends_ok.mpr (Or.inl hc)
  · rename_i hsome
    unfold EventLoop.handleClientOut
    cases hwrite : EventLoop.writeBuffer event.written c with
    | none => exact ends_ok.mpr (Or.inr ⟨le_rfl, c, hc, rfl⟩)
    | some d =>
      have hd := h.writeBuffer event.written hc hwrite
      have hresponse : (view d).response ≠ none := by
        rw [(writeBuffer_view hwrite).1]
        exact fun hnone => hsome (Option.map_eq_none_iff.mp hnone)
      dsimp only
      unfold afterWrite
      by_cases hmore : d.outBuffers ≠ []
      · rw [if_pos hmore]
        exact ends_ok.mpr (Or.inl hd)
      · rw [if_neg hmore]
        by_cases hcontinue : d.getRequest.getHeader (ascii "expect") = ascii "100-continue" ∧
            d.response.map Response.getStatus = some RES_CONTINUE
        · rw [if_pos hcontinue]
          exact ends_ok.mpr (Or.inl (h.continued t d hd hcontinue.2 hcontinue.1))
        · rw [if_neg hcontinue]
          by_cases hclose : d.getRequest.resHints.getHeader (ascii "connection") = ascii "close"
          · rw [if_pos hclose]
            exact ends_ok.mpr (Or.inr ⟨le_rfl, d, hd, rfl⟩)
          · rw [if_neg hclose]
            have hcleared := h.cleared t d hd hresponse hclose fun hboth =>
              hcontinue ⟨hboth.2, hboth.1⟩
            exact (h.keepAlive event.next hcleared).mono fun _ hout => Or.inl hout

theorem followRedirect (env : Env) (hc : P.between t c) (hwhole : Whole c)
    (htype : c.getRequest.type = .cgi) (hredir : c.getRequest.resHints.cgiRedir ≠ .none) :
    Ends (EventLoop.followRedirect env c) fun out => P.between t out.2 := by
  have hview := deleteCGIProcess_view c
  have hwhole' : Whole c.deleteCGIProcess := by
    refine ⟨(congrArg View.header hview).trans hwhole.1, ?_⟩
    rw [show c.deleteCGIProcess.bodyStatus = c.bodyStatus from congrArg View.body hview]
    exact hwhole.2
  have htype' : c.deleteCGIProcess.getRequest.type = .cgi :=
    (congrArg View.type hview).trans htype
  have hredir' := deleteCGIProcess_redir hredir
  unfold EventLoop.followRedirect
  refine Ends.bind (P := fun out => handleRequestHeaders env c.deleteCGIProcess = .ok out)
    (fun _ hout => hout) ?_
  intro out hout
  have hnone : c.deleteCGIProcess.cgiProcess = none :=
    Option.map_eq_none_iff.mp (congrArg View.cgi hview)
  obtain ⟨haccepted, hrefused⟩ := h.redirected t env _ (h.removed t c hc) hwhole' htype' hredir'
    hnone out hout
  have hchecked := handleRequestHeaders_checked env _ out hout
  obtain ⟨res, d⟩ := out
  dsimp only at haccepted hrefused ⊢
  split
  · rename_i hres
    exact ends_pure.mpr (hrefused hres)
  · rename_i hres
    obtain rfl : res = 0 := not_not.mp hres
    have hd := haccepted rfl
    have hdone : Whole d := by
      rcases hchecked with hrefused' | haccepted'
      · have hverdict := hrefused'.verdict
        omega
      · refine ⟨?_, ?_⟩
        · obtain ⟨body, type, path, hview'⟩ := haccepted'.settled
          have hheader := congrArg View.header hview'
          split at hheader
          · exact hheader
          · exact hheader
        · rw [show d.bodyStatus = c.deleteCGIProcess.bodyStatus from haccepted'.body_eq hredir']
          exact hwhole'.2
    split
    · exact ends_pure.mpr (h.answered t env d 0 hd hdone)
    · rename_i htype
      have hstarted := h.started t env d hd hdone (not_not.mp htype)
      split
      · have hsame := BodyIntake.SameIntake.trans (BodyIntake.generateCGIProcess_same env d)
          (BodyIntake.deleteCGIProcess_same _)
        refine ends_pure.mpr (h.answered t env _ _ (h.removed t _ hstarted) ?_)
        exact ⟨hsame.header.trans hdone.1, fun hongoing => hdone.2 (hsame.body.symm.trans hongoing)⟩
      · exact ends_pure.mpr hstarted

omit h in
theorem Whole.removed (h : Whole c) : Whole c.deleteCGIProcess := by
  have hsame := BodyIntake.deleteCGIProcess_same c
  exact ⟨hsame.header.trans h.1, fun hongoing => h.2 (hsame.body.symm.trans hongoing)⟩

theorem finishCGI (event : EpollEvent) (hc : P.between t c) (hwhole : Whole c)
    (htype : c.getRequest.type = .cgi) :
    Ends (EventLoop.finishCGI event c) fun out => P.between t out.2 := by
  unfold EventLoop.finishCGI
  refine Ends.bind (P := fun out : CgiRes × Request =>
    c.getRequest.parseCgiHeaders event.output = .ok out) (fun _ hout => hout) ?_
  rintro ⟨verdict, r⟩ hparse
  have hjudged := h.judged t event.output c verdict r hc hwhole hparse
  have hwhole' : Whole (withVerdict c verdict r) := hwhole
  have hanswered := h.answered t event.env _ 0 hjudged hwhole'
  cases verdict with
  | error =>
    exact ends_pure.mpr (h.answered t event.env _ _ (h.removed t _ hjudged) (Whole.removed hwhole'))
  | none => exact ends_pure.mpr (h.removed t _ hjudged)
  | doc => exact ends_pure.mpr (h.removed t _ hanswered)
  | clientRedirect => exact ends_pure.mpr (h.removed t _ hanswered)
  | localRedirect =>
    refine h.followRedirect event.env hjudged hwhole' ?_ ?_
    · exact (parseCgiHeaders_keeps event.output _ _ hparse).1.trans htype
    · intro hnone
      cases hnone

theorem handleCGIProcess (event : EpollEvent) (hsound : Sound (view c)) (hc : P.between t c) :
    Ends (EventLoop.handleCGIProcess event c) fun out => P.between t out.2 := by
  unfold EventLoop.handleCGIProcess
  split
  · exact ends_ok.mpr hc
  · rename_i p hp
    have hcgi : (view c).cgi ≠ none := by
      show c.cgiProcess.map CGIProcess.output ≠ none
      rw [hp]
      exact Option.some_ne_none _
    obtain ⟨hheader, hbody, htype⟩ := hsound.processing hcgi
    have hwhole : ∀ q, Whole { c with cgiProcess := some q } := fun _ => ⟨hheader, hbody⟩
    have hoff : P.between t { c with cgiProcess := some { p with pid := 0 } } :=
      h.reaped t c p _ hc hp rfl
    have hsame : P.between t { c with cgiProcess := some p } := h.reaped t c p p hc hp rfl
    have hfailed := h.answered t event.env _ RES_SERVICE_UNAVAILABLE (h.removed t _ hoff)
      (Whole.removed (hwhole _))
    unfold checkEnd
    by_cases hpid : p.pid = 0
    · rw [if_pos hpid]
      exact ends_ok.mpr (h.answered t event.env _ _ (h.removed t _ hsame)
        (Whole.removed (hwhole _)))
    · rw [if_neg hpid]
      cases event.child with
      | running => exact ends_ok.mpr hsame
      | expired => exact ends_ok.mpr hfailed
      | failed => exact ends_ok.mpr hfailed
      | exited => exact h.finishCGI event hoff (hwhole _) htype

theorem handleWritable (event : EpollEvent) (hsound : Sound (view c)) (hc : P.between t c) :
    Ends (EventLoop.handleWritable event c) (Handled P t) := by
  unfold EventLoop.handleWritable
  refine Ends.bind (h.handleCGIProcess event hsound hc) ?_
  intro out hout
  dsimp only
  split
  · exact ends_pure.mpr (Or.inl hout)
  · exact h.handleResponseOut event hout

theorem handleEpoll (event : EpollEvent) (hsound : Sound (view c)) (hc : P.between t c)
    (hreadable : Readable c event → event.incoming.getD [] ≠ [] → c.headerStatus = .ongoing →
      P.readable c) :
    Ends (EventLoop.handleEpoll event c) (Left P (t ++ Uploads.arrived c (.epoll event))) := by
  unfold EventLoop.handleEpoll
  refine Ends.bind (P := Handled P (t ++ Uploads.arrived c (.epoll event))) ?_ ?_
  · unfold EventLoop.handleClientEvent Uploads.arrived
    dsimp only
    by_cases hgone : event.hup ∨ c.mode = .error
    · rw [if_pos hgone, if_neg fun hin => hin.1 hgone, List.append_nil]
      exact ends_ok.mpr (Or.inr ⟨le_rfl, c, hc, rfl⟩)
    · rw [if_neg hgone]
      by_cases hin : event.epollin ∧ (c.mode = .read ∨ c.bodyStatus ≠ .ongoing)
      · rw [if_pos hin, if_pos ⟨hgone, hin⟩]
        refine (h.handleReadable event hc (hreadable ⟨hgone, hin⟩) ?_).mono
          fun _ hout => Or.inl hout
        intro _ hongoing
        by_contra hresponse
        have hmode : c.mode = .read := hin.2.resolve_right fun hne => hne hongoing
        have hwrite : c.mode = .write := by
          refine hsound.replying ?_
          show c.response.map Response.getStatus ≠ none
          exact fun hnone => hresponse (Option.map_eq_none_iff.mp hnone)
        rw [hmode] at hwrite
        cases hwrite
      · have hunread : ¬ (¬ (event.hup ∨ c.mode = .error) ∧
            event.epollin ∧ (c.mode = .read ∨ c.bodyStatus ≠ .ongoing)) := fun hread => hin hread.2
        rw [if_neg hin, if_neg hunread, List.append_nil]
        split
        · exact h.handleWritable event hsound hc
        · exact ends_ok.mpr (Or.inl hc)
  · intro out hout
    dsimp only
    split
    · rename_i hneg
      rcases hout with hc' | ⟨hge, -⟩
      · exact ends_pure.mpr (Or.inr ⟨out.2, hc', rfl⟩)
      · omega
    · rcases hout with hc' | ⟨-, hgone⟩
      · exact ends_pure.mpr (Or.inl hc')
      · exact ends_pure.mpr (Or.inr hgone)

theorem checkTO (expired : Bool) (env : Env) (hsound : Sound (view c)) (hc : P.between t c) :
    Left P t (EventLoop.checkTO expired env c) := by
  unfold EventLoop.checkTO
  split
  · rename_i hexpired
    split
    · exact Or.inr ⟨c, hc, rfl⟩
    · rename_i request hrequest
      refine Or.inl (h.expired t env c request hc hexpired.1 ?_ hrequest)
      by_contra hresponse
      have hwrite : c.mode = .write := by
        refine hsound.replying ?_
        show c.response.map Response.getStatus ≠ none
        exact fun hnone => hresponse (Option.map_eq_none_iff.mp hnone)
      rw [hexpired.1] at hwrite
      cases hwrite
  · exact Or.inl hc

/-- No bytes are read where they may not be. -/
def Reads (P : Stages) (c : Client) : Event → Prop
  | .epoll event => Readable c event → event.incoming.getD [] ≠ [] → c.headerStatus = .ongoing →
    P.readable c
  | .timeOut _ _ => True

/-- A step takes a client from one event to the next, with the bytes that it reads. -/
theorem step (event : Event) (hsound : Sound (view c)) (hc : Left P t c)
    (hreads : Reads P c event) :
    Ends (EventLoop.step c event) (Left P (t ++ arrived c event)) := by
  unfold EventLoop.step arrived
  by_cases halive : c.alive = false
  · rw [if_pos halive, if_neg (by rw [halive]; exact Bool.noConfusion), List.append_nil]
    exact ends_ok.mpr hc
  · have hopen : c.alive = true := by simpa using halive
    rw [if_neg halive, if_pos hopen]
    have hbetween : P.between t c := by
      rcases hc with hc | ⟨d, -, rfl⟩
      · exact hc
      · cases hopen
    cases event with
    | epoll event => exact h.handleEpoll event hsound hbetween hreads
    | timeOut expired env =>
      show Ends (.ok (EventLoop.checkTO expired env c)) (Left P (t ++ []))
      rw [List.append_nil]
      exact ends_ok.mpr (h.checkTO expired env hsound hbetween)

end Staged

/-- The operations that a property has to survive. A second property is that of a client
whose request is accepted and not done yet. A request that a process redirects is answered
before anything else when its headers are refused. -/
structure Rules (I D : Client → Prop) : Prop where
  parsed : ∀ c bytes, I c → Ends (c.parseRequest bytes) fun out =>
    I out.2 ∧ (c.headerStatus = .done → D c → D out.2)
  due : ∀ c, I c → c.headerStatus = .done → c.bodyStatus = .ongoing → c.response = none → D c
  begun : ∀ c, I c → c.headerStatus = .ready → I { c with bodyStatus := .none }
  headers : ∀ env c, I c → c.headerStatus = .ready →
    Ends (handleRequestHeaders env c) fun out => I out.2 ∧ (out.1 = 0 → D out.2)
  redirected : ∀ env c, I c → c.headerStatus = .done → c.bodyStatus ≠ .ongoing →
    c.getRequest.type = .cgi → c.getRequest.resHints.cgiRedir ≠ .none → c.cgiProcess = none →
      Ends (handleRequestHeaders env c) fun out => (out.1 = 0 → I out.2) ∧
        (out.1 ≠ 0 → I (generateResponse env out.2 out.1).2)
  noted : ∀ c res, (I c → I (c.record (.checked res))) ∧ (D c → D (c.record (.checked res)))
  done : ∀ c, I c → D c → c.headerStatus = .done → c.bodyStatus ≠ .ongoing →
    I (handleRequestBodyDone c).2
  answered : ∀ env c status, I c → I (generateResponse env c status).2
  started : ∀ env c, I c → c.headerStatus = .done → c.bodyStatus ≠ .ongoing →
    c.getRequest.type = .cgi → I (generateCGIProcess env c).2
  removed : ∀ c, I c → I c.deleteCGIProcess
  judged : ∀ fs c verdict r, I c → c.getRequest.parseCgiHeaders fs = .ok (verdict, r) →
    I (withVerdict c verdict r)
  reaped : ∀ c p q, I c → c.cgiProcess = some p → q.output = p.output →
    I { c with cgiProcess := some q }
  sent : ∀ c rest bytes, I c → I ({ c with outBuffers := rest }.record (.sent bytes))
  expected : ∀ c, I c → I (c.setRequest (c.getRequest.removeHeader (ascii "expect")))
  continued : ∀ c, I c → c.response.map Response.getStatus = some RES_CONTINUE →
    I (c.clearResponse.setMode .read)
  cleared : ∀ c, I c → I (c.clear.setMode .read)
  terminated : ∀ c, I c → I c.terminate
  expired : ∀ c request, I c → c.mode = .read → c.request = some request →
    I ((c.setMode .write).setRequest ((request.setStatus .complete).fillError 408 []).2)

/-- The same at every place of a step, but where a request is accepted. -/
def stages (I D : Client → Prop) : Stages where
  readable _ := True
  between _ := I
  headed _ := I
  taking _ c := I c ∧ D c
  refused _ out := I out.2

namespace Rules

variable {I D : Client → Prop} (h : Rules I D)

include h

theorem checkHeaders (env : Env) {c : Client} (hc : I c) (hheader : c.headerStatus = .ready) :
    Ends (EventLoop.checkHeaders env c) fun out => I out.2 ∧ (out.1 = 0 → D out.2) := by
  unfold EventLoop.checkHeaders
  refine Ends.bind (h.headers env _ (h.begun c hc hheader) hheader) ?_
  intro out hout
  obtain ⟨hnoted, hdue⟩ := h.noted out.2 out.1
  exact ends_pure.mpr ⟨hnoted hout.1, fun hzero => hdue (hout.2 hzero)⟩

theorem held (bytes : Bytes) {c : Client} (hc : I c) (hidle : Idle c) :
    I { c.setRequest c.getRequest with buffer := c.buffer ++ bytes } :=
  (h.parsed c bytes hc _ (BodyIntake.parseRequest_idle hidle bytes)).1

theorem goesOn {c : Client} (hc : I c) (hresponse : (view c).response = some RES_CONTINUE) :
    I ((c.setRequest (c.getRequest.removeHeader (ascii "expect"))).clearResponse.setMode .read) :=
  h.continued _ (h.expected c hc) hresponse

/-- What survives every operation is kept at every place of a step. -/
theorem staged : Staged (stages I D) where
  fresh _ := True.intro
  read _ c bytes hc _ _ out hout := by
    have hkept := (h.parsed c bytes hc out hout).1
    exact ⟨fun _ => hkept, fun _ => hkept, fun _ => hkept⟩
  held _ _ bytes hc hidle := h.held bytes hc hidle
  checked _ env _ hc hready out hout := by
    obtain ⟨hkept, hdue⟩ := h.checkHeaders env hc hready out hout
    exact ⟨fun hzero => ⟨hkept, hdue hzero⟩, fun _ => hkept⟩
  resumed _ c hc hheader hbody hresponse := ⟨hc, h.due c hc hheader hbody hresponse⟩
  taken _ c bytes hc hheader _ out hout := by
    obtain ⟨hkept, hdue⟩ := h.parsed c bytes hc.1 out hout
    exact ⟨fun _ => ⟨hkept, hdue hheader hc.2⟩, fun _ => hkept⟩
  paused _ _ hc _ _ := hc.1
  done _ c hc hwhole := h.done c hc.1 hc.2 hwhole.1 hwhole.2
  refused _ env out hout _ := h.answered env out.2 out.1 hout
  answered _ env c status hc _ := h.answered env c status hc
  started _ env c hc hwhole htype := h.started env c hc hwhole.1 hwhole.2 htype
  removed _ c hc := h.removed c hc
  judged _ fs c verdict r hc _ hparse := h.judged fs c verdict r hc hparse
  redirected _ env c hc hwhole htype hredir hnone :=
    h.redirected env c hc hwhole.1 hwhole.2 htype hredir hnone
  reaped _ c p q hc hp houtput := h.reaped c p q hc hp houtput
  sent _ c rest bytes hc := h.sent c rest bytes hc
  continued _ _ hc hresponse _ := h.goesOn hc hresponse
  cleared _ c hc _ _ _ := h.cleared c hc
  expired _ env c request hc hmode _ hrequest :=
    h.answered env _ _ (h.expired c request hc hmode hrequest)

/-- What survives every operation survives a step. -/
theorem step (event : Event) {c : Client} (hsound : Sound (view c)) (hc : I c) :
    Ends (EventLoop.step c event) I := by
  have hreads : Staged.Reads (stages I D) c event := by
    cases event with
    | epoll event => exact fun _ _ _ => True.intro
    | timeOut expired env => exact True.intro
  refine (h.staged.step (t := []) event hsound (Or.inl hc) hreads).mono ?_
  rintro d (hd | ⟨e, he, rfl⟩)
  · exact hd
  · exact h.terminated e he

/-- What holds of a new client and survives every operation holds in every run. -/
theorem reached {Allowed : Client → Event → Prop} {server : ListenServer} {events : List Event}
    {c : Client} (hnew : I (Client.newClient server))
    (hrun : Reaches EventLoop.step Allowed (Client.newClient server) events c) :
    Sound (view c) ∧ I c := by
  refine Reaches.invariant (I := fun c => Sound (view c) ∧ I c) ?_ ?_ hrun
  · refine ⟨?_, hnew⟩
    rw [newClient_view]
    exact fresh_sound .read
  · intro c event hinv _ d hd
    exact ⟨(step_moves event hinv.1 d hd).sound, h.step event hinv.1 hinv.2 d hd⟩

end Rules

end Webserveau.HandlerRules
