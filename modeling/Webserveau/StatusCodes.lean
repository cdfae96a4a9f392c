import Webserveau.Transitions

/-!
Codes of the parsers and checks against the table of status lines.
A code above 0 becomes the status of a response. Every parser and every check answers
with a code of the table and notes a status of the table, except for a head that
outgrows its limits: the code 431 for it has no line.
-/
namespace Webserveau.StatusCodes

open ByteStrings OrderedMaps Formats Requests EventLoop Checks HeadSegmentation ParserFrames
  RoutingFrames

/-- A status the table has a line for. -/
def InTable (status : ℤ) : Prop := status ∈ responseLine.map Prod.fst

instance (status : ℤ) : Decidable (InTable status) := by
  unfold InTable
  infer_instance

/-- The table holds codes of three digits with a text each. -/
theorem InTable.line {status : ℤ} (h : InTable status) :
    100 ≤ status ∧ status < 1000 ∧ reason status ≠ [] := by
  have hall : ∀ code ∈ responseLine.map Prod.fst, 100 ≤ code ∧ code < 1000 ∧ reason code ≠ [] := by
    decide +kernel
  exact hall status h

/-- A code that gets a response has a line for it. -/
def Tabled (code : ℤ) : Prop := 0 < code → InTable code

theorem tabled_zero : Tabled 0 := by
  intro h
  omega

theorem tabled_done : Tabled (-1) := by
  intro h
  omega

theorem InTable.tabled {code : ℤ} (h : InTable code) : Tabled code := fun _ => h

/-- The code is tabled, the status in the hints stays so, and a complete head stays one. -/
structure Graded (r : Request) (res : ℤ) (r' : Request) : Prop where
  code : Tabled res
  noted : Tabled r.resHints.status → Tabled r'.resHints.status
  phase : r.status = .term → r'.status = .term

theorem Graded.of_eq {r r' : Request} {res : ℤ} (hcode : Tabled res)
    (hhints : r'.resHints.status = r.resHints.status)
    (hphase : r.status = .term → r'.status = .term) : Graded r res r' where
  code := hcode
  noted := by
    rw [hhints]
    exact fun h => h
  phase := hphase

theorem Graded.refl (r : Request) : Graded r 0 r := Graded.of_eq tabled_zero rfl fun h => h

theorem Graded.of_noted {r r' : Request} {res : ℤ} (hcode : Tabled res)
    (hhints : Tabled r'.resHints.status) (hphase : r.status = .term → r'.status = .term) :
    Graded r res r' := ⟨hcode, fun _ => hhints, hphase⟩

theorem Graded.trans {r s t : Request} {res res' : ℤ} (h : Graded r res s)
    (h' : Graded s res' t) : Graded r res' t where
  code := h'.code
  noted := fun hr => h'.noted (h.noted hr)
  phase := fun hr => h'.phase (h.phase hr)

/-- Fields outside of the noted status and the phase do not matter. -/
theorem Graded.congr {r s t : Request} {res : ℤ} (h : Graded s res t)
    (hhints : s.resHints.status = r.resHints.status) (hphase : s.status = r.status) :
    Graded r res t :=
  Graded.trans (Graded.of_eq tabled_zero hhints fun hr => hphase.trans hr) h

theorem fillError_graded (r : Request) {error : ℤ} (verbose : Bytes) (h : InTable error) :
    Graded r error (r.fillError error verbose).2 :=
  Graded.of_noted h.tabled h.tabled fun hr => hr

/-- The limits of a head, as `checkSizes` has them. -/
def OverLimit (size : ℤ) (line : Bytes) : Prop :=
  size > HEADER_MAX_BUFFER * BUFFER_SIZE ∨ line.length > BUFFER_SIZE

theorem checkSizes_graded (r : Request)
    (h : r.status = .ongoing ∨ r.status = .new → ¬ OverLimit r.header_size r.line) :
    Graded r r.checkSizes.1 r.checkSizes.2 := by
  unfold Request.checkSizes
  split
  · rename_i hhead
    have hwithin : ¬ (r.header_size > HEADER_MAX_BUFFER * BUFFER_SIZE ∨
        r.line.length > BUFFER_SIZE) := h hhead
    rw [if_neg hwithin]
    exact Graded.refl r
  · split
    · split
      · exact fillError_graded r _ (by decide : InTable 413)
      · exact Graded.refl r
    · split
      · split
        · exact fillError_graded r _ (by decide : InTable 400)
        · exact Graded.refl r
      · exact Graded.refl r

/-- Header lines outgrow the limits: a value is too long, or their end is not in sight
when the limit is passed. -/
inductive Outgrown (size : ℤ) : Bytes → Prop
  | unfinished {text : Bytes} : cutAt 13 10 text = none → OverLimit size text →
      Outgrown size text
  | value {text line rest name value : Bytes} : cutAt 13 10 text = some (line, rest) →
      line ≠ [] → splitColon (line.dropWhile isBlank) = some (name, value) →
      value.length > BUFFER_SIZE → Outgrown size text
  | next {text line rest name value : Bytes} : cutAt 13 10 text = some (line, rest) →
      line ≠ [] → splitColon (line.dropWhile isBlank) = some (name, value) →
      value.length ≤ BUFFER_SIZE → Outgrown size rest → Outgrown size text

/-- The head outgrows the limits with the bytes of a call. Only the request line may be of
any length while it is read. -/
def HeadTooLarge (r : Request) (buffer : Bytes) : Prop :=
  let size := toInt (r.header_size + buffer.length)
  let start := buffer.dropWhile fun c => !isalpha c
  let afterLine := fun (size : ℤ) (text : Bytes) =>
    ∃ line rest, cutAt 13 10 text = some (line, rest) ∧ Outgrown size rest
  match r.status with
  | .term => False
  | .ongoing => Outgrown size (r.line ++ buffer)
  | .rline => afterLine size (r.line ++ buffer)
  | .new =>
    if start = [] then OverLimit size r.line
    else afterLine (toInt start.length) (r.line ++ start)

theorem headerLines_graded (fuel : ℕ) (r : Request) (buffer : Bytes)
    (hbuffer : buffer = [] → r.line = []) (hsize : toInt r.header_size = r.header_size)
    (h : ¬ Outgrown r.header_size (r.line ++ buffer)) :
    Ends (r.headerLines fuel buffer) fun out => Graded r out.1 out.2.1 := by
  induction fuel generalizing r buffer with
  | zero => exact ends_pure.mpr (Graded.refl r)
  | succ fuel ih =>
    rw [Request.headerLines_succ]
    split
    · rename_i hempty
      refine ends_ok.mpr ((checkSizes_graded _ ?_).congr rfl rfl)
      intro _ hover
      rw [hbuffer hempty, hempty] at h
      dsimp only at hover
      rw [hsize, hbuffer hempty] at hover
      exact h (.unfinished (by decide) hover)
    · split
      · rename_i hcut
        refine ends_ok.mpr ((checkSizes_graded _ ?_).congr rfl rfl)
        exact fun _ hover => h (.unfinished hcut hover)
      · rename_i line rest hcut
        split
        · exact ends_ok.mpr (Graded.of_eq tabled_done rfl fun _ => rfl)
        · rename_i hline
          split
          · exact ends_ok.mpr (fillError_graded r _ (by decide : InTable 400))
          · rename_i name value hsplit
            split
            · rename_i hlong
              exact absurd (.value hcut hline hsplit hlong) h
            · rename_i hshort
              have hnext := ih { r.storeHeader name (value.dropWhile isBlank) with line := [] }
                rest (fun _ => rfl) hsize fun hrest =>
                  h (.next hcut hline hsplit (by omega) hrest)
              exact hnext.mono fun out hout => hout.congr rfl rfl

theorem parseRequestLine_graded (r : Request) :
    Ends r.parseRequestLine fun out => Graded r out.1 out.2 ∧
      (out.1 ≠ 0 → InTable out.2.getError) ∧ (out.1 = 0 → out.2.header_size = r.header_size) := by
  rw [Request.parseRequestLine_eq]
  split
  · refine ends_ok.mpr ⟨(fillError_graded _ _ (by decide : InTable 501)).congr rfl rfl, ?_, ?_⟩
    · exact fun _ => (by decide : InTable 501)
    · exact fun _ => rfl
  · split
    · exact ends_error
    · simp only
      split
      · refine ends_ok.mpr ⟨(fillError_graded _ _ (by decide : InTable 505)).congr rfl rfl, ?_, ?_⟩
        · exact fun _ => (by decide : InTable 505)
        · exact fun _ => rfl
      · refine ends_ok.mpr ⟨(Graded.refl r).trans (Graded.of_eq tabled_zero rfl fun h => h), ?_, ?_⟩
        · exact fun h => absurd rfl h
        · exact fun _ => rfl

/-- The request line and the lines after it, from a request that still waits for it. -/
theorem requestLine_graded {r : Request} (hr : r.status = .rline) (buffer : Bytes)
    (hsize : toInt r.header_size = r.header_size)
    (h : ¬ ∃ line rest, cutAt 13 10 (r.line ++ buffer) = some (line, rest) ∧
      Outgrown r.header_size rest) :
    Ends (r.requestLine buffer) fun out => Graded r out.1 out.2.1 := by
  have hopen : ¬ r.status = .term := by
    rw [hr]
    decide
  rw [Request.requestLine_eq r hr]
  split
  · refine ends_ok.mpr ((checkSizes_graded _ ?_).congr rfl rfl)
    intro hhead
    change r.status = .ongoing ∨ r.status = .new at hhead
    rw [hr] at hhead
    rcases hhead with hhead | hhead
    · cases hhead
    · cases hhead
  · rename_i line rest hcut
    dsimp only
    split
    · exact ends_ok.mpr ((fillError_graded _ _ (by decide : InTable 414)).congr rfl rfl)
    · split
      · exact ends_error
      · rename_i res s hline
        obtain ⟨hgraded, herror, hkept⟩ := parseRequestLine_graded _ _ hline
        dsimp only at hgraded herror hkept
        split
        · rename_i hres
          refine ends_ok.mpr ⟨(herror hres).tabled, fun hr => hgraded.noted hr, ?_⟩
          exact fun hterm => absurd hterm hopen
        · rename_i hres
          have hsame : s.header_size = r.header_size := hkept (not_not.mp hres)
          refine (headerLines_graded _ _ rest (fun _ => rfl) ?_ ?_).mono ?_
          · show toInt s.header_size = s.header_size
            rw [hsame, hsize]
          · show ¬ Outgrown s.header_size ([] ++ rest)
            rw [hsame, List.nil_append]
            exact fun hout => h ⟨line, rest, hcut, hout⟩
          · intro out hout
            refine ⟨hout.code, fun hr => hout.noted (hgraded.noted hr), ?_⟩
            exact fun hterm => absurd hterm hopen

/-- The codes of a head within its limits are tabled. -/
theorem parseHeaders_graded (r : Request) (buffer : Bytes)
    (hbuffer : buffer = [] → r.status = .new ∧ r.line = []) (h : ¬ HeadTooLarge r buffer) :
    Ends (r.parseHeaders buffer) fun out => Graded r out.1 out.2.1 := by
  have hcases : r.status = .term ∨ r.status = .new ∨ r.status = .rline ∨ r.status = .ongoing := by
    cases r.status with
    | term => exact Or.inl rfl
    | new => exact Or.inr (Or.inl rfl)
    | rline => exact Or.inr (Or.inr (Or.inl rfl))
    | ongoing => exact Or.inr (Or.inr (Or.inr rfl))
  unfold HeadTooLarge at h
  unfold Request.parseHeaders
  dsimp only at h ⊢
  rcases hcases with hr | hr | hr | hr
  · rw [if_pos hr]
    exact ends_pure.mpr (Graded.refl r)
  · simp only [hr] at h
    rw [if_neg (by rw [hr]; decide), if_pos hr]
    split
    · rename_i hstart
      rw [if_pos hstart] at h
      refine ends_pure.mpr ((checkSizes_graded _ fun _ => ?_).congr rfl rfl)
      exact h
    · rename_i hstart
      rw [if_neg hstart] at h
      have hline := requestLine_graded (r := { r with
        status := .rline
        header_size := toInt (buffer.dropWhile fun c => !isalpha c).length }) rfl _
        (toInt_toInt _) h
      refine hline.mono ?_
      intro out hout
      refine ⟨hout.code, hout.noted, ?_⟩
      intro hterm
      rw [hr] at hterm
      cases hterm
  · simp only [hr] at h
    rw [if_neg (by rw [hr]; decide), if_neg (by rw [hr]; decide)]
    have hline := requestLine_graded
      (r := { r with header_size := toInt (r.header_size + buffer.length) }) hr buffer
      (toInt_toInt _) h
    exact hline.mono fun out hout => hout.congr rfl rfl
  · simp only [hr] at h
    rw [if_neg (by rw [hr]; decide), if_neg (by rw [hr]; decide)]
    unfold Request.requestLine
    rw [if_neg (by show ¬ r.status = .rline; rw [hr]; decide)]
    have hlines := headerLines_graded (r.line.length + buffer.length + 1)
      { r with header_size := toInt (r.header_size + buffer.length) } buffer
      (fun hempty => (hbuffer hempty).2) (toInt_toInt _) h
    exact hlines.mono fun out hout => hout.congr rfl rfl

/-- A call of the body parser, after a complete head: with answer 0 the body is still open. -/
def BodyGraded (b : Body) (out : ℤ × Body × Bytes) : Prop :=
  Graded b.1 out.1 out.2.1.1 ∧ (out.1 = 0 → out.2.1.1.b_status = b.1.b_status)

theorem BodyGraded.congr {r s : Request} {stream stream' : Option BodyStream}
    {out : ℤ × Body × Bytes} (h : BodyGraded (s, stream) out)
    (hhints : s.resHints.status = r.resHints.status) (hphase : s.status = r.status)
    (hbody : s.b_status = r.b_status) : BodyGraded (r, stream') out :=
  ⟨h.1.congr hhints hphase, fun hzero => (h.2 hzero).trans hbody⟩

theorem checkSizes_bodyGraded {r : Request} (hr : r.status = .term)
    (stream stream' : Option BodyStream) (buffer : Bytes) :
    BodyGraded (r, stream) (r.checkSizes.1, (r.checkSizes.2, stream'), buffer) := by
  constructor
  · refine checkSizes_graded r ?_
    intro hhead
    rw [hr] at hhead
    rcases hhead with hhead | hhead
    · cases hhead
    · cases hhead
  · rcases checkSizes_cases r with hpass | ⟨error, verbose, -, hfail⟩
    · rw [hpass]
      exact fun _ => rfl
    · rw [hfail]
      exact fun _ => rfl

theorem fillError_bodyGraded (r : Request) {error : ℤ} (verbose : Bytes)
    (stream stream' : Option BodyStream) (buffer : Bytes) (h : InTable error) :
    BodyGraded (r, stream) (error, ((r.fillError error verbose).2, stream'), buffer) :=
  ⟨fillError_graded r verbose h, fun _ => rfl⟩

theorem chunkData_graded {next : Body → Bytes → Checked (ℤ × Body × Bytes)}
    (hnext : ∀ b buffer, b.1.status = .term → Ends (next b buffer) (BodyGraded b)) {r : Request}
    (hr : r.status = .term) (stream : Option BodyStream) (buffer : Bytes) :
    Ends (Request.chunkData next (r, stream) buffer) (BodyGraded (r, stream)) := by
  unfold Request.chunkData
  dsimp only
  split
  · refine ends_ok.mpr ⟨Graded.of_eq tabled_done rfl fun h => h, ?_⟩
    exact fun h => absurd h (by decide : (-1 : ℤ) ≠ 0)
  · split
    · have hsizes := checkSizes_bodyGraded (r := { r with line := r.line ++ buffer }) hr stream
        stream []
      exact ends_ok.mpr (hsizes.congr rfl rfl rfl)
    · split
      · exact ends_ok.mpr
          ((fillError_bodyGraded _ _ stream stream _ (by decide : InTable 400)).congr rfl rfl rfl)
      · exact (hnext _ _ hr).mono fun out hout => hout.congr rfl rfl rfl

theorem chunkSize_graded {next : Body → Bytes → Checked (ℤ × Body × Bytes)}
    (hnext : ∀ b buffer, b.1.status = .term → Ends (next b buffer) (BodyGraded b)) {r : Request}
    (hr : r.status = .term) (stream : Option BodyStream) (buffer : Bytes) :
    Ends (Request.chunkSize next (r, stream) buffer) (BodyGraded (r, stream)) := by
  unfold Request.chunkSize
  dsimp only
  split
  · split
    · exact ends_ok.mpr
        ((fillError_bodyGraded _ _ stream stream _ (by decide : InTable 400)).congr rfl rfl rfl)
    · have hsizes := checkSizes_bodyGraded (r := { r with line := r.line ++ buffer }) hr stream
        stream []
      exact ends_ok.mpr (hsizes.congr rfl rfl rfl)
  · rename_i line rest hcut
    split
    · exact ends_ok.mpr
        ((fillError_bodyGraded _ _ stream stream _ (by decide : InTable 400)).congr rfl rfl rfl)
    · have hdata := chunkData_graded hnext (r := { r with
        chunked_body_size := toInt (r.chunked_body_size - (line.length + 2))
        len := (getInt line 16 0).2
        line := []
        chunked_status := true }) hr stream rest
      exact hdata.mono fun out hout => hout.congr rfl rfl rfl

theorem chunkLines_graded (fuel : ℕ) (b : Body) (buffer : Bytes) (hr : b.1.status = .term) :
    Ends (Request.chunkLines fuel b buffer) (BodyGraded b) := by
  induction fuel generalizing b buffer with
  | zero => exact ends_pure.mpr ⟨Graded.refl b.1, fun _ => rfl⟩
  | succ fuel ih =>
    obtain ⟨r, stream⟩ := b
    rw [Request.chunkLines_succ]
    split
    · split
      · exact ends_ok.mpr
          (fillError_bodyGraded r _ stream stream _ (by decide : InTable 413))
      · exact ends_ok.mpr ⟨Graded.refl r, fun _ => rfl⟩
    · split
      · exact chunkData_graded ih hr stream buffer
      · exact chunkSize_graded ih hr stream buffer

theorem parseMesured_graded (b : Body) (buffer : Bytes) :
    Ends (Request.parseMesured b buffer) (BodyGraded b) := by
  obtain ⟨r, stream⟩ := b
  unfold Request.parseMesured
  refine Ends.bind_any ?_
  intro extract
  refine Ends.bind_any ?_
  intro rest
  dsimp only
  split
  · refine ends_pure.mpr ⟨Graded.of_eq tabled_done rfl fun h => h, ?_⟩
    exact fun h => absurd h (by decide : (-1 : ℤ) ≠ 0)
  · exact ends_pure.mpr ⟨Graded.of_eq tabled_zero rfl fun h => h, fun _ => rfl⟩

/-- After the body parser has answered 0, the body is not at its end. -/
theorem parseBody_graded {r : Request} (hr : r.status = .term) (stream : Option BodyStream)
    (buffer : Bytes) :
    Ends (Request.parseBody (r, stream) buffer) fun out =>
      Graded r out.1 out.2.1.1 ∧ (out.1 = 0 → out.2.1.1.b_status ≠ .term) := by
  unfold Request.parseBody
  dsimp only
  split
  · refine ends_pure.mpr ⟨Graded.of_eq tabled_done rfl fun h => h, ?_⟩
    exact fun h => absurd h (by decide : (-1 : ℤ) ≠ 0)
  · rename_i hopen
    have hterm : ¬ r.b_status = .term := fun h => hopen (Or.inl h)
    have henter : ∀ s : Request, (if r.b_status = .new then { r with b_status := .ongoing }
        else r) = s → s.resHints.status = r.resHints.status ∧ s.status = r.status ∧
          s.b_status ≠ .term := by
      intro s hs
      rw [← hs]
      split
      · exact ⟨rfl, rfl, (by decide : Status.ongoing ≠ Status.term)⟩
      · exact ⟨rfl, rfl, hterm⟩
    generalize hs : (if r.b_status = .new then { r with b_status := .ongoing } else r) = s
    obtain ⟨hhints, hphase, hbody⟩ := henter s hs
    have hleave : ∀ {x : Checked (ℤ × Body × Bytes)}, Ends x (BodyGraded (s, stream)) →
        Ends x fun out => Graded r out.1 out.2.1.1 ∧ (out.1 = 0 → out.2.1.1.b_status ≠ .term) := by
      intro x hx
      refine hx.mono ?_
      intro out hout
      refine ⟨hout.1.congr hhints hphase, ?_⟩
      intro hzero
      rw [hout.2 hzero]
      exact hbody
    split
    · unfold Request.parseChunked
      dsimp only
      rw [if_neg hbody]
      refine hleave ?_
      have hlines := chunkLines_graded (s.line.length + buffer.length + 1) ({ s with
        chunked_body_size := toInt (s.chunked_body_size + buffer.length) }, stream) buffer
        (hphase.trans hr)
      exact hlines.mono fun out hout => hout.congr rfl rfl rfl
    · exact hleave (parseMesured_graded _ _)

/-- The codes of a body are tabled: the lines of a trailer section are never looked at. -/
theorem parseInput_graded {r : Request} (hr : r.status = .term) (stream : Option BodyStream)
    (buffer : Bytes) :
    Ends (Request.parseInput (r, stream) buffer) fun out => Graded r out.1 out.2.1.1 := by
  unfold Request.parseInput
  dsimp only
  split
  · exact ends_pure.mpr (Graded.refl r)
  · refine Ends.bind (parseBody_graded hr stream buffer) ?_
    intro out hout
    obtain ⟨res, ⟨r', stream'⟩, rest⟩ := out
    obtain ⟨hgraded, hopen⟩ := hout
    dsimp only at hgraded hopen ⊢
    split
    · exact ends_pure.mpr hgraded
    · rename_i hres
      unfold Request.parseTrailerHeaders
      rw [if_pos (hopen (not_not.mp hres))]
      refine Ends.bind (ends_ok.mpr rfl) ?_
      intro out' hout'
      subst hout'
      exact ends_pure.mpr (hgraded.trans (Graded.refl r'))

theorem tabled_of_judges {res : ℤ} (h : Judges res) : Tabled res := by
  have hall : ∀ status ∈ refusals, InTable status := by decide
  rcases h with rfl | hrefusal
  · exact tabled_zero
  · exact (hall res hrefusal).tabled

/-- A check notes the status it answers with, or keeps what was noted. -/
theorem graded_of_routes {r r' : Request} {res : ℤ} (h : Routes r r') (hjudges : Judges res) :
    Graded r res r' where
  code := tabled_of_judges hjudges
  noted := by
    rcases h.status with hstatus | hstatus
    · rw [hstatus]
      exact fun hr => hr
    · exact fun _ => tabled_of_judges hstatus
  phase := by
    rw [h.rest]
    exact fun hr => hr

theorem parseURI_graded (r : Request) :
    Ends r.parseURI fun out => Graded r out.1 out.2 :=
  (parseURI_routes r).mono fun _ h => graded_of_routes h.1 h.2

theorem checkForbiddenHeaders_graded (r : Request) :
    Graded r (checkForbiddenHeaders r).1 (checkForbiddenHeaders r).2 := by
  obtain ⟨hroutes, hjudges⟩ := checkForbiddenHeaders_routes r
  exact graded_of_routes hroutes hjudges

theorem checkRequest_graded (host : Host) (fs : FileSystem) (r : Request) :
    Ends (host.checkRequest fs r) fun out => Graded r out.1 out.2 :=
  (checkRequest_routes host fs r).mono fun _ h => graded_of_routes h.1 h.2

end Webserveau.StatusCodes
