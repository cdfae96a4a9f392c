import Webserveau.CleanAnswers
import Webserveau.ResponseBuffers

/-!
Responses that have no body by their status.
A response is bodiless when its bytes are a head and nothing else. The answer 100 never is:
its empty line is missing. An answer 204 is bodiless only when a file without bytes is
served or the method is HEAD; without a path it brings a page of its own.
-/
namespace Webserveau.BodilessResponses

open ByteStrings OrderedMaps Formats Requests Clients EventLoop Replies DelimitedTexts
  Acceptance CleanRequests ResponseHeads CleanAnswers ResponseBuffers LoopSteps Checks

/-- The text is lines and an empty line, and nothing follows. -/
def Bodiless (text : Bytes) : Prop :=
  ∃ lines, (∀ line ∈ lines, line ≠ [] ∧ OneLine line) ∧ text = terminate 13 10 lines ++ CRLF

/-- The lines of a head before its empty line. -/
def fullLines (status : ℤ) (hints : ResHints) : List Bytes :=
  statusLine status :: hints.headers.entries.map headerLine ++ hints.cookies.map cookieLine

theorem formatHeaders_full (status : ℤ) (hints : ResHints) :
    formatHeaders status hints = terminate 13 10 (fullLines status hints) ++ CRLF := by
  rw [formatHeaders_eq]
  show terminate 13 10 (fullLines status hints ++ [[]]) = _
  rw [terminate_append]
  rfl

theorem fullLines_clean {hints : ResHints} (h : CleanHints True hints) (status : ℤ) :
    ∀ line ∈ fullLines status hints, line ≠ [] ∧ OneLine line := by
  have hsplits := (headSplits_iff status hints).mp ((headSplits_iff_clean status hints).mpr h)
  intro line hline
  refine ⟨?_, hsplits line (List.mem_append_left _ hline)⟩
  rcases List.mem_append.mp hline with hfront | hcookie
  · rcases List.mem_cons.mp hfront with rfl | hheader
    · exact List.cons_ne_nil _ _
    · obtain ⟨e, -, rfl⟩ := List.mem_map.mp hheader
      unfold headerLine
      intro hnone
      have hsep := (List.append_eq_nil_iff.mp (List.append_eq_nil_iff.mp hnone).1).2
      exact absurd hsep (by decide)
  · obtain ⟨cookie, -, rfl⟩ := List.mem_map.mp hcookie
    exact List.cons_ne_nil _ _

/-- Behind a clean head there is nothing only when the body is empty. -/
theorem bodiless_iff {hints : ResHints} (h : CleanHints True hints) (status : ℤ) (body : Bytes) :
    Bodiless (formatHeaders status hints ++ body) ↔ body = [] := by
  rw [formatHeaders_full]
  constructor
  · intro ⟨lines, hlines, heq⟩
    have hend : terminate 13 10 (fullLines status hints) ++ CRLF ++ body =
        terminate 13 10 lines ++ CRLF ++ [] := by rw [heq, List.append_nil]
    exact (terminate_blank_inj (by decide) (fullLines_clean h status) hlines hend).2
  · rintro rfl
    exact ⟨_, fullLines_clean h status, List.append_nil _⟩

/-- A line that no empty line follows is not a head. -/
theorem continue_not_bodiless : ¬ Bodiless (ascii "HTTP/1.1 100 Continue" ++ CRLF) := by
  intro ⟨lines, hlines, heq⟩
  have hline : OneLine (ascii "HTTP/1.1 100 Continue") := unbroken_of_not_mem (by decide)
  have hcut : cutAt 13 10 (ascii "HTTP/1.1 100 Continue" ++ CRLF) =
      some (ascii "HTTP/1.1 100 Continue", []) :=
    (cutAt_eq_some_iff (by decide)).mpr ⟨rfl, hline⟩
  cases lines with
  | nil => exact absurd heq (by decide)
  | cons line lines =>
    rw [terminate_cons, List.append_assoc] at heq
    rw [heq, (cutAt_eq_some_iff (by decide)).mpr
      ⟨rfl, (hlines line (List.mem_cons_self ..)).2⟩] at hcut
    have hrest := (Prod.mk.inj (Option.some.inj hcut)).2
    exact absurd (List.append_eq_nil_iff.mp hrest).2 (by decide)

/-- The response has no bytes behind its head. -/
def NothingToSend (o : Origin) : Prop :=
  o.request.method = some .HEAD ∨ o.request.resHints.path ≠ [] ∧
    ((o.served.content o.request.resHints.path).getD []).drop o.request.resHints.index = []

theorem fillResponse_index (pages : Bytes) (r : Request) :
    (fillResponse pages r).index = r.resHints.index := by
  obtain ⟨hints, hfills, hresponse⟩ := fillResponse_fills pages r
  obtain ⟨headers, path, unlink, verboseError, rfl⟩ := hfills.fields
  rw [hresponse]

theorem generateVerboseBody_ne_nil (hints : ResHints) : generateVerboseBody hints ≠ [] := by
  unfold generateVerboseBody
  refine List.append_ne_nil_of_right_ne_nil _ ?_
  decide

theorem checkType_method (hints : ResHints) : (checkType hints).method = hints.method := by
  unfold checkType
  split
  · rfl
  · split
    · rfl
    · rfl

theorem announceBody_method (body : Bytes) (hints : ResHints) :
    (announceBody body hints).method = hints.method := rfl

theorem addUniversalHeaders_method (date : Bytes) (hints : ResHints) :
    (addUniversalHeaders date hints).method = hints.method := rfl

/-- Without a path an answer 204 brings a page. -/
theorem dynamicResponse_noContent (fs : FileSystem) (date : Bytes) {hints : ResHints}
    (hstatus : hints.status = RES_NO_CONTENT) :
    dynamicResponse fs date hints =
      (some (.dynamic RES_NO_CONTENT hints.verboseError
        (generateVerboseBody (addUniversalHeaders date hints))),
        announceBody (generateVerboseBody (addUniversalHeaders date hints))
          (addUniversalHeaders date hints)) := by
  have huniversal : (addUniversalHeaders date hints).status = RES_NO_CONTENT := hstatus
  have hspecific : addSpecificHeaders (addUniversalHeaders date hints) =
      addUniversalHeaders date hints := by
    unfold addSpecificHeaders
    rw [if_neg (by rw [huniversal]; decide)]
  have hbody : generateBody fs (addUniversalHeaders date hints) =
      some (generateVerboseBody (addUniversalHeaders date hints)) := by
    unfold generateBody
    rw [if_neg (by rw [huniversal]; exact fun h => absurd h.1 (by decide)),
      if_neg (by rw [huniversal]; decide)]
  unfold dynamicResponse
  dsimp only
  rw [hspecific, hbody, hstatus]
  rfl

/-- With a path an answer 204 sends the file from the index on. -/
theorem fileResponse_stream {fs : FileSystem} {date : Bytes} {hints : ResHints}
    {response : Response} (hmade : (fileResponse fs date hints).1 = some response) :
    response = .file hints.status hints.verboseError hints.path
        (((fs.content hints.path).getD []).drop hints.index) ∧
      (fileResponse fs date hints).2.method = hints.method := by
  unfold fileResponse at hmade ⊢
  obtain ⟨stream, hstream, rfl⟩ := Option.map_eq_some_iff.mp hmade
  unfold inspectFile at hstream ⊢
  split at hstream
  · rename_i kind size content hstat hcontent
    have hcontent' : fs.content hints.path = some content := hcontent
    constructor
    · rw [hcontent', ← Option.some.inj hstream]
      rfl
    · exact checkType_method _
  · cases hstream

theorem flatten_dynamic (status : ℤ) (description body : Bytes) (hints : ResHints) :
    ((Response.dynamic status description body).buffers hints).flatten =
      formatHeaders status hints ++ if hints.method = some .HEAD then [] else body :=
  flatten_portions_head status hints body

theorem flatten_file (status : ℤ) (description path stream : Bytes) (hints : ResHints) :
    ((Response.file status description path stream).buffers hints).flatten =
      formatHeaders status hints ++ if hints.method = some .HEAD then [] else stream :=
  flatten_portions_head status hints stream

/-- The buffers of an answer 204 hold a clean head and the page or file behind it. -/
theorem genResponse_noContent {fs : FileSystem} {date : Bytes} {hints : ResHints}
    {response : Response} (hstatus : hints.status = RES_NO_CONTENT) (hdate : OneLine date)
    (hclean : CleanHints False hints) (hmade : (genResponse fs date hints).1 = some response) :
    CleanHints True (genResponse fs date hints).2 ∧
      (response.buffers (genResponse fs date hints).2).flatten =
        formatHeaders RES_NO_CONTENT (genResponse fs date hints).2 ++
          if hints.method = some .HEAD then []
          else if hints.path = [] then generateVerboseBody (addUniversalHeaders date hints)
          else ((fs.content hints.path).getD []).drop hints.index := by
  have huniversal : CleanHints True (addUniversalHeaders date hints) :=
    addUniversalHeaders_clean (fun _ => hdate) hclean
  have hgen : genResponse fs date hints = if hints.path = [] then dynamicResponse fs date hints
      else fileResponse fs date hints := by
    unfold genResponse
    rw [if_neg (by rw [hstatus]; decide)]
    by_cases hpath : hints.path = []
    · rw [if_pos (Or.inl hpath), if_pos hpath]
    · rw [if_neg hpath, if_neg]
      rintro (hnone | hok)
      · exact hpath hnone
      · rw [hstatus] at hok
        exact absurd hok.1 (by decide)
  rw [hgen] at hmade ⊢
  by_cases hpath : hints.path = []
  · rw [if_pos hpath] at hmade ⊢
    rw [dynamicResponse_noContent fs date hstatus] at hmade ⊢
    obtain rfl := Option.some.inj hmade
    constructor
    · refine CleanHints.addHeader ?_ (unbroken_of_not_mem (by decide))
        (unbroken_of_not_mem (by decide))
      exact huniversal.addHeader (unbroken_of_not_mem (by decide))
        (unbroken_of_not_mem (not_mem_IntToString _))
    · rw [flatten_dynamic, announceBody_method, addUniversalHeaders_method, if_pos hpath]
  · rw [if_neg hpath] at hmade ⊢
    obtain ⟨rfl, hmethod⟩ := fileResponse_stream hmade
    refine ⟨inspectFile_clean fs huniversal, ?_⟩
    rw [flatten_file, hmethod, hstatus, if_neg hpath]

theorem noContent_bodiless_iff {o : Origin} {response : Response} (hclean : Clean o.request)
    (hdate : OneLine o.date) (hstatus : o.request.resHints.status = RES_NO_CONTENT)
    (hgen : (genResponse o.served o.date (fillResponse o.pages o.request)).1 = some response) :
    Bodiless (response.buffers (sentHints o)).flatten ↔ NothingToSend o := by
  have hhints : (fillResponse o.pages o.request).status = RES_NO_CONTENT := by
    rw [fillResponse_status, hstatus]
  have hpath : (fillResponse o.pages o.request).path = o.request.resHints.path := by
    refine fillResponse_path o.pages ?_
    rw [hstatus]
    unfold KeepsPath
    decide
  have hmethod : (fillResponse o.pages o.request).method = o.request.method := rfl
  have hfilled := fillResponse_clean o.pages hclean
  obtain ⟨hsent, hflat⟩ := genResponse_noContent hhints hdate hfilled hgen
  unfold sentHints
  rw [hflat, bodiless_iff hsent, hmethod, fillResponse_index, hpath]
  unfold NothingToSend
  by_cases hhead : o.request.method = some .HEAD
  · rw [if_pos hhead]
    exact iff_of_true rfl (Or.inl hhead)
  · rw [if_neg hhead, or_iff_right hhead]
    by_cases hnone : o.request.resHints.path = []
    · rw [if_pos hnone]
      exact iff_of_false (generateVerboseBody_ne_nil _) fun hboth => hboth.1 hnone
    · rw [if_neg hnone, and_iff_right hnone]

theorem single_line_flatten (status : ℤ) (description : Bytes) (hints : ResHints) :
    ((Response.singleLine status description).buffers hints).flatten =
      ascii "HTTP/1.1 100 Continue" ++ CRLF := portionsOf_flatten _

/-- Of the responses that have no body by their status, only answers 204 without bytes to
send are bodiless, in every run. -/
theorem bodiless_response_iff {server : ListenServer} {events : List Event} {c : Client}
    (hrun : Reaches EventLoop.step (fun _ _ => True) (Client.newClient server) events c)
    {status : ℤ} {connection : Bytes} {buffers : List Bytes} {origin : Option Origin}
    (h : Action.responded status connection buffers origin ∈ c.trace)
    (hdate : ∀ o, origin = some o → OneLine o.date)
    (hstatus : status = RES_CONTINUE ∨ status = RES_NO_CONTENT) :
    Bodiless buffers.flatten ↔
      status = RES_NO_CONTENT ∧ ∃ o, origin = some o ∧ NothingToSend o := by
  have hmade : Made status buffers origin := told_reached hrun _ h
  have hother : ¬ (RES_CONTINUE = RES_NO_CONTENT ∧ ∃ o, origin = some o ∧ NothingToSend o) :=
    fun hboth => absurd hboth.1 (by decide)
  cases origin with
  | none =>
    obtain ⟨rfl, rfl⟩ := hmade.of_none
    exact iff_of_false continue_not_bodiless hother
  | some o =>
    obtain ⟨hclean, rfl, response, hgen, rfl⟩ := hmade.of_origin
    rcases hstatus with h100 | h204
    · unfold genResponse at hgen
      rw [if_pos (by rw [fillResponse_status, h100])] at hgen
      rw [← Option.some.inj hgen, single_line_flatten, h100]
      exact iff_of_false continue_not_bodiless hother
    · rw [noContent_bodiless_iff hclean (hdate o rfl) h204 hgen, h204, and_iff_right rfl]
      constructor
      · exact fun hnothing => ⟨o, rfl, hnothing⟩
      · rintro ⟨o', hsame, hnothing⟩
        rw [Option.some.inj hsame]
        exact hnothing

/-- Every directory is there, and so is every file, all of them empty. -/
def emptyFiles : Env :=
  { plainEnv with
    resource := { plainFiles [] with
      stat := fun path => some (if path.getLast? = some 47 then .directory else .regular, 0) } }

/-- A request without a body that is read in one piece. -/
def bareRequest (method : Bytes) : List Event :=
  [.epoll {
    epollin := true
    incoming := some (method ++ ascii " /f HTTP/1.1" ++ CRLF ++ ascii "Host: a" ++ CRLF ++ CRLF)
    output := plainFiles []
    env := emptyFiles
    next := emptyFiles }]

/-- The answer 204 to the method, made with a path or without one. -/
def answersNoContent (method : Method) (filed : Bool) : Action → Bool
  | .responded status _ _ (some o) => status = 204 ∧ o.date = [] ∧
    o.request.method = some method ∧ (decide (o.request.resHints.path ≠ []) = filed) ∧
    ((o.served.content o.request.resHints.path).getD []).drop o.request.resHints.index = []
  | _ => false

theorem answersNoContent_sound {name : Bytes} {method : Method} {filed : Bool}
    (h : ((bareRequest name).foldlM EventLoop.step (Client.newClient plainServer)).toOption.any
      (fun c => c.trace.any (answersNoContent method filed)) = true) :
    ∃ c connection buffers o, Reaches EventLoop.step (fun _ _ => True)
        (Client.newClient plainServer) (bareRequest name) c ∧
      Action.responded 204 connection buffers (some o) ∈ c.trace ∧ OneLine o.date ∧
      (NothingToSend o ↔ method = .HEAD ∨ filed = true) := by
  obtain ⟨c, hsteps, hany⟩ := exists_of_any h
  have hrun : Reaches EventLoop.step (fun _ _ => True) (Client.newClient plainServer)
      (bareRequest name) c := Reaches.of_foldlM (fun _ _ => True.intro) hsteps
  obtain ⟨a, ha, hanswers⟩ := List.any_eq_true.mp hany
  cases a with
  | responded status connection buffers origin =>
    cases origin with
    | none => cases hanswers
    | some o =>
      obtain ⟨rfl, hdate, hmethod, hfiled, hempty⟩ := of_decide_eq_true hanswers
      refine ⟨c, connection, buffers, o, hrun, ha, ?_, ?_⟩
      · rw [hdate]
        exact unbroken_nil
      · unfold NothingToSend
        rw [hmethod, hempty, Option.some.injEq, ← hfiled, decide_eq_true_iff, and_iff_left rfl]
  | _ => cases hanswers

/-- The answer to an upload without content is bodiless when the file is empty. -/
theorem empty_upload_bodiless :
    ∃ c connection buffers o, Reaches EventLoop.step (fun _ _ => True)
        (Client.newClient plainServer) (bareRequest (ascii "PUT")) c ∧
      Action.responded 204 connection buffers (some o) ∈ c.trace ∧ Bodiless buffers.flatten := by
  have hanswers : ((bareRequest (ascii "PUT")).foldlM EventLoop.step
      (Client.newClient plainServer)).toOption.any
        (fun c => c.trace.any (answersNoContent .PUT true)) = true := by decide +kernel
  obtain ⟨c, connection, buffers, o, hrun, hmem, hdate, hnothing⟩ := answersNoContent_sound hanswers
  have hdates : ∀ o', some o = some o' → OneLine o'.date := by
    rintro o' hsame
    rw [← Option.some.inj hsame]
    exact hdate
  refine ⟨c, connection, buffers, o, hrun, hmem, ?_⟩
  exact (bodiless_response_iff hrun hmem hdates (Or.inr rfl)).mpr
    ⟨rfl, o, rfl, hnothing.mpr (Or.inr rfl)⟩

/-- The answer to a removal brings a page. -/
theorem removal_not_bodiless :
    ∃ c connection buffers o, Reaches EventLoop.step (fun _ _ => True)
        (Client.newClient plainServer) (bareRequest (ascii "DELETE")) c ∧
      Action.responded 204 connection buffers (some o) ∈ c.trace ∧
      ¬ Bodiless buffers.flatten := by
  have hanswers : ((bareRequest (ascii "DELETE")).foldlM EventLoop.step
      (Client.newClient plainServer)).toOption.any
        (fun c => c.trace.any (answersNoContent .DELETE false)) = true := by decide +kernel
  obtain ⟨c, connection, buffers, o, hrun, hmem, hdate, hnothing⟩ := answersNoContent_sound hanswers
  refine ⟨c, connection, buffers, o, hrun, hmem, ?_⟩
  obtain ⟨hclean, hstatus, response, hgen, rfl⟩ := (told_reached hrun _ hmem : Made _ _ _).of_origin
  rw [noContent_bodiless_iff hclean hdate hstatus.symm hgen, hnothing]
  decide

end Webserveau.BodilessResponses
