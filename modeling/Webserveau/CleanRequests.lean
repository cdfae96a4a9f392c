import Webserveau.AnswerLogs
import Webserveau.DelimitedTexts
import Webserveau.RoutingFrames

/-!
Requests without line breaks.
Header values are parts of lines, so no value that the parser stores, and none that the
checks or a cgi process bring to the hints, contains a CRLF. Only a date may, which is written
anew for every response.
-/
namespace Webserveau.CleanRequests

open ByteStrings OrderedMaps Formats Requests Clients EventLoop Checks ParserFrames
  RoutingFrames Transitions DelimitedTexts HeadSegmentation

abbrev OneLine (s : Bytes) : Prop := Unbroken 13 10 s

/-- The key is that of the date. -/
def IsDate (key : Bytes) : Prop := Same iLess key (ascii "Date") = true

/-- No cookie and no header of the hints contains a line break. Where the date is not `dated`,
its value is let off. -/
structure CleanHints (dated : Prop) (hints : ResHints) : Prop where
  headers : ∀ e ∈ hints.headers.entries, OneLine e.1 ∧ (dated ∨ ¬ IsDate e.1 → OneLine e.2)
  cookies : ∀ cookie ∈ hints.cookies, OneLine cookie

theorem CleanHints.of_eq {dated : Prop} {hints hints' : ResHints} (h : CleanHints dated hints)
    (hheaders : hints'.headers = hints.headers) (hcookies : hints'.cookies = hints.cookies) :
    CleanHints dated hints' := by
  constructor
  · rw [hheaders]
    exact h.headers
  · rw [hcookies]
    exact h.cookies

theorem CleanHints.addHeader {dated : Prop} {hints : ResHints} (h : CleanHints dated hints)
    {key value : Bytes} (hk : OneLine key) (hv : OneLine value) :
    CleanHints dated (hints.addHeader key value) := by
  refine ⟨?_, h.cookies⟩
  intro e he
  rcases OrderedMap.mem_insertEntry he with he | ⟨hvalue, hkey⟩
  · exact h.headers e he
  · rw [hvalue]
    refine ⟨?_, fun _ => hv⟩
    rcases hkey with rfl | ⟨d, hd, hsame⟩
    · exact hk
    · rw [← hsame]
      exact (h.headers d hd).1

/-- No value of a header or a cookie contains a line break, nor does a key of the hints. -/
structure Clean (r : Request) : Prop where
  headers : ∀ e ∈ r.headers.entries, OneLine e.2
  hints : CleanHints False r.resHints

theorem clean_new : Clean {} where
  headers := fun _ he => by cases he
  hints := ⟨(fun _ he => by cases he), fun _ hcookie => by cases hcookie⟩

/-- Only the headers and the cookies matter. -/
theorem Clean.of_eq {r r' : Request} (h : Clean r) (hheaders : r'.headers = r.headers)
    (hhints : r'.resHints.headers = r.resHints.headers)
    (hcookies : r'.resHints.cookies = r.resHints.cookies) : Clean r' where
  headers := by
    rw [hheaders]
    exact h.headers
  hints := h.hints.of_eq hhints hcookies

theorem Clean.keeps {r r' : Request} (h : Clean r) (hheaders : r'.headers = r.headers)
    (hkeeps : Keeps r r') : Clean r' := by
  obtain ⟨-, status, verbose, hhints⟩ := hkeeps
  exact h.of_eq hheaders (by rw [hhints]) (by rw [hhints])

theorem joined_oneLine {stored value : Bytes} (hs : OneLine stored) (hv : OneLine value) :
    OneLine (stored ++ ascii ", " ++ value) := by
  have hblank : OneLine (32 :: value) := (unbroken_around (s := []) (by decide) (by decide) _).mpr
    ⟨unbroken_nil, hv⟩
  rw [List.append_assoc]
  exact (unbroken_around (c := 44) (by decide) (by decide) _ _).mpr ⟨hs, hblank⟩

theorem Clean.getHeader {r : Request} (h : Clean r) (key : Bytes) : OneLine (r.getHeader key) := by
  unfold Request.getHeader
  cases hfind : r.headers.find? key with
  | none => exact unbroken_nil
  | some value =>
    obtain ⟨e, he, rfl⟩ := OrderedMap.mem_of_find? hfind
    exact h.headers e he

/-- A value of one line is added to the headers. -/
theorem Clean.insert {r : Request} (h : Clean r) {name value : Bytes} (hv : OneLine value) :
    Clean { r with headers := r.headers.insert name value } where
  headers := by
    intro e he
    rcases OrderedMap.mem_insertEntry he with he | ⟨hvalue, -⟩
    · exact h.headers e he
    · rw [hvalue]
      exact hv
  hints := h.hints

theorem Clean.storeHeader {r : Request} (h : Clean r) (name : Bytes) {value : Bytes}
    (hv : OneLine value) : Clean (r.storeHeader name value) := by
  refine h.insert ?_
  unfold joinValue
  split
  · exact joined_oneLine (h.getHeader name) hv
  · exact hv

theorem checkSizes_headers (r : Request) : r.checkSizes.2.headers = r.headers := by
  rcases checkSizes_cases r with hpass | ⟨error, verbose, -, hfail⟩
  · rw [hpass]
  · rw [hfail]
    rfl

theorem Clean.checkSizes {r : Request} (h : Clean r) : Clean r.checkSizes.2 :=
  h.keeps (checkSizes_headers r) (checkSizes_keeps r)

theorem splitColon_oneLine {line name value : Bytes} (h : OneLine line)
    (hsplit : splitColon line = some (name, value)) : OneLine (value.dropWhile isBlank) := by
  unfold splitColon at hsplit
  split at hsplit
  · obtain ⟨-, rfl⟩ := Prod.mk.inj (Option.some.inj hsplit)
    refine h.inside ?_
    refine List.IsInfix.trans (List.dropWhile_suffix _).isInfix ?_
    exact List.IsInfix.trans (List.tail_suffix _).isInfix (List.dropWhile_suffix _).isInfix
  · cases hsplit

theorem cut_oneLine {s line rest : Bytes} (h : cutAt 13 10 s = some (line, rest)) : OneLine line :=
  ((cutAt_eq_some_iff (by decide)).mp h).2

theorem headerLines_clean (fuel : ℕ) {r : Request} (h : Clean r) (buffer : Bytes) :
    Ends (r.headerLines fuel buffer) fun out => Clean out.2.1 := by
  induction fuel generalizing r buffer with
  | zero => exact ends_pure.mpr h
  | succ fuel ih =>
    rw [Request.headerLines_succ]
    split
    · exact ends_ok.mpr (Clean.checkSizes (h.of_eq rfl rfl rfl))
    · split
      · exact ends_ok.mpr (Clean.checkSizes (h.of_eq rfl rfl rfl))
      · rename_i line rest hcut
        split
        · exact ends_ok.mpr (h.of_eq rfl rfl rfl)
        · split
          · exact ends_ok.mpr (h.of_eq rfl rfl rfl)
          · rename_i name value hsplit
            split
            · exact ends_ok.mpr (h.of_eq rfl rfl rfl)
            · have hline : OneLine (line.dropWhile isBlank) :=
                (cut_oneLine hcut).inside (List.dropWhile_suffix _).isInfix
              have hstored := h.storeHeader name (splitColon_oneLine hline hsplit)
              refine ih ?_ _
              exact hstored.of_eq rfl rfl rfl

theorem parseRequestLine_headers (r : Request) :
    Ends r.parseRequestLine fun out => out.2.headers = r.headers := by
  rw [Request.parseRequestLine_eq]
  split
  · exact ends_ok.mpr rfl
  · split
    · exact ends_error
    · simp only
      split
      · exact ends_ok.mpr rfl
      · exact ends_ok.mpr rfl

theorem requestLine_clean {r : Request} (h : Clean r) (buffer : Bytes) :
    Ends (r.requestLine buffer) fun out => Clean out.2.1 := by
  unfold Request.requestLine
  split
  · rw [Request.getLine_eq]
    refine Ends.bind (ends_ok.mpr rfl) ?_
    intro out hout
    subst hout
    cases cutAt 13 10 (r.line ++ buffer) with
    | none => exact ends_pure.mpr (Clean.checkSizes (h.of_eq rfl rfl rfl))
    | some cut =>
      obtain ⟨line, rest⟩ := cut
      dsimp only
      rw [if_neg (by simp)]
      split
      · exact ends_pure.mpr (h.of_eq rfl rfl rfl)
      · have hparsed := parseRequestLine_headers { r with line := line }
        refine Ends.bind (P := fun out => Clean out.2) ?_ ?_
        · intro out hout
          have hline : Clean { r with line := line } := h.of_eq rfl rfl rfl
          exact hline.keeps (hparsed out hout) (parseRequestLine_keeps _ out hout)
        · intro out hout
          split
          · exact ends_pure.mpr hout
          · refine headerLines_clean _ ?_ _
            exact Clean.of_eq hout rfl rfl rfl
  · exact headerLines_clean _ h _

theorem parseHeaders_clean {r : Request} (h : Clean r) (buffer : Bytes) :
    Ends (r.parseHeaders buffer) fun out => Clean out.2.1 := by
  unfold Request.parseHeaders
  split
  · exact ends_pure.mpr h
  · dsimp only
    split
    · split
      · refine ends_pure.mpr (Clean.checkSizes ?_)
        exact h.of_eq rfl rfl rfl
      · refine requestLine_clean ?_ _
        exact h.of_eq rfl rfl rfl
    · refine requestLine_clean ?_ _
      exact h.of_eq rfl rfl rfl

/-- The headers are left alone, and a body that is to go on has not come to its end. -/
structure HeadersKept (r : Request) (out : ℤ × Body × Bytes) : Prop where
  headers : out.2.1.1.headers = r.headers
  unfinished : out.1 = 0 → out.2.1.1.b_status = r.b_status

theorem HeadersKept.of_ne {r : Request} {out : ℤ × Body × Bytes}
    (hheaders : out.2.1.1.headers = r.headers) (hne : out.1 ≠ 0) : HeadersKept r out :=
  ⟨hheaders, fun hzero => absurd hzero hne⟩

theorem checkSizes_kept (r : Request) (line : Bytes) (filestream : Option BodyStream)
    (buffer : Bytes) : HeadersKept r (({ r with line := line } : Request).checkSizes.1,
      (({ r with line := line } : Request).checkSizes.2, filestream), buffer) := by
  refine ⟨checkSizes_headers _, ?_⟩
  intro hzero
  dsimp only
  rw [checkSizes_of_zero hzero]

theorem chunkData_headers {next : Body → Bytes → Checked (ℤ × Body × Bytes)}
    (hnext : ∀ b buffer, Ends (next b buffer) (HeadersKept b.1)) (r : Request)
    (filestream : Option BodyStream) (buffer : Bytes) :
    Ends (Request.chunkData next (r, filestream) buffer) (HeadersKept r) := by
  unfold Request.chunkData
  dsimp only
  split
  · exact ends_ok.mpr (.of_ne rfl (by exact (by decide : (-1 : ℤ) ≠ 0)))
  · split
    · exact ends_ok.mpr (checkSizes_kept r _ _ _)
    · split
      · exact ends_ok.mpr (.of_ne rfl (by exact (by decide : (400 : ℤ) ≠ 0)))
      · refine (hnext _ _).mono ?_
        intro out hout
        exact ⟨hout.headers, hout.unfinished⟩

theorem chunkSize_headers {next : Body → Bytes → Checked (ℤ × Body × Bytes)}
    (hnext : ∀ b buffer, Ends (next b buffer) (HeadersKept b.1)) (r : Request)
    (filestream : Option BodyStream) (buffer : Bytes) :
    Ends (Request.chunkSize next (r, filestream) buffer) (HeadersKept r) := by
  unfold Request.chunkSize
  dsimp only
  split
  · split
    · exact ends_ok.mpr (.of_ne rfl (by exact (by decide : (400 : ℤ) ≠ 0)))
    · exact ends_ok.mpr (checkSizes_kept r _ _ _)
  · split
    · exact ends_ok.mpr (.of_ne rfl (by exact (by decide : (400 : ℤ) ≠ 0)))
    · refine (chunkData_headers hnext _ _ _).mono ?_
      intro out hout
      exact ⟨hout.headers, hout.unfinished⟩

theorem chunkLines_headers (fuel : ℕ) (b : Body) (buffer : Bytes) :
    Ends (Request.chunkLines fuel b buffer) (HeadersKept b.1) := by
  induction fuel generalizing b buffer with
  | zero => exact ends_pure.mpr ⟨rfl, fun _ => rfl⟩
  | succ fuel ih =>
    obtain ⟨r, filestream⟩ := b
    rw [Request.chunkLines_succ]
    split
    · split
      · exact ends_ok.mpr (.of_ne rfl (by exact (by decide : (413 : ℤ) ≠ 0)))
      · exact ends_ok.mpr ⟨rfl, fun _ => rfl⟩
    · split
      · exact chunkData_headers ih _ _ _
      · exact chunkSize_headers ih _ _ _

theorem parseMesured_headers (b : Body) (buffer : Bytes) :
    Ends (Request.parseMesured b buffer) (HeadersKept b.1) := by
  unfold Request.parseMesured
  refine Ends.bind_any ?_
  intro extract
  refine Ends.bind_any ?_
  intro rest
  dsimp only
  split
  · exact ends_pure.mpr (.of_ne rfl (by exact (by decide : (-1 : ℤ) ≠ 0)))
  · exact ends_pure.mpr ⟨rfl, fun _ => rfl⟩

theorem parseChunked_headers (b : Body) (buffer : Bytes) :
    Ends (Request.parseChunked b buffer) (HeadersKept b.1) := by
  unfold Request.parseChunked
  dsimp only
  split
  · exact ends_pure.mpr ⟨rfl, fun _ => rfl⟩
  · refine (chunkLines_headers _ _ _).mono ?_
    intro out hout
    exact ⟨hout.headers, hout.unfinished⟩

/-- Reading the body leaves the headers alone, and it is not done when more is to come. -/
theorem parseBody_headers (b : Body) (buffer : Bytes) :
    Ends (Request.parseBody b buffer) fun out => out.2.1.1.headers = b.1.headers ∧
      (out.1 = 0 → out.2.1.1.b_status ≠ .term) := by
  obtain ⟨r, filestream⟩ := b
  unfold Request.parseBody
  dsimp only
  split
  · refine ends_pure.mpr ⟨rfl, ?_⟩
    intro hzero
    cases hzero
  · rename_i hopen
    have hentered : ∀ s : Request, (if r.b_status = .new then { r with b_status := .ongoing }
        else r) = s → s.headers = r.headers ∧ s.b_status ≠ .term := by
      intro s hs
      rw [← hs]
      split
      · exact ⟨rfl, nofun⟩
      · exact ⟨rfl, fun hterm => hopen (Or.inl hterm)⟩
    generalize hs : (if r.b_status = .new then { r with b_status := .ongoing } else r) = s
    obtain ⟨hheaders, hbody⟩ := hentered s hs
    have hkept : ∀ out : ℤ × Body × Bytes, HeadersKept s out →
        out.2.1.1.headers = r.headers ∧ (out.1 = 0 → out.2.1.1.b_status ≠ .term) := by
      intro out hout
      refine ⟨hout.headers.trans hheaders, fun hzero => ?_⟩
      rw [hout.unfinished hzero]
      exact hbody
    split
    · exact (parseChunked_headers _ _).mono hkept
    · exact (parseMesured_headers _ _).mono hkept

/-- The trailer section is not looked at: the body is done before it. -/
theorem parseInput_keepsHeaders (b : Body) (buffer : Bytes) :
    Ends (Request.parseInput b buffer) fun out => out.2.1.1.headers = b.1.headers := by
  obtain ⟨r, filestream⟩ := b
  unfold Request.parseInput
  dsimp only
  split
  · exact ends_pure.mpr rfl
  · refine Ends.bind (parseBody_headers _ _) ?_
    rintro ⟨res, ⟨s, filestream'⟩, rest⟩ ⟨hheaders, hbody⟩
    dsimp only at hheaders hbody ⊢
    split
    · exact ends_pure.mpr hheaders
    · rename_i hres
      unfold Request.parseTrailerHeaders
      rw [if_pos (hbody (not_not.mp hres))]
      exact ends_pure.mpr hheaders

theorem parseInput_clean {b : Body} (h : Clean b.1) (buffer : Bytes) :
    Ends (Request.parseInput b buffer) fun out => Clean out.2.1.1 := by
  intro out hout
  exact h.keeps (parseInput_keepsHeaders b buffer out hout) (parseInput_call b buffer out hout).2

theorem parseRequest_clean {c : Client} (h : Clean c.getRequest) (bytes : Bytes) :
    Ends (c.parseRequest bytes) fun out => Clean out.2.getRequest := by
  unfold Client.parseRequest
  split
  · refine Ends.bind (parseHeaders_clean h _) ?_
    intro out hout
    exact ends_pure.mpr hout
  · split
    · refine Ends.bind (parseInput_clean (b := (c.getRequest, c.bodyStream)) h _) ?_
      intro out hout
      exact ends_pure.mpr hout
    · exact ends_pure.mpr h

/-- The headers of the request and of its hints, and the cookies, are those from before. -/
def SameHeads (r r' : Request) : Prop :=
  r'.headers = r.headers ∧ r'.resHints.headers = r.resHints.headers ∧
    r'.resHints.cookies = r.resHints.cookies

theorem SameHeads.clean {r r' : Request} (h : SameHeads r r') (hclean : Clean r) : Clean r' :=
  hclean.of_eq h.1 h.2.1 h.2.2

theorem sameHeads_of_routes {r r' : Request} (h : Routes r r') : SameHeads r r' := by
  rw [h.rest]
  exact ⟨rfl, rfl, rfl⟩

/-- A step of the checks of a client keeps its request clean. -/
def KeepsClean (c d : Client) : Prop := Clean c.getRequest → Clean d.getRequest

theorem KeepsClean.of_heads {c d : Client} (h : SameHeads c.getRequest d.getRequest) :
    KeepsClean c d := h.clean

theorem assignHost_clean (c : Client) : KeepsClean c (assignHost c).2 := by
  unfold assignHost
  dsimp only
  split
  · exact KeepsClean.of_heads ⟨rfl, rfl, rfl⟩
  · unfold Client.setHost
    split
    · exact KeepsClean.of_heads ⟨rfl, rfl, rfl⟩
    · exact KeepsClean.of_heads ⟨rfl, rfl, rfl⟩

theorem onRequest_clean {check : Request → Checked (ℤ × Request)} (c : Client)
    (h : Ends (check c.getRequest) fun out => SameHeads c.getRequest out.2) :
    Ends (onRequest check c) fun out => KeepsClean c out.2 := by
  refine Ends.bind h ?_
  intro out hout
  exact ends_pure.mpr (KeepsClean.of_heads hout)

theorem announceBody_clean (c : Client) : KeepsClean c (announceBody c) := by
  unfold announceBody
  dsimp only
  split
  · refine KeepsClean.of_heads ?_
    show SameHeads c.getRequest (Request.setBodyMaxSize (if isChunked c.getRequest then
      c.getRequest.setChunked true else c.getRequest) (getMaxSize c))
    split
    · exact ⟨rfl, rfl, rfl⟩
    · exact ⟨rfl, rfl, rfl⟩
  · exact fun h => h

theorem checkNewBody_clean (c : Client) : KeepsClean c (checkNewBody c).2 := by
  unfold checkNewBody checkBodyLength
  dsimp only
  split
  · split
    · exact KeepsClean.of_heads ⟨rfl, rfl, rfl⟩
    · intro h
      refine announceBody_clean _ ?_
      unfold withLength
      split
      · exact h.of_eq rfl rfl rfl
      · exact h
  · exact fun h => h

theorem Clean.removeHeader {r : Request} (h : Clean r) (key : Bytes) :
    Clean (r.removeHeader key) where
  headers := fun e he => h.headers e (List.mem_of_mem_filter he)
  hints := h.hints

theorem KeepsClean.trans {c d e : Client} (h : KeepsClean c d) (h' : KeepsClean d e) :
    KeepsClean c e := fun hclean => h' (h hclean)

theorem keepContentType_clean (c : Client) : KeepsClean c (keepContentType c) := by
  unfold keepContentType
  dsimp only
  split
  · intro h
    have hkey : OneLine (ascii "content-type") := unbroken_of_not_mem (by decide)
    exact ⟨h.headers, h.hints.addHeader hkey (h.getHeader _)⟩
  · exact fun h => h

theorem setBodyFile_clean (c : Client) (path : Bytes) (opens : Bool) :
    KeepsClean c (c.setBodyFile path opens) := by
  unfold Client.setBodyFile
  dsimp only
  split
  · exact KeepsClean.of_heads ⟨rfl, rfl, rfl⟩
  · exact KeepsClean.of_heads ⟨rfl, rfl, rfl⟩

theorem setUnlink_clean (c : Client) (unlink : Bool) : KeepsClean c (setUnlink c unlink) :=
  KeepsClean.of_heads ⟨rfl, rfl, rfl⟩

theorem uploadTo_clean (env : Env) (c : Client) (filePath : Bytes) (status : ℤ)
    (alreadyExist : Bool) : KeepsClean c (uploadTo env c filePath status alreadyExist) := by
  unfold uploadTo
  refine KeepsClean.trans ?_ (keepContentType_clean _)
  refine KeepsClean.trans ?_ (setUnlink_clean _ _)
  refine KeepsClean.trans ?_ (setBodyFile_clean _ _ _)
  exact KeepsClean.of_heads ⟨rfl, rfl, rfl⟩

theorem defineBodyParsing_clean (env : Env) (c : Client) :
    KeepsClean c (defineBodyParsing env c) := by
  unfold defineBodyParsing
  dsimp only
  split
  · refine KeepsClean.trans ?_ (keepContentType_clean _)
    exact KeepsClean.trans (setBodyFile_clean _ _ _) (setUnlink_clean _ _)
  · split
    · split
      · exact uploadTo_clean env c _ _ _
      · split
        · exact KeepsClean.of_heads ⟨rfl, rfl, rfl⟩
        · exact uploadTo_clean env c _ _ _
      · exact KeepsClean.of_heads ⟨rfl, rfl, rfl⟩
    · exact KeepsClean.trans (setBodyFile_clean _ _ _) (keepContentType_clean _)

theorem acceptHeaders_clean (env : Env) (res : ℤ) (c : Client) :
    KeepsClean c (acceptHeaders env res c).2 := by
  have hprepared : KeepsClean c (if c.getRequest.resHints.cgiRedir = .none then
      defineBodyParsing env c else c) := by
    split
    · exact defineBodyParsing_clean env c
    · exact fun h => h
  unfold acceptHeaders
  dsimp only
  split
  · exact hprepared
  · exact hprepared

theorem finishHeaders_clean (env : Env) (c : Client) : KeepsClean c (finishHeaders env c).2 := by
  have hcontinue : KeepsClean c (checkContinue c).2 := by
    unfold checkContinue
    dsimp only
    split
    · split
      · intro h
        refine Clean.removeHeader (r := { c.getRequest with resHints := _ }) ?_ _
        exact h.of_eq rfl rfl rfl
      · exact fun h => h
    · split
      · intro h
        refine Clean.removeHeader ?_ _
        exact h.of_eq rfl rfl rfl
      · exact fun h => h
  unfold finishHeaders
  dsimp only
  split
  · exact hcontinue
  · exact KeepsClean.trans hcontinue (acceptHeaders_clean env _ _)

theorem andThen_clean {c : Client} {first : Checked (ℤ × Client)}
    {next : Client → Checked (ℤ × Client)} (hfirst : Ends first fun out => KeepsClean c out.2)
    (hnext : ∀ d, Ends (next d) fun out => KeepsClean d out.2) :
    Ends (andThen first next) fun out => KeepsClean c out.2 := by
  refine Ends.andThen (I := KeepsClean c) (hfirst.mono ?_) ?_
  · intro out hout
    exact ⟨fun _ => hout, fun _ => hout⟩
  · intro d hd
    exact (hnext d).mono fun out hout => hd.trans hout

/-- Whatever the checks of a head answer, the request stays clean. -/
theorem handleRequestHeaders_clean (env : Env) (c : Client) :
    Ends (handleRequestHeaders env c) fun out => KeepsClean c out.2 := by
  refine andThen_clean (ends_ok.mpr (assignHost_clean c)) ?_
  intro c
  refine andThen_clean (onRequest_clean c
    ((parseURI_routes _).mono fun _ h => sameHeads_of_routes h.1)) ?_
  intro c
  refine andThen_clean (onRequest_clean c (ends_ok.mpr (sameHeads_of_routes
    (checkForbiddenHeaders_routes _).1))) ?_
  intro c
  refine andThen_clean (ends_ok.mpr (checkNewBody_clean c)) ?_
  intro c
  refine andThen_clean (onRequest_clean c
    ((checkRequest_routes _ _ _).mono fun _ h => sameHeads_of_routes h.1)) ?_
  intro c
  exact ends_ok.mpr (finishHeaders_clean env c)

theorem handleRequestBodyDone_clean (c : Client) : KeepsClean c (handleRequestBodyDone c).2 := by
  unfold handleRequestBodyDone
  dsimp only
  split
  · exact KeepsClean.of_heads ⟨rfl, rfl, rfl⟩
  · split
    · exact KeepsClean.of_heads ⟨rfl, rfl, rfl⟩
    · exact KeepsClean.of_heads ⟨rfl, rfl, rfl⟩

theorem deleteCGIProcess_clean (c : Client) : KeepsClean c c.deleteCGIProcess := by
  unfold Client.deleteCGIProcess
  split
  · exact fun h => h
  · exact KeepsClean.of_heads ⟨rfl, rfl, rfl⟩

theorem generateCGIProcess_clean (env : Env) (c : Client) :
    KeepsClean c (generateCGIProcess env c).2 := by
  unfold generateCGIProcess execCGI
  dsimp only
  by_cases hpid : env.pid > 0
  · rw [if_pos hpid]
    exact KeepsClean.of_heads ⟨rfl, rfl, rfl⟩
  · rw [if_neg hpid]
    dsimp only
    rw [if_pos (by decide)]
    refine KeepsClean.trans ?_ (deleteCGIProcess_clean _)
    exact KeepsClean.of_heads ⟨rfl, rfl, rfl⟩

/-- The headers of a process, and the hints they are read into, have no line break. -/
structure CleanReader (p : CgiReader) : Prop where
  headers : ∀ e ∈ p.headers.entries, OneLine e.2
  hints : CleanHints False p.hints

theorem substr_inside (s : Bytes) (pos n : ℕ) : Ends (substr s pos n) fun out => out <:+: s := by
  unfold substr
  split
  · exact ends_ok.mpr ((List.take_prefix _ _).isInfix.trans (List.drop_suffix _ _).isInfix)
  · exact ends_error

theorem extractHeader_clean {p : CgiReader} (h : CleanReader p) (hline : OneLine p.line) :
    Ends p.extractHeader fun out => CleanReader out.2 := by
  unfold CgiReader.extractHeader
  split
  · exact ends_pure.mpr h
  · refine Ends.bind_any ?_
    intro key
    refine Ends.bind (substr_inside _ _ _) ?_
    intro value hvalue
    have hv : OneLine (value.dropWhile (· = 32)) :=
      hline.inside ((List.dropWhile_suffix _).isInfix.trans hvalue)
    split
    · refine ends_pure.mpr ⟨h.headers, h.hints.headers, ?_⟩
      intro cookie hcookie
      rcases List.mem_append.mp hcookie with hold | hnew
      · exact h.hints.cookies cookie hold
      · rw [List.mem_singleton.mp hnew]
        exact hv
    · refine ends_pure.mpr ⟨?_, h.hints⟩
      intro e he
      rcases OrderedMap.mem_insertEntry he with he | ⟨hstored, -⟩
      · exact h.headers e he
      · rw [hstored]
        exact hv

theorem readLines_clean (fuel : ℕ) {p : CgiReader} (h : CleanReader p) (buffer : Bytes) :
    Ends (p.readLines fuel buffer) fun out => CleanReader out.2 := by
  induction fuel generalizing p buffer with
  | zero => exact ends_pure.mpr h
  | succ fuel ih =>
    unfold CgiReader.readLines
    rw [CgiOutputs.getLine_eq]
    refine Ends.bind (ends_ok.mpr rfl) ?_
    rintro out rfl
    cases hcut : cutAt 13 10 buffer with
    | none => exact ends_pure.mpr h
    | some cut =>
      obtain ⟨line, rest⟩ := cut
      dsimp only [Option.map_some]
      split
      · exact ends_pure.mpr ⟨h.headers, h.hints⟩
      · refine Ends.bind (extractHeader_clean (p := { p with
          line := line
          index := p.index + (line.length + 2) }) ⟨h.headers, h.hints⟩ (cut_oneLine hcut)) ?_
        intro out hout
        split
        · exact ends_pure.mpr ⟨hout.headers, hout.hints.of_eq rfl rfl⟩
        · exact ih hout rest

theorem retrieveType_clean {headers : HeaderMap} (hheaders : ∀ e ∈ headers.entries, OneLine e.2)
    {hints : ResHints} (h : CleanHints False hints) :
    CleanHints False (Request.retrieveType headers hints) := by
  unfold Request.retrieveType
  split
  · exact h
  · rename_i value hfind
    obtain ⟨e, he, rfl⟩ := OrderedMap.mem_of_find? hfind
    have hkey : OneLine (ascii "Content-Type") := unbroken_of_not_mem (by decide)
    exact (h.addHeader hkey (hheaders e he)).of_eq rfl rfl

theorem inspectHeaders_clean {headers : HeaderMap} (hheaders : ∀ e ∈ headers.entries, OneLine e.2)
    {r : Request} (h : Clean r) : Clean (Request.inspectHeaders headers r).2 := by
  have hlocation : OneLine ((headers.find? (ascii "Location")).getD []) := by
    cases hfind : headers.find? (ascii "Location") with
    | none => exact unbroken_nil
    | some value =>
      obtain ⟨e, he, rfl⟩ := OrderedMap.mem_of_find? hfind
      exact hheaders e he
  have hkey : OneLine (ascii "Location") := unbroken_of_not_mem (by decide)
  unfold Request.inspectHeaders
  dsimp only
  split
  · exact h
  · split
    · refine ⟨h.headers, retrieveType_clean hheaders ?_⟩
      exact (h.hints.addHeader hkey hlocation).of_eq rfl rfl
    · split
      · exact h.of_eq rfl rfl rfl
      · split
        · exact h.of_eq rfl rfl rfl
        · exact ⟨h.headers, retrieveType_clean hheaders (h.hints.of_eq rfl rfl)⟩

/-- What a process writes brings no line break to the hints. -/
theorem parseCgiHeaders_clean (fs : FileSystem) {r : Request} (h : Clean r) :
    Ends (r.parseCgiHeaders fs) fun out => Clean out.2 := by
  have hnew : CleanReader { hints := r.resHints } := ⟨(fun _ he => by cases he), h.hints⟩
  unfold Request.parseCgiHeaders
  dsimp only
  refine Ends.bind (readLines_clean _ hnew _) ?_
  rintro ⟨res, p⟩ hp
  dsimp only at hp ⊢
  split
  · exact ends_pure.mpr ⟨h.headers, hp.hints⟩
  · exact ends_pure.mpr (inspectHeaders_clean hp.headers ⟨h.headers, hp.hints.of_eq rfl rfl⟩)

end Webserveau.CleanRequests
