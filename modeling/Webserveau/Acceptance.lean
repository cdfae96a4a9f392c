import Webserveau.Transitions

/-!
What an accepted request keeps of its head.
The checks settle the type and the hints of a request. They also append the default URI
of a location to a target that names a directory; when the longer target is refused, the
request is left in the error status, although the checks go on and may accept it.
-/
namespace Webserveau.Acceptance

open ByteStrings OrderedMaps Formats Requests Clients EventLoop Checks Transitions

/-- The parts that `prunePath` settles do not matter before it. -/
theorem prunePath_eq (uri : URI) :
    prunePath uri = prunePath { path := uri.path, query := uri.query, pathInfo := uri.pathInfo } :=
  rfl

/-- What `parseURI` makes of a request, and of every other request with its target. -/
inductive TargetRead (r : Request) : ℤ → Request → Prop
  | parsed (p : URI) : (∀ s : Request, s.uri = r.uri → s.parseURI = .ok (0, s.setParsedUri p)) →
      TargetRead r 0 (r.setParsedUri p)
  | refused {res : ℤ} (hints : ResHints) : res ≠ 0 →
      (∀ s : Request, s.uri = r.uri → ∃ s', s.parseURI = .ok (res, s')) →
      TargetRead r res { r with resHints := hints, line := [], final_status := .error }

theorem parseURI_read (r : Request) : Ends r.parseURI fun out => TargetRead r out.1 out.2 := by
  intro out h
  unfold Request.parseURI at h
  simp only [bind_eq_ok_iff] at h
  obtain ⟨⟨res, query⟩, hscheme, h⟩ := h
  split at h
  · rename_i hres
    cases h
    refine .refused _ (by decide : (400 : ℤ) ≠ 0) ?_
    intro s hs
    simp only [Request.parseURI, hs, hscheme, bind, Except.bind, if_pos hres]
    exact ⟨_, rfl⟩
  · rename_i hres
    simp only [bind_eq_ok_iff] at h
    obtain ⟨query₁, hat, query₂, hslash, ⟨path, query₃⟩, hextract, ⟨res', path'⟩, hcheck, h⟩ := h
    split at h
    · rename_i hres'
      cases h
      refine .refused _ (by decide : (400 : ℤ) ≠ 0) ?_
      intro s hs
      simp only [Request.parseURI, hs, hscheme, hat, hslash, hextract, hcheck, bind, Except.bind,
        if_neg hres, if_pos hres']
      exact ⟨_, rfl⟩
    · rename_i hres'
      simp only [bind_eq_ok_iff] at h
      obtain ⟨uri₁, hprune, uri₂, hpercent, h⟩ := h
      cases h
      refine .parsed uri₂ ?_
      intro s hs
      rw [prunePath_eq] at hprune
      simp only [Request.parseURI, hs, hscheme, hat, hslash, hextract, hcheck, bind, Except.bind,
        if_neg hres, if_neg hres']
      rw [prunePath_eq]
      simp only [hprune, hpercent]
      rfl

/-- Only the type and the hints have changed. -/
def Rerouted (r r' : Request) : Prop :=
  ∃ type hints, r' = { r with type := type, resHints := hints }

theorem Rerouted.trans {r s t : Request} (h : Rerouted r s) (h' : Rerouted s t) :
    Rerouted r t := by
  obtain ⟨type, hints, rfl⟩ := h
  obtain ⟨type', hints', rfl⟩ := h'
  exact ⟨type', hints', rfl⟩

theorem withStatus_rerouted (r : Request) (status : ℤ) : Rerouted r (r.withStatus status).2 :=
  ⟨r.type, _, rfl⟩

/-- The default URI that the checks append to a target that names a directory. -/
def AppendsDefault (host : Host) (p : URI) (suffix : Bytes) : Prop :=
  p.extension = ascii "/" ∧ host.matchCGIConfig p.path = none ∧
    ∃ location, host.matchLocation p.path = some location ∧ location.default_uri = suffix ∧
      suffix ≠ []

/-- What the checks append to a target: nothing, unless a default URI goes with it. -/
def defaultUri (host : Host) (p : URI) : Bytes :=
  if p.extension = ascii "/" ∧ host.matchCGIConfig p.path = none then
    (host.matchLocation p.path).elim [] Location.default_uri
  else []

theorem appendsDefault_iff {host : Host} {p : URI} {suffix : Bytes} :
    AppendsDefault host p suffix ↔ defaultUri host p = suffix ∧ suffix ≠ [] := by
  constructor
  · rintro ⟨hdir, hcgi, location, hlocation, hsuffix, hne⟩
    refine ⟨?_, hne⟩
    rw [defaultUri, if_pos ⟨hdir, hcgi⟩, hlocation]
    exact hsuffix
  · rintro ⟨hdefault, hne⟩
    unfold defaultUri at hdefault
    split at hdefault
    · rename_i hdir
      cases hlocation : host.matchLocation p.path with
      | none =>
        rw [hlocation] at hdefault
        exact absurd hdefault.symm hne
      | some location =>
        rw [hlocation] at hdefault
        exact ⟨hdir.1, hdir.2, location, hlocation, hdefault, hne⟩
    · exact absurd hdefault.symm hne

/-- The target parses, and has the default URI that goes with it behind it. -/
def Completed (host : Host) (uri suffix : Bytes) : Prop :=
  ∃ p, Request.parseURI { uri := uri } = .ok (0, Request.setParsedUri { uri := uri } p) ∧
    suffix = defaultUri host p

/-- The target names a directory, and with the default URI behind it is refused. -/
def BrokenDefault (host : Host) (uri : Bytes) : Prop :=
  ∃ p suffix, Request.parseURI { uri := uri } =
      .ok (0, Request.setParsedUri { uri := uri } p) ∧ AppendsDefault host p suffix ∧
    ∃ res r, res ≠ 0 ∧ Request.parseURI { uri := uri ++ suffix } = .ok (res, r)

theorem extractPathInfo_hints (r : Request) (extension : Bytes) :
    Ends (r.extractPathInfo extension) fun r' => ∃ hints, r' = { r with resHints := hints } := by
  unfold Request.extractPathInfo
  refine Ends.bind_any ?_
  intro pathInfo
  refine Ends.bind_any ?_
  intro path
  refine Ends.bind_any ?_
  intro parts
  exact ends_pure.mpr ⟨_, rfl⟩

/-- A matched request is one for a directory with a default URI exactly when its parsed
target says so. -/
theorem matchRequest_accepted (host : Host) (r : Request) :
    Ends (host.matchRequest r) fun out => Rerouted r out.2 ∧ (out.1 = 0 → ∀ suffix,
      AppendsDefault host r.resHints.parsedUri suffix ↔ out.2.type = .dir ∧
        ∃ location, out.2.resHints.locationRules = some location ∧
          location.default_uri = suffix ∧ suffix ≠ []) := by
  unfold Host.matchRequest
  dsimp only
  split
  · rename_i hcgi
    split
    · exact ends_pure.mpr ⟨⟨_, _, rfl⟩, fun h => by cases h⟩
    · rename_i hlocation
      split
      · rename_i hdir
        refine ends_pure.mpr ⟨⟨_, _, rfl⟩, ?_⟩
        intro _ suffix
        constructor
        · intro ⟨_, _, hrules⟩
          exact ⟨rfl, hrules⟩
        · intro ⟨_, hrules⟩
          exact ⟨hdir, hcgi, hrules⟩
      · rename_i hfile
        refine ends_pure.mpr ⟨⟨_, _, rfl⟩, ?_⟩
        intro _ suffix
        constructor
        · intro ⟨hdir, _⟩
          exact absurd hdir hfile
        · intro ⟨htype, _⟩
          cases htype
  · rename_i cgi hcgi
    refine Ends.bind (extractPathInfo_hints _ _) ?_
    intro r' hr'
    obtain ⟨hints, rfl⟩ := hr'
    have hcase : ∀ (hints : ResHints) (suffix : Bytes),
        AppendsDefault host r.resHints.parsedUri suffix ↔ ReqType.cgi = .dir ∧
          ∃ location, hints.locationRules = some location ∧
            location.default_uri = suffix ∧ suffix ≠ [] := by
      intro hints suffix
      constructor
      · intro ⟨_, hnone, _⟩
        rw [hcgi] at hnone
        cases hnone
      · intro ⟨htype, _⟩
        cases htype
    split
    · exact ends_pure.mpr ⟨⟨_, _, rfl⟩, fun _ => hcase _⟩
    · exact ends_pure.mpr ⟨⟨_, _, rfl⟩, fun _ => hcase _⟩

/-- What becomes of a request that the checks accept: its target may have got a default
URI, and a refusal of that leaves its mark. -/
inductive Resolved (host : Host) (r : Request) : Request → Prop
  | served {r' : Request} (suffix : Bytes) : Completed host r.uri suffix →
      ¬ BrokenDefault host r.uri → Rerouted { r with uri := r.uri ++ suffix } r' →
      Resolved host r r'
  | broken {r' : Request} (suffix : Bytes) : Completed host r.uri suffix →
      BrokenDefault host r.uri →
      Rerouted { r with uri := r.uri ++ suffix, line := [], final_status := .error } r' →
      Resolved host r r'

theorem Resolved.rerouted {host : Host} {r s t : Request} (h : Resolved host r s)
    (h' : Rerouted s t) : Resolved host r t := by
  cases h with
  | served suffix hsuffix hintact hs => exact .served suffix hsuffix hintact (hs.trans h')
  | broken suffix hsuffix hbroken hs => exact .broken suffix hsuffix hbroken (hs.trans h')

/-- The target of the request has been parsed. -/
def TargetParsed (r : Request) : Prop :=
  Request.parseURI { uri := r.uri } =
    .ok (0, Request.setParsedUri { uri := r.uri } r.resHints.parsedUri)

theorem brokenDefault_iff {host : Host} {r : Request} (hparsed : TargetParsed r) :
    BrokenDefault host r.uri ↔ ∃ suffix, AppendsDefault host r.resHints.parsedUri suffix ∧
      ∃ res r', res ≠ 0 ∧ Request.parseURI { uri := r.uri ++ suffix } = .ok (res, r') := by
  constructor
  · intro ⟨p, suffix, hp, hrest⟩
    rw [hparsed, Except.ok.injEq, Prod.mk.injEq] at hp
    have hsame : r.resHints.parsedUri = p :=
      congrArg (fun r : Request => r.resHints.parsedUri) hp.2
    rw [hsame]
    exact ⟨suffix, hrest⟩
  · intro ⟨suffix, hrest⟩
    exact ⟨_, suffix, hparsed, hrest⟩

theorem served_of_no_default {host : Host} {r s : Request} (hparsed : TargetParsed r)
    (hs : Rerouted r s) (hnone : ∀ suffix, ¬ AppendsDefault host r.resHints.parsedUri suffix) :
    Resolved host r s := by
  refine .served [] ⟨_, hparsed, ?_⟩ ?_ ?_
  · by_contra hne
    exact hnone _ (appendsDefault_iff.mpr ⟨rfl, Ne.symm hne⟩)
  · rw [brokenDefault_iff hparsed]
    intro ⟨suffix, happends, _⟩
    exact hnone suffix happends
  · rw [List.append_nil]
    exact hs

/-- The check of a directory, for a request that has just been matched. -/
theorem checkDirRessource_accepted {host : Host} {r s : Request} (hparsed : TargetParsed r)
    (hs : Rerouted r s) (hdefault : ∀ suffix, AppendsDefault host r.resHints.parsedUri suffix ↔
      s.type = .dir ∧ ∃ location, s.resHints.locationRules = some location ∧
        location.default_uri = suffix ∧ suffix ≠ []) (htype : s.type = .dir) :
    Ends (host.checkDirRessource s) fun out => out.1 = 0 → Resolved host r out.2 := by
  unfold Host.checkDirRessource
  split
  · rename_i hrules
    refine ends_pure.mpr fun _ => served_of_no_default hparsed hs ?_
    intro suffix happends
    obtain ⟨-, location, hlocation, -⟩ := (hdefault suffix).mp happends
    rw [hrules] at hlocation
    cases hlocation
  · rename_i location hrules
    split
    · rename_i hsuffix
      have happends : AppendsDefault host r.resHints.parsedUri location.default_uri :=
        (hdefault _).mpr ⟨htype, location, hrules, rfl, hsuffix⟩
      have hcompleted : Completed host r.uri location.default_uri :=
        ⟨_, hparsed, (appendsDefault_iff.mp happends).1.symm⟩
      obtain ⟨type, hints, rfl⟩ := hs
      refine Ends.bind (P := fun out : ℤ × Request => TargetRead
        { ({ r with type := type, resHints := hints } : Request) with
          uri := r.uri ++ location.default_uri } out.1 out.2) (parseURI_read _) ?_
      intro out hout
      obtain ⟨res, t⟩ := out
      dsimp only at hout ⊢
      refine Ends.bind (matchRequest_accepted host t) ?_
      intro out' hout'
      refine ends_pure.mpr fun _ => ?_
      refine Resolved.rerouted ?_ hout'.1
      cases hout with
      | parsed p hsame =>
        refine .served location.default_uri hcompleted ?_ ⟨type, _, rfl⟩
        rw [brokenDefault_iff hparsed]
        intro ⟨suffix, happends', res, r', hres, hrefused⟩
        obtain ⟨-, location', hlocation', hsuffix', -⟩ := (hdefault suffix).mp happends'
        rw [hrules, Option.some.injEq] at hlocation'
        subst hlocation' hsuffix'
        rw [hsame { uri := r.uri ++ location.default_uri } rfl, Except.ok.injEq,
          Prod.mk.injEq] at hrefused
        exact hres hrefused.1.symm
      | refused hints' hres hsame =>
        refine .broken location.default_uri hcompleted ?_ ⟨type, _, rfl⟩
        rw [brokenDefault_iff hparsed]
        obtain ⟨r', hrefused⟩ := hsame { uri := r.uri ++ location.default_uri } rfl
        exact ⟨_, happends, _, r', hres, hrefused⟩
    · rename_i hempty
      have hnone : ∀ suffix, ¬ AppendsDefault host r.resHints.parsedUri suffix := by
        intro suffix happends
        obtain ⟨-, location', hlocation, hsuffix, hne⟩ := (hdefault suffix).mp happends
        rw [hrules, Option.some.injEq] at hlocation
        subst hlocation
        rw [hsuffix] at hempty
        exact hempty hne
      split
      · split
        · exact ends_pure.mpr fun _ => served_of_no_default hparsed
            (hs.trans (withStatus_rerouted _ _)) hnone
        · exact ends_pure.mpr fun _ => served_of_no_default hparsed (hs.trans ⟨_, _, rfl⟩) hnone
      · exact ends_pure.mpr fun _ => served_of_no_default hparsed hs hnone

theorem noting_rerouted {check : Request → ℤ × Request} (h : Noting check) (r : Request) :
    Rerouted r (check r).2 :=
  ⟨r.type, h r⟩

/-- The checks of the host, for a request they accept. -/
theorem checkRequest_resolved {host : Host} (fs : FileSystem) {r : Request}
    (hparsed : TargetParsed r) :
    Ends (host.checkRequest fs r) fun out => out.1 = 0 → Resolved host r out.2 := by
  unfold Host.checkRequest
  refine Ends.andThen (I := fun s => Rerouted r s ∧ ∀ suffix,
    AppendsDefault host r.resHints.parsedUri suffix ↔ s.type = .dir ∧
      ∃ location, s.resHints.locationRules = some location ∧
        location.default_uri = suffix ∧ suffix ≠ []) ?_ ?_
  · refine (matchRequest_accepted host r).mono ?_
    intro out hout
    exact ⟨fun hzero => ⟨hout.1, hout.2 hzero⟩, fun hne hzero => absurd hzero hne⟩
  · intro s hs
    refine Ends.andThen (I := fun t => t = s) ?_ ?_
    · exact ends_ok.mpr ⟨checkRedirection_accepted s, fun hne hzero => absurd hzero hne⟩
    · rintro t rfl
      refine Ends.andThen (I := Resolved host r) ?_ ?_
      · split
        · rename_i htype
          refine (checkDirRessource_accepted hparsed hs.1 hs.2 htype).mono ?_
          intro out hout
          exact ⟨hout, fun hne hzero => absurd hzero hne⟩
        · rename_i htype
          refine ends_ok.mpr ⟨fun _ => ?_, fun hne => absurd rfl hne⟩
          refine served_of_no_default hparsed hs.1 ?_
          intro suffix happends
          exact htype ((hs.2 suffix).mp happends).1
      · intro u hu
        refine Ends.andThen (I := Resolved host r) ?_ ?_
        · exact ends_ok.mpr ⟨fun _ => hu.rerouted (noting_rerouted checkLocationRules_noting u),
            fun hne hzero => absurd hzero hne⟩
        · intro v hv
          refine Ends.andThen (I := Resolved host r) ?_ ?_
          · exact ends_ok.mpr ⟨fun _ => hv.rerouted (noting_rerouted checkCGIRules_noting v),
              fun hne hzero => absurd hzero hne⟩
          · intro w hw
            exact ends_ok.mpr fun _ =>
              hw.rerouted (noting_rerouted (checkRessourceExistence_noting fs) w)

/-- Where the parsing of a body is set up, the hints, the stream and the name of its file
change, and files are opened. -/
structure Defined (c d : Client) : Prop where
  request : ∃ hints, d.getRequest = { c.getRequest with resHints := hints }
  stream : c.bodyStream = none → ∀ s, d.bodyStream = some s → s.written = []
  trace : ∃ opens, d.trace = c.trace ++ opens ∧ ∀ a ∈ opens, ∃ path, a = .opened path
  same : d.headerStatus = c.headerStatus ∧ d.bodyStatus = c.bodyStatus ∧ d.buffer = c.buffer ∧
    d.outBuffers = c.outBuffers

theorem setRequest_defined (c : Client) (hints : ResHints) :
    Defined c (c.setRequest { c.getRequest with resHints := hints }) where
  request := ⟨hints, rfl⟩
  stream := by
    intro hnone s hs
    have hsome : c.bodyStream = some s := hs
    rw [hnone] at hsome
    cases hsome
  trace := ⟨[], (List.append_nil _).symm, by simp⟩
  same := ⟨rfl, rfl, rfl, rfl⟩

/-- What is defined after a change of the hints is defined without it. -/
theorem Defined.of_hints {c d : Client} {hints : ResHints}
    (h : Defined (c.setRequest { c.getRequest with resHints := hints }) d) : Defined c d :=
  ⟨h.request, h.stream, h.trace, h.same⟩

theorem keepContentType_defined {c d : Client} (h : Defined c d) :
    Defined c (keepContentType d) := by
  obtain ⟨hints, hrequest⟩ := h.request
  unfold keepContentType
  dsimp only
  split
  · refine ⟨⟨d.getRequest.resHints.addHeader (ascii "content-type")
      (d.getRequest.getHeader (ascii "content-type")), ?_⟩, h.stream, h.trace, h.same⟩
    show ({ d.getRequest with resHints := _ } : Request) = _
    rw [hrequest]
  · exact h

theorem setUnlink_defined {c d : Client} (h : Defined c d) (unlink : Bool) :
    Defined c (setUnlink d unlink) := by
  obtain ⟨hints, hrequest⟩ := h.request
  refine ⟨⟨{ d.getRequest.resHints with unlink := unlink }, ?_⟩, h.stream, h.trace, h.same⟩
  show ({ d.getRequest with resHints := _ } : Request) = _
  rw [hrequest]

theorem setBodyFile_defined (c : Client) (path : Bytes) (opens : Bool) :
    Defined c (c.setBodyFile path opens) := by
  unfold Client.setBodyFile
  dsimp only
  split
  · refine ⟨⟨_, rfl⟩, ?_, ⟨[.opened path], rfl, ?_⟩, ⟨rfl, rfl, rfl, rfl⟩⟩
    · intro _ s hs
      cases hs
      rfl
    · intro a ha
      exact ⟨path, List.mem_singleton.mp ha⟩
  · refine ⟨⟨_, rfl⟩, ?_, ⟨[], (List.append_nil _).symm, by simp⟩, ⟨rfl, rfl, rfl, rfl⟩⟩
    intro _ s hs
    cases hs

theorem uploadTo_defined (env : Env) (c : Client) (filePath : Bytes) (status : ℤ)
    (alreadyExist : Bool) : Defined c (uploadTo env c filePath status alreadyExist) := by
  unfold uploadTo
  exact Defined.of_hints (keepContentType_defined (setUnlink_defined (setBodyFile_defined _ _ _) _))

theorem uploadTo_status (env : Env) (c : Client) (filePath : Bytes) (status : ℤ)
    (alreadyExist : Bool) :
    (uploadTo env c filePath status alreadyExist).getRequest.resHints.status = status := by
  unfold uploadTo keepContentType Client.setBodyFile
  dsimp only
  split
  · split
    · rfl
    · rfl
  · split
    · rfl
    · rfl

/-- Uploads are answered with the status that is settled here. -/
def UploadStatus (r : Request) : Prop :=
  r.type = .static ∧ (r.method = some .POST ∨ r.method = some .PUT) → 0 < r.resHints.status

theorem defineBodyParsing_defined (env : Env) (c : Client) :
    Defined c (defineBodyParsing env c) ∧ UploadStatus (defineBodyParsing env c).getRequest := by
  have hkept : ∀ {d : Client}, Defined c d → UploadStatus d.getRequest ∨
      ¬ (c.getRequest.type = .static ∧
        (c.getRequest.method = some .POST ∨ c.getRequest.method = some .PUT)) →
      UploadStatus d.getRequest := by
    intro d hd h
    rcases h with h | hother
    · exact h
    · obtain ⟨hints, hrequest⟩ := hd.request
      intro hupload
      rw [hrequest] at hupload
      exact absurd hupload hother
  have hupload : ∀ filePath (status : ℤ) alreadyExist, 0 < status →
      Defined c (uploadTo env c filePath status alreadyExist) ∧
        UploadStatus (uploadTo env c filePath status alreadyExist).getRequest := by
    intro filePath status alreadyExist hpos
    refine ⟨uploadTo_defined env c filePath status alreadyExist, ?_⟩
    intro _
    rw [uploadTo_status]
    exact hpos
  have hrefuse : Defined c (c.setRequest (c.getRequest.setHintStatus RES_FORBIDDEN)) ∧
      UploadStatus (c.setRequest (c.getRequest.setHintStatus RES_FORBIDDEN)).getRequest :=
    ⟨setRequest_defined c _, fun _ => (by decide : (0 : ℤ) < 403)⟩
  unfold defineBodyParsing
  dsimp only
  split
  · rename_i hcgi
    have hdefined := keepContentType_defined (setUnlink_defined (setBodyFile_defined c
      (if c.bodyStatus ≠ .none then generateName (some (hostName c)) env.bodyTime else [])
      env.opens) true)
    refine ⟨hdefined, hkept hdefined (Or.inr ?_)⟩
    intro hstatic
    rw [hcgi] at hstatic
    cases hstatic.1
  · split
    · split
      · exact hupload _ _ _ (by decide)
      · split
        · exact hrefuse
        · exact hupload _ _ _ (by decide)
      · exact hrefuse
    · rename_i hother
      have hdefined := keepContentType_defined (setBodyFile_defined c [] env.opens)
      exact ⟨hdefined, hkept hdefined (Or.inr hother)⟩

/-- The request once the length of its body is settled. -/
def announcedRequest (maxSize : ℤ) (r : Request) : Request :=
  { r with
    content_length := if bodyLength r > 0 then bodyLength r else r.content_length
    chunked := isChunked r || r.chunked
    body_max_size := if bodyLength r > 0 ∨ isChunked r = true then maxSize else r.body_max_size }

theorem checkBodyLength_accepted {c : Client} (h : (checkBodyLength c).1 = 0) :
    (checkBodyLength c).2 = { c with
      request := some (announcedRequest (getMaxSize c) c.getRequest)
      bodyStatus := if bodyLength c.getRequest > 0 ∨ isChunked c.getRequest = true then .ongoing
        else c.bodyStatus } := by
  have hsame : bodyLength (withLength c.getRequest) = bodyLength c.getRequest ∧
      isChunked (withLength c.getRequest) = isChunked c.getRequest := by
    unfold withLength
    split
    · exact ⟨rfl, rfl⟩
    · exact ⟨rfl, rfl⟩
  unfold checkBodyLength at h ⊢
  dsimp only at h ⊢
  split
  · rename_i hlarge
    rw [if_pos hlarge] at h
    cases h
  · unfold announceBody
    have hget : (c.setRequest (withLength c.getRequest)).getRequest = withLength c.getRequest := rfl
    dsimp only
    rw [hget, hsame.1, hsame.2]
    unfold announcedRequest withLength
    by_cases hlength : bodyLength c.getRequest > 0
    · cases hchunked : isChunked c.getRequest
      · simp [hlength, Client.setRequest, Request.setContentLength, Request.setBodyMaxSize,
          getMaxSize]
      · simp [hlength, Client.setRequest, Request.setContentLength, Request.setBodyMaxSize,
          Request.setChunked, getMaxSize]
    · cases hchunked : isChunked c.getRequest
      · simp [hlength, Client.setRequest]
      · simp [hlength, Client.setRequest, Request.setBodyMaxSize, Request.setChunked, getMaxSize]

/-- The host that a request is given to. -/
def hostOf (c : Client) : Host :=
  ((c.setHost (c.getRequest.getHeader (ascii "host"))).host).getD {}

theorem setHost_isSome (c : Client) (name : Bytes) : ∃ host, (c.setHost name).host = some host := by
  unfold Client.setHost
  split
  · rename_i hany
    cases hhost : c.host with
    | none =>
      rw [hhost] at hany
      cases hany
    | some host => exact ⟨host, rfl⟩
  · exact ⟨_, rfl⟩

theorem setHost_eq (c : Client) (name : Bytes) :
    c.setHost name = { c with host := (c.setHost name).host } := by
  unfold Client.setHost
  split
  · rfl
  · rfl

/-- The buffers of the answer 100. -/
def continueBuffers : List Bytes := portionsOf (ascii "HTTP/1.1 100 Continue" ++ CRLF)

/-- A client whose request has been accepted. -/
structure Entered (c d : Client) : Prop where
  resolved : Resolved (hostOf c) (announcedRequest (hostOf c).getMaxSize c.getRequest) d.getRequest
  upload : UploadStatus d.getRequest
  header : d.headerStatus = .done
  body : d.bodyStatus = if bodyLength c.getRequest > 0 ∨ isChunked c.getRequest = true then
    .ongoing else c.bodyStatus
  buffer : d.buffer = c.buffer
  outBuffers : d.outBuffers = c.outBuffers ++
    if (view c).expect = CONTINUE then continueBuffers else []
  stream : c.bodyStream = none → ∀ s, d.bodyStream = some s → s.written = []
  trace : ∃ opens, d.trace = c.trace ++ opens ++
      (if (view c).expect = CONTINUE then [.responded 100 [] continueBuffers none] else []) ∧
    ∀ a ∈ opens, ∃ path, a = .opened path

theorem finishHeaders_accepted (env : Env) {c : Client} (h : (finishHeaders env c).1 = 0) :
    finishHeaders env c =
      acceptHeaders env (if (view c).expect = CONTINUE then RES_CONTINUE else 0) c := by
  unfold finishHeaders checkContinue at h ⊢
  dsimp only at h ⊢
  by_cases hexpect : (view c).expect = CONTINUE
  · have hget : c.getRequest.getHeader (ascii "expect") = ascii "100-continue" := hexpect
    rw [if_pos hget] at h ⊢
    rw [if_pos hexpect]
    by_cases hbody : c.bodyStatus = .none
    · rw [if_pos hbody] at h
      cases h
    · rw [if_neg hbody, if_neg (fun h => h.2 rfl)]
  · have hget : ¬ c.getRequest.getHeader (ascii "expect") = ascii "100-continue" := hexpect
    rw [if_neg hget] at h ⊢
    rw [if_neg hexpect]
    by_cases hother : c.getRequest.getHeader (ascii "expect") = []
    · rw [if_neg (not_not_intro hother), if_neg (fun h => h.1 rfl)]
    · rw [if_pos hother] at h
      cases h

/-- The end of the checks, in terms of the client they end with. -/
theorem acceptHeaders_entered (env : Env) {c d : Client}
    (hredir : c.getRequest.resHints.cgiRedir = .none)
    (h : acceptHeaders env (if (view c).expect = CONTINUE then RES_CONTINUE else 0) c = (0, d)) :
    ∃ e, Defined c e ∧ UploadStatus e.getRequest ∧ d.getRequest = e.getRequest ∧
      d.headerStatus = .done ∧ d.bodyStatus = c.bodyStatus ∧ d.buffer = c.buffer ∧
      d.bodyStream = e.bodyStream ∧
      d.outBuffers = c.outBuffers ++ (if (view c).expect = CONTINUE then continueBuffers else []) ∧
      d.trace = e.trace ++
        if (view c).expect = CONTINUE then [.responded 100 [] continueBuffers none] else [] := by
  obtain ⟨hdefined, hupload⟩ := defineBodyParsing_defined env c
  obtain ⟨hheader, hbody, hbuffer, hout⟩ := hdefined.same
  refine ⟨defineBodyParsing env c, hdefined, hupload, ?_⟩
  unfold acceptHeaders at h
  rw [if_pos hredir] at h
  by_cases hexpect : (view c).expect = CONTINUE
  · rw [if_pos hexpect] at h ⊢
    rw [if_pos hexpect]
    dsimp only at h
    rw [if_pos rfl, Prod.mk.injEq] at h
    obtain ⟨-, rfl⟩ := h
    refine ⟨rfl, rfl, hbody, hbuffer, rfl, ?_, rfl⟩
    show (defineBodyParsing env c).outBuffers ++ continueBuffers = _
    rw [hout]
  · rw [if_neg hexpect] at h ⊢
    rw [if_neg hexpect]
    dsimp only at h
    rw [if_neg (by decide), Prod.mk.injEq] at h
    obtain ⟨-, rfl⟩ := h
    refine ⟨rfl, rfl, hbody, hbuffer, rfl, ?_, ?_⟩
    · rw [List.append_nil]
      exact hout
    · rw [List.append_nil]

theorem Resolved.of_rerouted {host : Host} {q r t : Request} (h : Rerouted q r)
    (h' : Resolved host r t) : Resolved host q t := by
  obtain ⟨type, hints, rfl⟩ := h
  cases h' with
  | served suffix hsuffix hintact ht =>
    exact .served suffix hsuffix hintact (Rerouted.trans ⟨type, hints, rfl⟩ ht)
  | broken suffix hsuffix hbroken ht =>
    exact .broken suffix hsuffix hbroken (Rerouted.trans ⟨type, hints, rfl⟩ ht)

theorem Resolved.headers_eq {host : Host} {r r' : Request} (h : Resolved host r r') :
    r'.headers = r.headers := by
  cases h with
  | served suffix hsuffix hintact hr =>
    obtain ⟨type, hints, rfl⟩ := hr
    rfl
  | broken suffix hsuffix hbroken hr =>
    obtain ⟨type, hints, rfl⟩ := hr
    rfl

theorem assignHost_accepted {c d : Client} (h : assignHost c = (0, d)) :
    d = c.setHost (c.getRequest.getHeader (ascii "host")) := by
  unfold assignHost at h
  dsimp only at h
  split at h
  · cases h
  · rw [Prod.mk.injEq] at h
    exact h.2.symm

theorem checkForbiddenHeaders_accepted {r s : Request} (h : checkForbiddenHeaders r = (0, s)) :
    s = r := by
  unfold checkForbiddenHeaders at h
  split at h
  · cases h
  · split at h
    · cases h
    · split at h
      · cases h
      · rw [Prod.mk.injEq] at h
        exact h.2.symm

theorem onRequest_ok_iff {check : Request → Checked (ℤ × Request)} {c d : Client} {res : ℤ} :
    onRequest check c = .ok (res, d) ↔
      ∃ r, check c.getRequest = .ok (res, r) ∧ d = c.setRequest r := by
  unfold onRequest
  rw [bind_eq_ok_iff]
  constructor
  · intro ⟨⟨res', r⟩, hcheck, h⟩
    cases h
    exact ⟨r, hcheck, rfl⟩
  · intro ⟨r, hcheck, h⟩
    subst h
    exact ⟨(res, r), hcheck, rfl⟩

theorem checkNewBody_eq {c : Client} (h : c.getRequest.resHints.cgiRedir = .none) :
    checkNewBody c = checkBodyLength c := by
  unfold checkNewBody
  rw [if_pos h]

end Webserveau.Acceptance
