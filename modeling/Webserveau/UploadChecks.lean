import Webserveau.Acceptance

/-!
What is known of a request when its host has accepted it.
The checks of a head end with that of `Expect`, which alone comes behind the ones of the
host. A target that is served as a file has not been left in the error status, so its body
can be read.
-/
namespace Webserveau.UploadChecks

open ByteStrings OrderedMaps Formats Requests Clients EventLoop Checks Transitions Acceptance

/-- The checks of a head up to those of its host. -/
def throughHost (env : Env) : Handler := fun c =>
  andThen (.ok (assignHost c)) fun c =>
  andThen (onRequest Request.parseURI c) fun c =>
  andThen (onRequest (fun r => .ok (checkForbiddenHeaders r)) c) fun c =>
  andThen (.ok (checkNewBody c)) fun c =>
  onRequest (fun r => (c.host.getD {}).checkRequest env.resource r) c

theorem handleRequestHeaders_eq (env : Env) (c : Client) :
    handleRequestHeaders env c =
      andThen (throughHost env c) fun d => .ok (finishHeaders env d) := by
  simp only [handleRequestHeaders, throughHost, andThen_assoc]

theorem checkHeaders_eq (env : Env) {c d : Client}
    (h : throughHost env { c with bodyStatus := .none } = .ok (0, d)) :
    checkHeaders env c = .ok ((finishHeaders env d).1,
      (finishHeaders env d).2.record (.checked (finishHeaders env d).1)) := by
  unfold checkHeaders
  rw [handleRequestHeaders_eq, h]
  rfl

/-- A refused target keeps its extension. -/
theorem parseURI_extension (r : Request) : Ends r.parseURI fun out =>
    out.2.final_status = r.final_status ∨
      out.2.resHints.parsedUri.extension = r.resHints.parsedUri.extension := by
  intro out h
  unfold Request.parseURI at h
  simp only [bind_eq_ok_iff] at h
  obtain ⟨⟨res, query⟩, -, h⟩ := h
  split at h
  · cases h
    exact Or.inr rfl
  · simp only [bind_eq_ok_iff] at h
    obtain ⟨query₁, -, query₂, -, ⟨path, query₃⟩, -, ⟨res', path'⟩, -, h⟩ := h
    split at h
    · cases h
      exact Or.inr rfl
    · simp only [bind_eq_ok_iff] at h
      obtain ⟨uri₁, -, uri₂, -, h⟩ := h
      cases h
      exact Or.inl rfl

/-- What a match says of a target: one that names a directory is not served as a file. -/
theorem matchRequest_static (host : Host) (r : Request) : Ends (host.matchRequest r) fun out =>
    (out.2.type = .dir → out.2.resHints.parsedUri.extension = ascii "/") ∧
      (out.2.type = .static → out.2.final_status = r.final_status ∧
        r.resHints.parsedUri.extension ≠ ascii "/") := by
  unfold Host.matchRequest
  dsimp only
  split
  · split
    · refine ends_pure.mpr ⟨?_, ?_⟩
      · intro h
        cases h
      · intro h
        cases h
    · split
      · rename_i hdir
        refine ends_pure.mpr ⟨fun _ => hdir, ?_⟩
        intro h
        cases h
      · rename_i hfile
        refine ends_pure.mpr ⟨?_, fun _ => ⟨rfl, hfile⟩⟩
        intro h
        cases h
  · refine Ends.bind (extractPathInfo_hints _ _) ?_
    intro r' hr'
    obtain ⟨hints, rfl⟩ := hr'
    have hcgi : ∀ hints : ResHints, ∀ s : Request, s = { r with type := .cgi, resHints := hints } →
        (s.type = .dir → s.resHints.parsedUri.extension = ascii "/") ∧
          (s.type = .static → s.final_status = r.final_status ∧
            r.resHints.parsedUri.extension ≠ ascii "/") := by
      intro hints s hs
      subst hs
      constructor
      · intro h
        cases h
      · intro h
        cases h
    split
    · exact ends_pure.mpr (hcgi _ _ rfl)
    · exact ends_pure.mpr (hcgi _ _ rfl)

theorem checkDirRessource_static (host : Host) {r : Request} (htype : r.type = .dir)
    (hdir : r.resHints.parsedUri.extension = ascii "/") :
    Ends (host.checkDirRessource r) fun out =>
      out.2.type = .static → out.2.final_status = r.final_status := by
  have hkept : ∀ s : Request, s.type = r.type → s.type = .static →
      s.final_status = r.final_status := by
    intro s hsame hstatic
    rw [hsame, htype] at hstatic
    cases hstatic
  unfold Host.checkDirRessource
  split
  · exact ends_pure.mpr (hkept r rfl)
  · split
    · refine Ends.bind (parseURI_extension _) ?_
      intro out hout
      obtain ⟨res, t⟩ := out
      dsimp only at hout ⊢
      refine Ends.bind (matchRequest_static host t) ?_
      intro out' hmatch
      refine ends_pure.mpr ?_
      intro hstatic
      obtain ⟨hsame, hfile⟩ := hmatch.2 hstatic
      rcases hout with hfinal | hextension
      · exact hsame.trans hfinal
      · exact absurd (hextension.trans hdir) hfile
    · split
      · split
        · exact ends_pure.mpr (hkept _ rfl)
        · exact ends_pure.mpr (hkept _ rfl)
      · exact ends_pure.mpr (hkept r rfl)

/-- A request that is served as a file is in the phase it was in before the checks. -/
def Unmoved (r s : Request) : Prop := s.type = .static → s.final_status = r.final_status

theorem noting_unmoved {check : Request → ℤ × Request} (h : Noting check) {r s : Request}
    (hs : Unmoved r s) : Unmoved r (check s).2 := by
  obtain ⟨hints, hnoted⟩ := h s
  rw [hnoted]
  exact hs

theorem checkRequest_static (host : Host) (fs : FileSystem) (r : Request) :
    Ends (host.checkRequest fs r) fun out => out.1 = 0 → Unmoved r out.2 := by
  unfold Host.checkRequest
  refine Ends.andThen (I := fun s => (s.type = .dir → s.final_status = r.final_status ∧
    s.resHints.parsedUri.extension = ascii "/") ∧ Unmoved r s) ?_ ?_
  · intro out hout
    obtain ⟨hdir, hstatic⟩ := matchRequest_static host r out hout
    obtain ⟨type, hints, hmatched⟩ := (matchRequest_accepted host r out hout).1
    refine ⟨fun _ => ⟨fun h => ⟨?_, hdir h⟩, fun h => (hstatic h).1⟩, fun hne h => absurd h hne⟩
    rw [hmatched]
  · intro s hs
    refine Ends.andThen (I := fun t => t = s) ?_ ?_
    · exact ends_ok.mpr ⟨checkRedirection_accepted s, fun hne hzero => absurd hzero hne⟩
    · intro t ht
      subst ht
      refine Ends.andThen (I := Unmoved r) ?_ ?_
      · split
        · rename_i htype
          obtain ⟨hfinal, hdir⟩ := hs.1 htype
          refine (checkDirRessource_static host htype hdir).mono ?_
          intro out hout
          exact ⟨fun _ h => (hout h).trans hfinal, fun hne hzero => absurd hzero hne⟩
        · exact ends_ok.mpr ⟨fun _ => hs.2, fun hne => absurd rfl hne⟩
      · intro u hu
        refine Ends.andThen (I := Unmoved r) ?_ ?_
        · exact ends_ok.mpr ⟨fun _ => noting_unmoved checkLocationRules_noting hu,
            fun hne hzero => absurd hzero hne⟩
        · intro v hv
          refine Ends.andThen (I := Unmoved r) ?_ ?_
          · exact ends_ok.mpr ⟨fun _ => noting_unmoved checkCGIRules_noting hv,
              fun hne hzero => absurd hzero hne⟩
          · intro w hw
            exact ends_ok.mpr fun _ => noting_unmoved (checkRessourceExistence_noting fs) hw

theorem throughHost_request (env : Env) {c d : Client} (h : throughHost env c = .ok (0, d)) :
    d.request.isSome = true := by
  unfold throughHost at h
  simp only [andThen_ok_iff, ne_eq, not_true_eq_false, and_false, false_or, onRequest_ok_iff] at h
  obtain ⟨c₁, -, c₂, -, c₃, -, c₄, -, r, -, rfl⟩ := h
  rfl

/-- The checks before those of the host let a request through; it reaches the host parsed and
with its body announced. -/
structure Reaching (host : Host) (r s : Request) : Prop where
  named : r.checkHeader (ascii "host") = true
  admitted : ∃ u, r.parseURI = .ok (0, u) ∧ (checkForbiddenHeaders u).1 = 0 ∧
    ¬ (u.checkHeader (ascii "content-length") = true ∧ bodyLength u > host.getMaxSize) ∧
    s = announcedRequest host.getMaxSize u

theorem checkBodyLength_zero_iff (c : Client) : (checkBodyLength c).1 = 0 ↔
    ¬ (c.getRequest.checkHeader (ascii "content-length") = true ∧
      bodyLength c.getRequest > getMaxSize c) := by
  unfold checkBodyLength
  dsimp only
  split
  · rename_i hlarge
    have hrefused : RES_REQUEST_ENTITY_TOO_LARGE ≠ 0 := by decide
    exact ⟨fun hzero => absurd hzero hrefused, fun hsmall => absurd hlarge hsmall⟩
  · rename_i hsmall
    exact ⟨fun _ => hsmall, fun _ => rfl⟩

/-- What the checks up to those of the host come to, for a request that was read. -/
theorem throughHost_zero_iff (env : Env) {c d : Client}
    (hredir : c.getRequest.resHints.cgiRedir = .none) :
    throughHost env c = .ok (0, d) ↔ ∃ s t, Reaching (hostOf c) c.getRequest s ∧
      (hostOf c).checkRequest env.resource s = .ok (0, t) ∧ d = { c with
        host := some (hostOf c)
        request := some t
        bodyStatus := if bodyLength c.getRequest > 0 ∨ isChunked c.getRequest = true then .ongoing
          else c.bodyStatus } := by
  obtain ⟨host, hsome⟩ := setHost_isSome c (c.getRequest.getHeader (ascii "host"))
  have hhostOf : hostOf c = host := by
    rw [hostOf, hsome]
    rfl
  have hset : c.setHost (c.getRequest.getHeader (ascii "host")) = { c with host := some host } := by
    rw [setHost_eq, hsome]
  -- The length of the body is looked at in the parsed request, with the headers of the one read.
  have hbody : ∀ u, c.getRequest.parseURI = .ok (0, u) →
      (checkBodyLength { c with host := some host, request := some u }).2 = { c with
        host := some host
        request := some (announcedRequest host.getMaxSize u)
        bodyStatus := if bodyLength c.getRequest > 0 ∨ isChunked c.getRequest = true then .ongoing
          else c.bodyStatus } ∨
      (checkBodyLength { c with host := some host, request := some u }).1 ≠ 0 := by
    intro u hparse
    by_cases hzero : (checkBodyLength { c with host := some host, request := some u }).1 = 0
    · have haccepted := checkBodyLength_accepted hzero
      have hread := parseURI_read _ _ hparse
      cases hread with
      | refused hints hres _ => exact absurd rfl hres
      | parsed p _ => exact Or.inl haccepted
    · exact Or.inr hzero
  have hredir' : ∀ u, c.getRequest.parseURI = .ok (0, u) → u.resHints.cgiRedir = .none := by
    intro u hparse
    have hread := parseURI_read _ _ hparse
    cases hread with
    | refused hints hres _ => exact absurd rfl hres
    | parsed p _ => exact hredir
  rw [hhostOf]
  unfold throughHost
  simp only [andThen_ok_iff, ne_eq, not_true_eq_false, and_false, false_or, Except.ok.injEq,
    onRequest_ok_iff]
  constructor
  · intro ⟨c₁, hhost, c₂, ⟨u, hparse, hc₂⟩, c₃, ⟨u', hforbidden, hc₃⟩, c₄, hlength, t, hcheck, hd⟩
    have hnamed : c.getRequest.checkHeader (ascii "host") = true := by
      by_contra hunnamed
      unfold assignHost at hhost
      dsimp only at hhost
      rw [if_pos (by simpa using hunnamed)] at hhost
      cases hhost
    have hc₁ := (assignHost_accepted hhost).trans hset
    have hrequest : c₁.getRequest = c.getRequest := by
      rw [hc₁]
      rfl
    rw [hrequest] at hparse
    have hget : c₂.getRequest = u := by
      rw [hc₂]
      rfl
    rw [hget] at hforbidden
    obtain rfl := checkForbiddenHeaders_accepted hforbidden
    obtain rfl : c₃ = { c with host := some host, request := some u' } := by
      rw [hc₃, hc₂, hc₁]
      rfl
    rw [checkNewBody_eq (by exact hredir' u' hparse)] at hlength
    have hzero := congrArg Prod.fst hlength
    rcases hbody u' hparse with haccepted | hne
    · rw [hlength] at haccepted
      obtain rfl : c₄ = _ := haccepted
      exact ⟨_, t, ⟨hnamed, u', hparse, congrArg Prod.fst hforbidden,
        (checkBodyLength_zero_iff _).mp hzero, rfl⟩, hcheck, hd⟩
    · exact absurd hzero hne
  · intro ⟨s, t, ⟨hnamed, u, hparse, hforbidden, hsmall, hs⟩, hcheck, hd⟩
    have hhost : assignHost c = (0, { c with host := some host }) := by
      unfold assignHost
      dsimp only
      rw [if_neg (by simp [hnamed]), hset]
    have hforbidden' : checkForbiddenHeaders u = (0, u) := by
      have hsame : (checkForbiddenHeaders u).2 = u :=
        checkForbiddenHeaders_accepted (Prod.ext hforbidden rfl)
      exact Prod.ext hforbidden hsame
    have hzero : (checkBodyLength { c with host := some host, request := some u }).1 = 0 :=
      (checkBodyLength_zero_iff _).mpr hsmall
    have hlength := (hbody u hparse).resolve_right (not_not_intro hzero)
    refine ⟨_, hhost, _, ⟨u, hparse, rfl⟩, _, ⟨u, hforbidden', rfl⟩, { c with
      host := some host
      request := some (announcedRequest host.getMaxSize u)
      bodyStatus := if bodyLength c.getRequest > 0 ∨ isChunked c.getRequest = true then .ongoing
        else c.bodyStatus }, ?_, t, ?_, hd⟩
    · rw [checkNewBody_eq (by exact hredir' u hparse)]
      exact Prod.ext hzero hlength
    · rw [← hs]
      exact hcheck

/-- A client whose request its host has accepted. -/
structure Passed (c d : Client) : Prop where
  resolved : Resolved (hostOf c) (announcedRequest (hostOf c).getMaxSize c.getRequest)
    d.getRequest
  redir : d.getRequest.resHints.cgiRedir = .none
  host : d.host = some (hostOf c)
  unmoved : Unmoved c.getRequest d.getRequest
  rest : d = { c with
    host := d.host
    request := d.request
    bodyStatus := if bodyLength c.getRequest > 0 ∨ isChunked c.getRequest = true then .ongoing
      else c.bodyStatus }

theorem throughHost_passed (env : Env) {c d : Client}
    (hredir : c.getRequest.resHints.cgiRedir = .none) (h : throughHost env c = .ok (0, d)) :
    Passed c d := by
  obtain ⟨s, t, hreaching, hcheck, rfl⟩ := (throughHost_zero_iff env hredir).mp h
  obtain ⟨u, hparse, -, -, rfl⟩ := hreaching.admitted
  have hread := parseURI_read _ _ hparse
  cases hread with
  | refused hints hres _ => exact absurd rfl hres
  | parsed p hsame =>
    have hparsed : TargetParsed (announcedRequest (hostOf c).getMaxSize
        (c.getRequest.setParsedUri p)) := hsame { uri := c.getRequest.uri } rfl
    have hresolved := checkRequest_resolved env.resource hparsed _ hcheck rfl
    have hrerouted : Rerouted (announcedRequest (hostOf c).getMaxSize c.getRequest)
        (announcedRequest (hostOf c).getMaxSize (c.getRequest.setParsedUri p)) :=
      ⟨c.getRequest.type, _, rfl⟩
    refine ⟨Resolved.of_rerouted hrerouted hresolved, ?_, rfl, ?_, rfl⟩
    · exact (checkRequest_routed _ _ _ _ hcheck).1.2.2.trans hredir
    · exact checkRequest_static _ _ _ _ hcheck rfl

/-- What is known of a client whose request `handleRequestHeaders` accepts. -/
theorem handleRequestHeaders_entered (env : Env) {c d : Client}
    (hredir : c.getRequest.resHints.cgiRedir = .none)
    (h : handleRequestHeaders env c = .ok (0, d)) : Entered c d := by
  rw [handleRequestHeaders_eq] at h
  simp only [andThen_ok_iff, ne_eq, not_true_eq_false, and_false, false_or, Except.ok.injEq] at h
  obtain ⟨e, hthrough, hfinish⟩ := h
  have hpassed := throughHost_passed env hredir hthrough
  have hexpect : (view e).expect = (view c).expect := by
    show e.getRequest.getHeader (ascii "expect") = c.getRequest.getHeader (ascii "expect")
    rw [Request.getHeader, hpassed.resolved.headers_eq]
    rfl
  have haccept := finishHeaders_accepted env (congrArg Prod.fst hfinish)
  rw [hfinish] at haccept
  obtain ⟨s, hdefined, hupload, hget, hheader, hbody, hbuffer, hstream, hout, htrace⟩ :=
    acceptHeaders_entered env hpassed.redir haccept.symm
  obtain ⟨hints, hhints⟩ := hdefined.request
  obtain ⟨opens, hopens, hall⟩ := hdefined.trace
  have hrest := hpassed.rest
  rw [hexpect] at hout htrace
  refine ⟨?_, by rwa [hget], hheader, ?_, ?_, ?_, ?_, ⟨opens, ?_, hall⟩⟩
  · rw [hget, hhints]
    exact hpassed.resolved.rerouted ⟨_, hints, rfl⟩
  · rw [hbody, hrest]
  · rw [hbuffer, hrest]
  · rw [hout, hrest]
  · intro hnone
    rw [hstream]
    refine hdefined.stream ?_
    rw [hrest]
    exact hnone
  · rw [htrace, hopens, hrest]

end Webserveau.UploadChecks
