import Webserveau.EventLoop

/-!
What routing writes to a request.
The checks of a request settle its target, its type and where it is served from. For each of
them it is said once which fields it may write and which codes it may answer with; what they
keep together is read off from there.
-/
namespace Webserveau.RoutingFrames

open ByteStrings OrderedMaps Formats Requests EventLoop Checks

/-- The statuses that the checks of a request refuse it with. -/
def refusals : List ℤ := [300, 301, 302, 303, 307, 308, 400, 403, 404, 405, 415, 501]

/-- A check passes with 0 or refuses. -/
def Judges (res : ℤ) : Prop := res = 0 ∨ res ∈ refusals

/-- The fields that the checks may write. -/
structure Routes (r r' : Request) : Prop where
  rest : r' = { r with
    uri := r'.uri
    type := r'.type
    line := r'.line
    final_status := r'.final_status
    resHints := { r.resHints with
      status := r'.resHints.status
      verboseError := r'.resHints.verboseError
      parsedUri := r'.resHints.parsedUri
      locationRules := r'.resHints.locationRules
      cgiRules := r'.resHints.cgiRules
      redirList := r'.resHints.redirList
      path := r'.resHints.path
      scriptPath := r'.resHints.scriptPath } }
  line : r'.line = r.line ∨ r'.line = []
  status : r'.resHints.status = r.resHints.status ∨ Judges r'.resHints.status

namespace Routes

variable {r s t : Request}

theorem refl (r : Request) : Routes r r := ⟨rfl, Or.inl rfl, Or.inl rfl⟩

theorem trans (h : Routes r s) (h' : Routes s t) : Routes r t where
  rest := by rw [h'.rest, h.rest]
  line := by
    rcases h'.line with hline | hline
    · rw [hline]
      exact h.line
    · exact Or.inr hline
  status := by
    rcases h'.status with hstatus | hstatus
    · rw [hstatus]
      exact h.status
    · exact Or.inr hstatus

theorem withStatus (h : Routes r s) {status : ℤ} (hstatus : Judges status) :
    Routes r (s.withStatus status).2 := h.trans ⟨rfl, Or.inl rfl, Or.inr hstatus⟩

end Routes

/-- The target is refused, or its parts are stored. -/
theorem parseURI_cases (r : Request) : Ends r.parseURI fun out =>
    (∃ p verbose, out = (r.setParsedUri p).fillError 400 verbose) ∨
      ∃ p, out = (0, r.setParsedUri p) := by
  unfold Request.parseURI
  apply Ends.bind_any
  rintro ⟨res, query⟩
  dsimp only
  split
  · exact ends_pure.mpr (Or.inl ⟨_, _, rfl⟩)
  · apply Ends.bind_any
    intro query
    apply Ends.bind_any
    intro query'
    apply Ends.bind_any
    rintro ⟨path, query⟩
    apply Ends.bind_any
    rintro ⟨res', path⟩
    dsimp only
    split
    · exact ends_pure.mpr (Or.inl ⟨_, _, rfl⟩)
    · apply Ends.bind_any
      intro uri
      apply Ends.bind_any
      intro uri'
      exact ends_pure.mpr (Or.inr ⟨_, rfl⟩)

theorem parseURI_routes (r : Request) :
    Ends r.parseURI fun out => Routes r out.2 ∧ Judges out.1 := by
  refine (parseURI_cases r).mono ?_
  rintro out (⟨p, verbose, rfl⟩ | ⟨p, rfl⟩)
  · have hrefusal : Judges 400 := Or.inr (by decide)
    exact ⟨⟨rfl, Or.inr rfl, Or.inr hrefusal⟩, hrefusal⟩
  · exact ⟨⟨rfl, Or.inl rfl, Or.inl rfl⟩, Or.inl rfl⟩

theorem parseURISuffix_routes (r : Request) (suffix : Bytes) :
    Ends (r.parseURISuffix suffix) fun out => Routes r out.2 := by
  refine (parseURI_routes _).mono ?_
  intro out hout
  have happended : Routes r { r with uri := r.uri ++ suffix } := ⟨rfl, Or.inl rfl, Or.inl rfl⟩
  exact happended.trans hout.1

/-- The path info is cut off the path, which keeps its front. -/
theorem extractPathInfo_cases (r : Request) (extension : Bytes) :
    Ends (r.extractPathInfo extension) fun r' => ∃ p, r' = r.setParsedUri p ∧
      p.path <+: r.resHints.parsedUri.path := by
  unfold Request.extractPathInfo
  apply Ends.bind_any
  intro pathInfo
  rw [substr_zero]
  refine Ends.bind (ends_ok.mpr rfl) ?_
  rintro path rfl
  apply Ends.bind_any
  rintro ⟨root, filename⟩
  exact ends_pure.mpr ⟨_, rfl, List.take_prefix _ _⟩

theorem checkForbiddenHeaders_cases (r : Request) : checkForbiddenHeaders r = (0, r) ∨
    ∃ status verbose, status ∈ refusals ∧ checkForbiddenHeaders r =
      ({ r with resHints := { r.resHints with verboseError := verbose } } : Request).withStatus
        status := by
  unfold checkForbiddenHeaders
  split
  · exact Or.inr ⟨_, _, by decide, rfl⟩
  · split
    · exact Or.inr ⟨_, r.resHints.verboseError, by decide, rfl⟩
    · split
      · exact Or.inr ⟨_, _, by decide, rfl⟩
      · exact Or.inl rfl

theorem checkForbiddenHeaders_routes (r : Request) :
    Routes r (checkForbiddenHeaders r).2 ∧ Judges (checkForbiddenHeaders r).1 := by
  rcases checkForbiddenHeaders_cases r with hpass | ⟨status, verbose, hrefusal, hrefuse⟩
  · rw [hpass]
    exact ⟨Routes.refl r, Or.inl rfl⟩
  · rw [hrefuse]
    exact ⟨⟨rfl, Or.inl rfl, Or.inr (Or.inr hrefusal)⟩, Or.inr hrefusal⟩

theorem matchRequest_routes (host : Host) (r : Request) :
    Ends (host.matchRequest r) fun out => Routes r out.2 ∧ Judges out.1 := by
  have hrouted : ∀ s : Request, Routes r s → Routes r s ∧ Judges 0 := fun s hs => ⟨hs, Or.inl rfl⟩
  unfold Host.matchRequest
  dsimp only
  split
  · split
    · have hrefusal : Judges RES_NOT_FOUND := Or.inr (by decide)
      exact ends_pure.mpr ⟨⟨rfl, Or.inl rfl, Or.inr hrefusal⟩, hrefusal⟩
    · split
      · exact ends_pure.mpr (hrouted _ ⟨rfl, Or.inl rfl, Or.inl rfl⟩)
      · exact ends_pure.mpr (hrouted _ ⟨rfl, Or.inl rfl, Or.inl rfl⟩)
  · refine Ends.bind (extractPathInfo_cases _ _) ?_
    rintro _ ⟨p, rfl, -⟩
    split
    · exact ends_pure.mpr (hrouted _ ⟨rfl, Or.inl rfl, Or.inl rfl⟩)
    · exact ends_pure.mpr (hrouted _ ⟨rfl, Or.inl rfl, Or.inl rfl⟩)

theorem checkRedirection_routes (r : Request) :
    Routes r (Host.checkRedirection r).2 ∧ Judges (Host.checkRedirection r).1 := by
  unfold Host.checkRedirection
  split
  · exact ⟨Routes.refl r, Or.inl rfl⟩
  · rename_i location _
    split
    · exact ⟨Routes.refl r, Or.inl rfl⟩
    · rename_i hredir
      have hall : ∀ code ∈ ([300, 301, 302, 303, 307, 308] : List ℤ), code ∈ refusals := by decide
      have hrefusal : Judges location.redir := Or.inr (hall _ (location.redir_valid hredir).1)
      exact ⟨⟨rfl, Or.inl rfl, Or.inr hrefusal⟩, hrefusal⟩

theorem checkDirRessource_routes (host : Host) (r : Request) :
    Ends (host.checkDirRessource r) fun out => Routes r out.2 ∧ Judges out.1 := by
  unfold Host.checkDirRessource
  split
  · exact ends_pure.mpr ⟨Routes.refl r, Or.inl rfl⟩
  · split
    · refine Ends.bind (parseURISuffix_routes _ _) ?_
      intro out hout
      refine Ends.bind (matchRequest_routes _ _) ?_
      intro out' hout'
      refine ends_pure.mpr ⟨hout.trans hout'.1, ?_⟩
      show Judges (if out'.1 ≠ 0 then RES_NOT_FOUND else 0)
      split
      · exact Or.inr (by decide)
      · exact Or.inl rfl
    · split
      · split
        · have hrefusal : Judges RES_FORBIDDEN := Or.inr (by decide)
          exact ends_pure.mpr ⟨(Routes.refl r).withStatus hrefusal, hrefusal⟩
        · exact ends_pure.mpr ⟨⟨rfl, Or.inl rfl, Or.inl rfl⟩, Or.inl rfl⟩
      · exact ends_pure.mpr ⟨Routes.refl r, Or.inl rfl⟩

theorem checkLocationRules_routes (r : Request) :
    Routes r (Host.checkLocationRules r).2 ∧ Judges (Host.checkLocationRules r).1 := by
  have hmethod : Judges RES_METHOD_NOT_ALLOWED := Or.inr (by decide)
  have hupload : Judges RES_FORBIDDEN := Or.inr (by decide)
  unfold Host.checkLocationRules
  split
  · exact ⟨Routes.refl r, Or.inl rfl⟩
  · split
    · exact ⟨(Routes.refl r).withStatus hmethod, hmethod⟩
    · split
      · exact ⟨(Routes.refl r).withStatus hupload, hupload⟩
      · exact ⟨Routes.refl r, Or.inl rfl⟩

theorem checkCGIRules_routes (r : Request) :
    Routes r (Host.checkCGIRules r).2 ∧ Judges (Host.checkCGIRules r).1 := by
  have hmethod : Judges RES_METHOD_NOT_ALLOWED := Or.inr (by decide)
  unfold Host.checkCGIRules
  split
  · exact ⟨Routes.refl r, Or.inl rfl⟩
  · split
    · exact ⟨(Routes.refl r).withStatus hmethod, hmethod⟩
    · exact ⟨Routes.refl r, Or.inl rfl⟩

theorem checkRessourcePath_judges (fs : FileSystem) (path : Bytes) (type : ReqType)
    (checkRead : Bool) : Judges (checkRessourcePath fs path type checkRead) := by
  unfold checkRessourcePath
  split
  · exact Or.inr (by decide)
  · split
    · exact Or.inr (by decide)
    · split
      · exact Or.inr (by decide)
      · split
        · exact Or.inr (by decide)
        · exact Or.inl rfl

theorem checkRessourceExistence_routes (fs : FileSystem) (r : Request) :
    Routes r (Host.checkRessourceExistence fs r).2 ∧
      Judges (Host.checkRessourceExistence fs r).1 := by
  have hpath := checkRessourcePath_judges fs
  unfold Host.checkRessourceExistence
  split
  · exact ⟨⟨rfl, Or.inl rfl, Or.inr (hpath _ _ _)⟩, hpath _ _ _⟩
  · split
    · exact ⟨⟨rfl, Or.inl rfl, Or.inr (hpath _ _ _)⟩, hpath _ _ _⟩
    · exact ⟨⟨rfl, Or.inl rfl, Or.inr (hpath _ _ _)⟩, hpath _ _ _⟩

/-- A chain of checks writes what its checks write. -/
theorem andThen_routes {r : Request} {first : Checked (ℤ × Request)}
    {next : Request → Checked (ℤ × Request)}
    (hfirst : Ends first fun out => Routes r out.2 ∧ Judges out.1)
    (hnext : ∀ s, Ends (next s) fun out => Routes s out.2 ∧ Judges out.1) :
    Ends (andThen first next) fun out => Routes r out.2 ∧ Judges out.1 := by
  refine Ends.andThen (I := Routes r) (hfirst.mono ?_) ?_
  · intro out hout
    exact ⟨fun _ => hout.1, fun _ => hout⟩
  · intro s hs
    refine (hnext s).mono ?_
    intro out hout
    exact ⟨hs.trans hout.1, hout.2⟩

theorem checkRequest_routes (host : Host) (fs : FileSystem) (r : Request) :
    Ends (host.checkRequest fs r) fun out => Routes r out.2 ∧ Judges out.1 := by
  refine andThen_routes (matchRequest_routes host r) ?_
  intro r
  refine andThen_routes (ends_ok.mpr (checkRedirection_routes r)) ?_
  intro r
  refine andThen_routes ?_ ?_
  · split
    · exact checkDirRessource_routes host r
    · exact ends_ok.mpr ⟨Routes.refl r, Or.inl rfl⟩
  · intro r
    refine andThen_routes (ends_ok.mpr (checkLocationRules_routes r)) ?_
    intro r
    refine andThen_routes (ends_ok.mpr (checkCGIRules_routes r)) ?_
    intro r
    exact ends_ok.mpr (checkRessourceExistence_routes fs r)

end Webserveau.RoutingFrames
