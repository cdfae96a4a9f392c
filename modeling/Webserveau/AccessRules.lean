import Webserveau.LoopSteps

/-!
Access rules.
A request is matched up to three times, and each match replaces the rules of the one
before. The rules left at the end are the ones that the checks have looked at.
-/
namespace Webserveau.AccessRules

open ByteStrings OrderedMaps Formats Requests Checks LoopSteps

/-- A request that is not for a cgi has a location, and one for a cgi has its rules. -/
structure Routed (r : Request) : Prop where
  located : r.type ≠ .cgi → r.resHints.locationRules ≠ none
  scripted : r.type = .cgi → r.resHints.cgiRules ≠ none

/-- The rules left in the request allow its method, and its upload if it is one. -/
structure Allowed (r : Request) : Prop where
  location : ∀ location, r.resHints.locationRules = some location →
    allows location.methods r.method = true
  cgi : r.type = .cgi → ∃ cgi, r.resHints.cgiRules = some cgi ∧
    allows cgi.methods r.method = true
  upload : r.type = .static → r.method = some .POST ∨ r.method = some .PUT →
    ∀ location, r.resHints.locationRules = some location → location.upload = true
  located : r.type ≠ .cgi → r.resHints.locationRules ≠ none

theorem extractPathInfo_rules (r : Request) (extension : Bytes) :
    Ends (r.extractPathInfo extension) fun r' =>
      r'.type = r.type ∧ r'.resHints.cgiRules = r.resHints.cgiRules := by
  unfold Request.extractPathInfo
  refine Ends.bind_any ?_
  intro pathInfo
  refine Ends.bind_any ?_
  intro path
  refine Ends.bind_any ?_
  intro parts
  exact ends_pure.mpr ⟨rfl, rfl⟩

theorem matchRequest_routed (host : Host) (r : Request) :
    Ends (host.matchRequest r) fun out => out.1 = 0 → Routed out.2 := by
  unfold Host.matchRequest
  dsimp only
  split
  · split
    · refine ends_pure.mpr ?_
      intro h
      cases h
    · rename_i hlocation
      split
      · exact ends_pure.mpr fun _ => ⟨fun _ => hlocation, fun h => by cases h⟩
      · exact ends_pure.mpr fun _ => ⟨fun _ => hlocation, fun h => by cases h⟩
  · rename_i cgi hcgi
    refine Ends.bind (extractPathInfo_rules _ _) ?_
    intro r' hr'
    obtain ⟨htype, hrules⟩ := hr'
    have hscripted : r'.resHints.cgiRules ≠ none := by
      rw [hrules]
      show host.matchCGIConfig r.resHints.parsedUri.path ≠ none
      rw [hcgi]
      exact Option.some_ne_none _
    split
    · refine ends_pure.mpr fun _ => ⟨?_, fun _ => hscripted⟩
      intro hne
      exact absurd htype hne
    · refine ends_pure.mpr fun _ => ⟨?_, fun _ => hscripted⟩
      intro hne
      exact absurd htype hne

theorem checkRedirection_routed {r : Request} (h : Routed r) :
    Routed (Host.checkRedirection r).2 := by
  unfold Host.checkRedirection
  split
  · exact h
  · split
    · exact h
    · exact ⟨h.located, h.scripted⟩

/-- The second match replaces the rules of the first. -/
theorem checkDirRessource_routed (host : Host) {r : Request} (h : Routed r) :
    Ends (host.checkDirRessource r) fun out => out.1 = 0 → Routed out.2 := by
  unfold Host.checkDirRessource
  split
  · exact ends_pure.mpr fun _ => h
  · split
    · refine Ends.bind_any ?_
      intro out
      refine Ends.bind (matchRequest_routed host out.2) ?_
      intro out' hout'
      refine ends_pure.mpr ?_
      intro hzero
      dsimp only at hzero
      split at hzero
      · cases hzero
      · rename_i hmatched
        exact hout' (not_not.mp hmatched)
    · split
      · split
        · exact ends_pure.mpr fun _ => ⟨h.located, h.scripted⟩
        · exact ends_pure.mpr fun _ => ⟨h.located, h.scripted⟩
      · exact ends_pure.mpr fun _ => h

/-- The check of the location lets through what its rules allow. -/
theorem checkLocationRules_allowed {r : Request} (h : (Host.checkLocationRules r).1 = 0) :
    (Host.checkLocationRules r).2 = r ∧
      ∀ location, r.resHints.locationRules = some location →
        allows location.methods r.method = true ∧
          (r.type = .static → r.method = some .POST ∨ r.method = some .PUT →
            location.upload = true) := by
  unfold Host.checkLocationRules at h ⊢
  split
  · rename_i hnone
    refine ⟨rfl, ?_⟩
    intro location hsome
    rw [hnone] at hsome
    cases hsome
  · rename_i location hsome
    simp only [hsome] at h
    split
    · rename_i hmethod
      rw [if_pos hmethod] at h
      cases h
    · rename_i hmethod
      rw [if_neg hmethod] at h
      split
      · rename_i hupload
        rw [if_pos hupload] at h
        cases h
      · rename_i hupload
        refine ⟨rfl, ?_⟩
        intro location' hsome'
        obtain rfl : location = location' := by
          rw [hsome, Option.some.injEq] at hsome'
          exact hsome'
        refine ⟨by simpa using hmethod, ?_⟩
        intro hstatic hmethod'
        by_contra hfalse
        exact hupload ⟨hmethod', hstatic, by simpa using hfalse⟩

theorem checkCGIRules_allowed {r : Request} (h : (Host.checkCGIRules r).1 = 0) :
    (Host.checkCGIRules r).2 = r ∧
      (r.type = .cgi → ∀ cgi, r.resHints.cgiRules = some cgi →
        allows cgi.methods r.method = true) := by
  unfold Host.checkCGIRules at h ⊢
  split
  · rename_i hnone
    refine ⟨rfl, ?_⟩
    intro _ cgi hsome
    rw [hnone] at hsome
    cases hsome
  · rename_i cgi hsome
    simp only [hsome] at h
    split
    · rename_i hrefused
      rw [if_pos hrefused] at h
      cases h
    · rename_i hallowed
      refine ⟨rfl, ?_⟩
      intro htype cgi' hsome'
      obtain rfl : cgi = cgi' := by
        rw [hsome, Option.some.injEq] at hsome'
        exact hsome'
      by_contra hfalse
      exact hallowed ⟨htype, by simpa using hfalse⟩

theorem checkRessourceExistence_allowed (fs : FileSystem) {r : Request} (h : Allowed r) :
    Allowed (Host.checkRessourceExistence fs r).2 := by
  unfold Host.checkRessourceExistence
  split
  · exact ⟨h.location, h.cgi, h.upload, h.located⟩
  · split
    · exact ⟨h.location, h.cgi, h.upload, h.located⟩
    · exact ⟨h.location, h.cgi, h.upload, h.located⟩

/-- A request that the checks accept is allowed by the rules they leave in it. -/
theorem accepted_allowed (host : Host) (fs : FileSystem) (r r' : Request)
    (h : host.checkRequest fs r = .ok (0, r')) : Allowed r' := by
  have hchecks : Ends (host.checkRequest fs r) fun out => out.1 = 0 → Allowed out.2 := by
    unfold Host.checkRequest
    refine Ends.andThen (I := Routed) ?_ ?_
    · refine (matchRequest_routed host r).mono ?_
      intro out hout
      exact ⟨hout, fun hne hzero => absurd hzero hne⟩
    · intro s hs
      refine Ends.andThen (I := Routed) ?_ ?_
      · exact ends_ok.mpr ⟨fun _ => checkRedirection_routed hs,
          fun hne hzero => absurd hzero hne⟩
      · intro t ht
        refine Ends.andThen (I := Routed) ?_ ?_
        · split
          · refine (checkDirRessource_routed host ht).mono ?_
            intro out hout
            exact ⟨hout, fun hne hzero => absurd hzero hne⟩
          · exact ends_ok.mpr ⟨fun _ => ht, fun hne => absurd rfl hne⟩
        · intro u hu
          refine Ends.andThen (I := fun v => v = u ∧ (Host.checkLocationRules u).1 = 0) ?_ ?_
          · refine ends_ok.mpr ⟨?_, fun hne hzero => absurd hzero hne⟩
            intro hzero
            exact ⟨(checkLocationRules_allowed hzero).1, hzero⟩
          · intro v hv
            obtain ⟨rfl, hlocation⟩ := hv
            refine Ends.andThen (I := Allowed) ?_ ?_
            · refine ends_ok.mpr ⟨?_, fun hne hzero => absurd hzero hne⟩
              intro hzero
              obtain ⟨hsame, hcgi⟩ := checkCGIRules_allowed hzero
              obtain ⟨-, hrules⟩ := checkLocationRules_allowed hlocation
              rw [hsame]
              refine ⟨fun location hsome => (hrules location hsome).1, ?_, ?_, hu.located⟩
              · intro htype
                obtain ⟨cgi, hsome⟩ := Option.ne_none_iff_exists'.mp (hu.scripted htype)
                exact ⟨cgi, hsome, hcgi htype cgi hsome⟩
              · intro hstatic hmethod location hsome
                exact (hrules location hsome).2 hstatic hmethod
            · intro w hw
              exact ends_ok.mpr fun _ => checkRessourceExistence_allowed fs hw
  exact hchecks _ h rfl

/-- A request for a file, as it comes to the checks of its host. -/
def fileRequest : Request :=
  { method := some .GET, resHints := { parsedUri := { path := ascii "f" } } }

theorem file_request_allowed :
    ∃ r, plainHost.checkRequest (plainFiles []) fileRequest = .ok (0, r) ∧ Allowed r := by
  have hrun : (plainHost.checkRequest (plainFiles []) fileRequest).toOption.any
      (fun out => decide (out.1 = 0)) = true := by decide +kernel
  obtain ⟨⟨res, r⟩, hcheck, hres⟩ := exists_of_any hrun
  obtain rfl : res = 0 := of_decide_eq_true hres
  exact ⟨r, hcheck, accepted_allowed _ _ _ _ hcheck⟩

end Webserveau.AccessRules
