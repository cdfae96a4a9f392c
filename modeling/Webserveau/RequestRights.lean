import Webserveau.AccessRules
import Webserveau.Acceptance

/-!
What an accepted request may do.
The rules that a match leaves in a request are those of the path it is served from, and the
paths that the last check puts together are the root of the rules with that path behind it.
-/
namespace Webserveau.RequestRights

open ByteStrings OrderedMaps Formats Requests EventLoop Checks RoutingFrames Transitions AccessRules
  Acceptance

/-- A script of a cgi that a path leads to, for a method the cgi allows. -/
def Runs (host : Host) (method : Option Method) (script : Bytes) : Prop :=
  ∃ cgi uri path, host.matchCGIConfig uri = some cgi ∧ path <+: uri ∧
    allows cgi.methods method = true ∧ script = cgi.root ++ path

/-- The rules in the request are those that its path leads to. -/
structure Matched (host : Host) (r : Request) : Prop where
  located : r.type ≠ .cgi → ∃ location, r.resHints.locationRules = some location ∧
    host.matchLocation r.resHints.parsedUri.path = some location
  scripted : r.type = .cgi → ∃ cgi uri, r.resHints.cgiRules = some cgi ∧
    host.matchCGIConfig uri = some cgi ∧ r.resHints.parsedUri.path <+: uri

/-- The rights of a request that its host has accepted. -/
structure Rights (host : Host) (r : Request) : Prop where
  located : r.type ≠ .cgi → ∃ location, r.resHints.locationRules = some location ∧
    host.matchLocation r.resHints.parsedUri.path = some location ∧
      allows location.methods r.method = true ∧
      (r.type = .static → r.method = some .POST ∨ r.method = some .PUT → location.upload = true) ∧
      (¬ (r.method = some .POST ∨ r.method = some .PUT) →
        r.resHints.path = location.root ++ r.resHints.parsedUri.path)
  scripted : r.type = .cgi → Runs host r.method r.resHints.scriptPath

/-- The method and the script stay. -/
structure SameScript (r r' : Request) : Prop where
  method : r'.method = r.method
  script : r'.resHints.scriptPath = r.resHints.scriptPath

namespace SameScript

variable {r s t : Request}

theorem refl (r : Request) : SameScript r r := ⟨rfl, rfl⟩

theorem trans (h : SameScript r s) (h' : SameScript s t) : SameScript r t :=
  ⟨h'.method.trans h.method, h'.script.trans h.script⟩

theorem congr (h : SameScript s t) (hmethod : s.method = r.method)
    (hscript : s.resHints.scriptPath = r.resHints.scriptPath) : SameScript r t :=
  ⟨h.method.trans hmethod, h.script.trans hscript⟩

end SameScript

/-- The script is the one from before or one that the request may run. -/
structure Judged (host : Host) (r r' : Request) : Prop where
  method : r'.method = r.method
  script : r'.resHints.scriptPath = r.resHints.scriptPath ∨
    Runs host r'.method r'.resHints.scriptPath

theorem SameScript.judged {host : Host} {r r' : Request} (h : SameScript r r') :
    Judged host r r' := ⟨h.method, Or.inl h.script⟩

section Requests

theorem extractPathInfo_script (r : Request) (extension : Bytes) :
    Ends (r.extractPathInfo extension) fun r' => SameScript r r' ∧ r'.type = r.type ∧
      r'.resHints.cgiRules = r.resHints.cgiRules ∧
        r'.resHints.parsedUri.path <+: r.resHints.parsedUri.path := by
  refine (extractPathInfo_cases r extension).mono ?_
  rintro _ ⟨p, rfl, hprefix⟩
  exact ⟨⟨rfl, rfl⟩, rfl, rfl, hprefix⟩

theorem matchRequest_matched (host : Host) (r : Request) :
    Ends (host.matchRequest r) fun out => SameScript r out.2 ∧
      (out.1 = 0 → Matched host out.2) := by
  unfold Host.matchRequest
  dsimp only
  split
  · split
    · refine ends_pure.mpr ⟨⟨rfl, rfl⟩, ?_⟩
      intro h
      cases h
    · rename_i hlocation
      obtain ⟨location, hsome⟩ := Option.ne_none_iff_exists'.mp hlocation
      have hlocated : host.matchLocation r.resHints.parsedUri.path = some location := hsome
      split
      · exact ends_pure.mpr ⟨⟨rfl, rfl⟩, fun _ => ⟨fun _ => ⟨location, hlocated, hlocated⟩,
          fun h => by cases h⟩⟩
      · exact ends_pure.mpr ⟨⟨rfl, rfl⟩, fun _ => ⟨fun _ => ⟨location, hlocated, hlocated⟩,
          fun h => by cases h⟩⟩
  · rename_i cgi hcgi
    have hmatch : host.matchCGIConfig r.resHints.parsedUri.path = some cgi := hcgi
    refine Ends.bind (extractPathInfo_script _ _) ?_
    intro r' hr'
    obtain ⟨hscript, htype, hrules, hprefix⟩ := hr'
    have hscripted : ∃ cgi uri, r'.resHints.cgiRules = some cgi ∧
        host.matchCGIConfig uri = some cgi ∧ r'.resHints.parsedUri.path <+: uri :=
      ⟨cgi, _, hrules.trans hmatch, hmatch, hprefix⟩
    split
    · exact ends_pure.mpr ⟨⟨hscript.method, hscript.script⟩,
        fun _ => ⟨fun hne => absurd htype hne, fun _ => hscripted⟩⟩
    · exact ends_pure.mpr ⟨⟨hscript.method, hscript.script⟩,
        fun _ => ⟨fun hne => absurd htype hne, fun _ => hscripted⟩⟩

theorem parseURI_script (r : Request) : Ends r.parseURI fun out => SameScript r out.2 := by
  refine (parseURI_cases r).mono ?_
  rintro out (⟨p, verbose, rfl⟩ | ⟨p, rfl⟩)
  · exact ⟨rfl, rfl⟩
  · exact ⟨rfl, rfl⟩

theorem checkForbiddenHeaders_script (r : Request) : SameScript r (checkForbiddenHeaders r).2 := by
  rcases checkForbiddenHeaders_cases r with hpass | ⟨status, verbose, -, hrefuse⟩
  · rw [hpass]
    exact SameScript.refl r
  · rw [hrefuse]
    exact ⟨rfl, rfl⟩

/-- A directory is served under the rules of its default URI, or under its own. -/
theorem checkDirRessource_matched (host : Host) {r : Request} (h : Matched host r) :
    Ends (host.checkDirRessource r) fun out => SameScript r out.2 ∧
      (out.1 = 0 → Matched host out.2) := by
  unfold Host.checkDirRessource
  split
  · exact ends_pure.mpr ⟨SameScript.refl r, fun _ => h⟩
  · split
    · refine Ends.bind (P := fun out => SameScript r out.2) ?_ ?_
      · refine (parseURI_script _).mono ?_
        intro out hout
        exact hout.congr rfl rfl
      · intro out hout
        refine Ends.bind (matchRequest_matched host out.2) ?_
        intro out' hout'
        refine ends_pure.mpr ⟨hout.trans hout'.1, ?_⟩
        intro hzero
        dsimp only at hzero
        split at hzero
        · cases hzero
        · rename_i hmatched
          exact hout'.2 (not_not.mp hmatched)
    · split
      · split
        · exact ends_pure.mpr ⟨⟨rfl, rfl⟩, fun _ => ⟨h.located, h.scripted⟩⟩
        · exact ends_pure.mpr ⟨⟨rfl, rfl⟩, fun _ => ⟨h.located, h.scripted⟩⟩
      · exact ends_pure.mpr ⟨SameScript.refl r, fun _ => h⟩

theorem checkRedirection_script (r : Request) : SameScript r (Host.checkRedirection r).2 := by
  unfold Host.checkRedirection
  split
  · exact SameScript.refl r
  · split
    · exact SameScript.refl r
    · exact ⟨rfl, rfl⟩

theorem checkLocationRules_script (r : Request) : SameScript r (Host.checkLocationRules r).2 := by
  unfold Host.checkLocationRules
  split
  · exact SameScript.refl r
  · split
    · exact ⟨rfl, rfl⟩
    · split
      · exact ⟨rfl, rfl⟩
      · exact SameScript.refl r

theorem checkCGIRules_script (r : Request) : SameScript r (Host.checkCGIRules r).2 := by
  unfold Host.checkCGIRules
  split
  · exact SameScript.refl r
  · split
    · exact ⟨rfl, rfl⟩
    · exact SameScript.refl r

/-- The checks of the rules have been passed. -/
structure Passed (host : Host) (r : Request) : Prop extends Matched host r where
  location : (Host.checkLocationRules r).1 = 0
  cgi : (Host.checkCGIRules r).1 = 0

/-- The paths put together are those of the rules that were checked. -/
theorem checkRessourceExistence_rights (fs : FileSystem) {host : Host} {r : Request}
    (h : Passed host r) : Judged host r (Host.checkRessourceExistence fs r).2 ∧
      Rights host (Host.checkRessourceExistence fs r).2 := by
  obtain ⟨-, hlocation⟩ := checkLocationRules_allowed h.location
  obtain ⟨-, hcgi⟩ := checkCGIRules_allowed h.cgi
  unfold Host.checkRessourceExistence
  split
  · rename_i htype
    obtain ⟨cgi, uri, hrules, hmatch, hprefix⟩ := h.scripted htype
    have hruns : Runs host r.method (r.resHints.cgiRules.elim [] CGIConfig.root ++
        r.resHints.parsedUri.path) := by
      refine ⟨cgi, uri, r.resHints.parsedUri.path, hmatch, hprefix, hcgi htype cgi hrules, ?_⟩
      rw [hrules]
      rfl
    exact ⟨⟨rfl, Or.inr hruns⟩, fun hne => absurd htype hne, fun _ => hruns⟩
  · rename_i htype
    obtain ⟨location, hrules, hmatch⟩ := h.located htype
    obtain ⟨hallowed, hupload⟩ := hlocation location hrules
    split
    · rename_i hmethod
      refine ⟨⟨rfl, Or.inl rfl⟩, fun _ => ⟨location, hrules, hmatch, hallowed, hupload, ?_⟩,
        fun hcgi => absurd hcgi htype⟩
      exact fun hother => absurd hmethod hother
    · refine ⟨⟨rfl, Or.inl rfl⟩, fun _ => ⟨location, hrules, hmatch, hallowed, hupload, ?_⟩,
        fun hcgi => absurd hcgi htype⟩
      intro _
      show r.resHints.locationRules.elim [] Location.root ++ r.resHints.parsedUri.path = _
      rw [hrules]
      rfl

/-- A request that the checks accept has rights for what will be done for it; one that they
refuse may at most be left with a script it may run. -/
theorem checkRequest_rights (host : Host) (fs : FileSystem) (r : Request) :
    Ends (host.checkRequest fs r) fun out => Judged host r out.2 ∧
      (out.1 = 0 → Rights host out.2) := by
  have hrefused : ∀ {out : ℤ × Request}, SameScript r out.2 → out.1 ≠ 0 →
      Judged host r out.2 ∧ (out.1 = 0 → Rights host out.2) :=
    fun hsame hne => ⟨hsame.judged, fun hzero => absurd hzero hne⟩
  unfold Host.checkRequest
  refine Ends.andThen (I := fun s => SameScript r s ∧ Matched host s) ?_ ?_
  · refine (matchRequest_matched host r).mono ?_
    intro out hout
    exact ⟨fun hzero => ⟨hout.1, hout.2 hzero⟩, hrefused hout.1⟩
  · rintro s ⟨hsame, hmatched⟩
    refine Ends.andThen (I := fun t => SameScript r t ∧ Matched host t) ?_ ?_
    · have hscript := hsame.trans (checkRedirection_script s)
      refine ends_ok.mpr ⟨fun hzero => ⟨hscript, ?_⟩, hrefused hscript⟩
      rw [checkRedirection_accepted s hzero]
      exact hmatched
    · rintro t ⟨hsame, hmatched⟩
      refine Ends.andThen (I := fun u => SameScript r u ∧ Matched host u) ?_ ?_
      · split
        · refine (checkDirRessource_matched host hmatched).mono ?_
          intro out hout
          have hscript := hsame.trans hout.1
          exact ⟨fun hzero => ⟨hscript, hout.2 hzero⟩, hrefused hscript⟩
        · exact ends_ok.mpr ⟨fun _ => ⟨hsame, hmatched⟩, fun hne => absurd rfl hne⟩
      · rintro u ⟨hsame, hmatched⟩
        refine Ends.andThen (I := fun v => v = u ∧ (Host.checkLocationRules u).1 = 0) ?_ ?_
        · refine ends_ok.mpr ⟨fun hzero => ⟨(checkLocationRules_allowed hzero).1, hzero⟩, ?_⟩
          exact hrefused (hsame.trans (checkLocationRules_script u))
        · rintro v ⟨rfl, hlocation⟩
          refine Ends.andThen (I := fun w => w = v ∧ (Host.checkCGIRules v).1 = 0) ?_ ?_
          · refine ends_ok.mpr ⟨fun hzero => ⟨(checkCGIRules_allowed hzero).1, hzero⟩, ?_⟩
            exact hrefused (hsame.trans (checkCGIRules_script v))
          · rintro w ⟨rfl, hcgi⟩
            obtain ⟨hjudged, hrights⟩ :=
              checkRessourceExistence_rights fs ⟨hmatched, hlocation, hcgi⟩
            refine ends_ok.mpr ⟨⟨hjudged.method.trans hsame.method, ?_⟩, fun _ => hrights⟩
            exact hjudged.script.imp_left fun hscript => hscript.trans hsame.script

end Requests

end Webserveau.RequestRights
