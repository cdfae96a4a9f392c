import Webserveau.AccessRules
import Webserveau.AnswerLogs
import Webserveau.BodyShapes

/-!
Directory listings.
A request that is matched to a directory, at first or through a default uri, is answered
with a listing once its body is complete. The choice looks at the status and at the type
of the request only, so it is compared here with what its last location allows.
-/
namespace Webserveau.DirListings

open ByteStrings OrderedMaps Formats Requests Clients EventLoop Checks ParserFrames Transitions
  Replies Acceptance UploadChecks BodyShapes ChunkedDecoding ChunkedMessages ContentLength

/-- The hints with which a body is made of a directory. -/
def Listed (hints : ResHints) : Prop := hints.status = RES_OK ∧ hints.type = .dir

theorem generateBody_listed (fs : FileSystem) {hints : ResHints} (h : Listed hints) :
    generateBody fs hints = generateDirListing fs hints := if_pos h

theorem genResponse_listed (fs : FileSystem) (date : Bytes) {hints : ResHints}
    (h : Listed hints) : genResponse fs date hints = dynamicResponse fs date hints := by
  have hcontinue : hints.status ≠ 100 := by
    rw [h.1]
    decide
  have hdynamic : hints.path = [] ∨ hints.status = RES_OK ∧ hints.type = .dir := Or.inr h
  unfold genResponse
  rw [if_neg hcontinue, if_pos hdynamic]

/-- The response to a client is a listing of a directory. -/
def Lists (out : ℤ × Client) : Prop := Listed (replyHints out.2 out.1)

/-- The client after some reads of its body. -/
inductive Feeds (c : Client) : Client → Prop
  | nil : Feeds c c
  | read {d e : Client} {bytes : Bytes} {res : ℤ} : Feeds c d →
      d.parseRequest bytes = .ok (res, e) → Feeds c e

/-- Where the checks have sent the request. -/
def SameRoute (c d : Client) : Prop :=
  d.getRequest.type = c.getRequest.type ∧
    d.getRequest.resHints.locationRules = c.getRequest.resHints.locationRules

theorem SameRoute.trans {c d e : Client} (h : SameRoute c d) (h' : SameRoute d e) :
    SameRoute c e := ⟨h'.1.trans h.1, h'.2.trans h.2⟩

theorem Feeds.same_route {c d : Client} (h : Feeds c d) : SameRoute c d := by
  induction h with
  | nil => exact ⟨rfl, rfl⟩
  | read _ hparse ih =>
    obtain ⟨-, -, -, -, htype, status, verbose, hhints⟩ := parseRequest_parsed _ _ _ hparse
    refine ih.trans ⟨htype, ?_⟩
    rw [hhints]

/-- A body that cannot be parsed is never done. -/
theorem Feeds.stuck {c d : Client} (h : Feeds c d) (hc : Stuck c) : Stuck d := by
  induction h with
  | nil => exact hc
  | read _ hparse ih =>
    obtain ⟨e, hstuck, he⟩ := parseRequest_stuck ih _
    rw [hparse] at hstuck
    cases hstuck
    exact he

theorem setBodyFile_route (c : Client) (path : Bytes) (opens : Bool) :
    SameRoute c (c.setBodyFile path opens) := by
  unfold Client.setBodyFile
  dsimp only
  split
  · exact ⟨rfl, rfl⟩
  · exact ⟨rfl, rfl⟩

theorem keepContentType_route (c : Client) : SameRoute c (keepContentType c) := by
  unfold keepContentType
  dsimp only
  split
  · exact ⟨rfl, rfl⟩
  · exact ⟨rfl, rfl⟩

theorem setUnlink_route (c : Client) (unlink : Bool) : SameRoute c (setUnlink c unlink) :=
  ⟨rfl, rfl⟩

theorem uploadTo_route (env : Env) (c : Client) (filePath : Bytes) (status : ℤ)
    (alreadyExist : Bool) : SameRoute c (uploadTo env c filePath status alreadyExist) := by
  unfold uploadTo
  refine SameRoute.trans ?_ (keepContentType_route _)
  refine SameRoute.trans ?_ (setUnlink_route _ _)
  exact SameRoute.trans ⟨rfl, rfl⟩ (setBodyFile_route _ _ _)

theorem defineBodyParsing_route (env : Env) (c : Client) :
    SameRoute c (defineBodyParsing env c) := by
  unfold defineBodyParsing
  dsimp only
  split
  · refine SameRoute.trans ?_ (keepContentType_route _)
    exact SameRoute.trans (setBodyFile_route _ _ _) (setUnlink_route _ _)
  · split
    · split
      · exact uploadTo_route env c _ _ _
      · split
        · exact ⟨rfl, rfl⟩
        · exact uploadTo_route env c _ _ _
      · exact ⟨rfl, rfl⟩
    · exact SameRoute.trans (setBodyFile_route _ _ _) (keepContentType_route _)

/-- A head that is accepted had no expectation, or the one that is met, for a body. -/
theorem finishHeaders_route (env : Env) {c d : Client} (h : finishHeaders env c = (0, d)) :
    SameRoute c d ∧ (c.getRequest.getHeader (ascii "expect") = ascii "100-continue" ∧
      c.bodyStatus ≠ .none ∨ c.getRequest.getHeader (ascii "expect") = []) := by
  have haccept : ∀ res, (acceptHeaders env res c).1 = 0 →
      SameRoute c (acceptHeaders env res c).2 := by
    intro res _
    have hprepared : SameRoute c (if c.getRequest.resHints.cgiRedir = .none then
        defineBodyParsing env c else c) := by
      split
      · exact defineBodyParsing_route env c
      · exact ⟨rfl, rfl⟩
    unfold acceptHeaders
    dsimp only
    split
    · exact hprepared
    · exact hprepared
  have hbad : RES_BAD_REQUEST ≠ 0 ∧ RES_BAD_REQUEST ≠ RES_CONTINUE := by decide
  have hfailed : RES_EXPECTATION_FAILED ≠ 0 ∧ RES_EXPECTATION_FAILED ≠ RES_CONTINUE := by decide
  unfold finishHeaders checkContinue at h
  dsimp only at h
  by_cases hexpect : c.getRequest.getHeader (ascii "expect") = ascii "100-continue"
  · rw [if_pos hexpect] at h
    by_cases hbody : c.bodyStatus = .none
    · rw [if_pos hbody, if_pos (by exact hbad)] at h
      cases h
    · rw [if_neg hbody, if_neg (by exact fun hne => hne.2 rfl)] at h
      have hroute := haccept RES_CONTINUE (by rw [h])
      rw [h] at hroute
      exact ⟨hroute, Or.inl ⟨hexpect, hbody⟩⟩
  · rw [if_neg hexpect] at h
    by_cases hother : c.getRequest.getHeader (ascii "expect") ≠ []
    · rw [if_pos hother, if_pos (by exact hfailed)] at h
      cases h
    · rw [if_neg hother, if_neg (by exact fun hne => hne.1 rfl)] at h
      have hroute := haccept 0 (by rw [h])
      rw [h] at hroute
      exact ⟨hroute, Or.inr (not_not.mp hother)⟩

/-- A body that is done is answered with a listing when the request is for a directory. -/
theorem bodyDone_lists (c : Client) :
    SameRoute c (handleRequestBodyDone c).2 ∧
      (Lists (handleRequestBodyDone c) ↔ c.getRequest.type = .dir) := by
  have hother : c.getRequest.type ≠ .dir → ∀ out : ℤ × Client,
      out.2.getRequest.type = c.getRequest.type → ¬ Lists out := by
    intro hdir out htype ⟨_, hlisted⟩
    rw [replyHints_type] at hlisted
    exact hdir (htype.symm.trans hlisted)
  unfold handleRequestBodyDone
  dsimp only
  split
  · rename_i hupload
    have hdir : c.getRequest.type ≠ .dir := by
      rw [hupload.1]
      decide
    exact ⟨⟨rfl, rfl⟩, fun h => absurd h (hother hdir _ rfl), fun h => absurd h hdir⟩
  · split
    · rename_i hdelete
      have hdir : c.getRequest.type ≠ .dir := by
        rw [hdelete.1]
        decide
      exact ⟨⟨rfl, rfl⟩, fun h => absurd h (hother hdir _ rfl), fun h => absurd h hdir⟩
    · refine ⟨⟨rfl, rfl⟩, ?_⟩
      unfold Lists Listed
      rw [replyHints_status, replyHints_type]
      constructor
      · exact fun h => h.2
      · intro hdir
        exact ⟨rfl, hdir⟩

/-- The path of the request is a directory of a location, and no cgi matches it. -/
structure InDirectory (host : Host) (r : Request) (location : Location) : Prop where
  location : host.matchLocation r.resHints.parsedUri.path = some location
  cgi : host.matchCGIConfig r.resHints.parsedUri.path = none
  slash : r.resHints.parsedUri.extension = ascii "/"

/-- The request as it is matched to a directory. -/
def located (r : Request) (location : Location) : Request :=
  { r with
    type := .dir
    resHints := { r.resHints with locationRules := some location, cgiRules := none } }

theorem matchRequest_directory {host : Host} {r : Request} {location : Location}
    (h : InDirectory host r location) : host.matchRequest r = .ok (0, located r location) := by
  unfold Host.matchRequest
  simp only [h.cgi, h.location, h.slash]
  rfl

theorem matchRequest_dir (host : Host) (r : Request) :
    Ends (host.matchRequest r) fun out => out.1 = 0 → out.2.type = .dir →
      ∃ location, InDirectory host r location ∧ out.2 = located r location := by
  unfold Host.matchRequest
  dsimp only
  split
  · rename_i hcgi
    split
    · refine ends_pure.mpr ?_
      intro hzero
      cases hzero
    · rename_i hsome
      split
      · rename_i hslash
        refine ends_pure.mpr fun _ _ => ?_
        obtain ⟨location, hlocation⟩ := Option.ne_none_iff_exists'.mp hsome
        refine ⟨location, ⟨hlocation, hcgi, hslash⟩, ?_⟩
        unfold located
        rw [hcgi, hlocation]
      · refine ends_pure.mpr fun _ htype => ?_
        cases htype
  · refine Ends.bind (AccessRules.extractPathInfo_rules _ _) ?_
    intro r' hr'
    have htype : r'.type ≠ .dir := by
      rw [hr'.1]
      show ReqType.cgi ≠ ReqType.dir
      decide
    split
    · exact ends_pure.mpr fun _ hdir => absurd hdir htype
    · exact ends_pure.mpr fun _ hdir => absurd hdir htype

/-- Where a request for a directory ends: in it, or where its default uri leads to. -/
inductive EndsAt (host : Host) (r : Request) : Request → Location → Prop
  | own {location : Location} : InDirectory host r location → location.redir = 0 →
      location.default_uri = [] → EndsAt host r r location
  | index {location final : Location} {res : ℤ} {s : Request} : InDirectory host r location →
      location.redir = 0 → location.default_uri ≠ [] →
      (located r location).parseURISuffix location.default_uri = .ok (res, s) →
      InDirectory host s final → EndsAt host r s final

/-- The method is allowed there and the directory exists. -/
structure Served (fs : FileSystem) (r : Request) (location : Location) : Prop where
  method : allows location.methods r.method = true
  exist : (if r.method = some .POST ∨ r.method = some .PUT then
      checkRessourcePath fs (Host.uploadRoot location ++ r.resHints.parsedUri.root) .dir false
    else checkRessourcePath fs (location.root ++ r.resHints.parsedUri.path) .dir true) = 0

theorem andThen_zero {σ : Type} {first : Checked (ℤ × σ)} {next : σ → Checked (ℤ × σ)} {t : σ} :
    andThen first next = .ok (0, t) ↔ ∃ s, first = .ok (0, s) ∧ next s = .ok (0, t) := by
  rw [andThen_ok_iff]
  constructor
  · intro h
    rcases h with ⟨-, hne⟩ | h
    · exact absurd rfl hne
    · exact h
  · exact Or.inr

/-- Where the second match leaves a request that is for a directory in the end. -/
theorem checkDirRessource_ends {host : Host} {r s : Request} {location : Location}
    (hin : InDirectory host r location) (hredir : location.redir = 0)
    (h : host.checkDirRessource (located r location) = .ok (0, s)) (htype : s.type = .dir) :
    ∃ r' final, EndsAt host r r' final ∧ s.resHints.locationRules = some final ∧
      s.method = r'.method ∧ s.resHints.parsedUri = r'.resHints.parsedUri ∧
      s.final_status = r'.final_status := by
  have hrules : (located r location).resHints.locationRules = some location := rfl
  unfold Host.checkDirRessource at h
  simp only [hrules] at h
  by_cases hdefault : location.default_uri = []
  · rw [if_neg (not_not_intro hdefault)] at h
    refine ⟨r, location, .own hin hredir hdefault, ?_⟩
    split at h
    · split at h
      · cases h
      · obtain rfl : _ = s := congrArg Prod.snd (Except.ok.inj h)
        exact ⟨rfl, rfl, rfl, rfl⟩
    · obtain rfl : _ = s := congrArg Prod.snd (Except.ok.inj h)
      exact ⟨rfl, rfl, rfl, rfl⟩
  · rw [if_pos hdefault] at h
    cases hparse : (located r location).parseURISuffix location.default_uri with
    | error e =>
      rw [hparse] at h
      cases h
    | ok out =>
      obtain ⟨res, t⟩ := out
      rw [hparse] at h
      cases hmatch : host.matchRequest t with
      | error e =>
        simp only [bind, Except.bind, hmatch] at h
        cases h
      | ok out =>
        obtain ⟨code, t'⟩ := out
        simp only [bind, Except.bind, hmatch] at h
        have hpair := Except.ok.inj h
        obtain rfl : t' = s := congrArg Prod.snd hpair
        have hcode : (if code ≠ 0 then RES_NOT_FOUND else 0) = 0 := congrArg Prod.fst hpair
        split at hcode
        · cases hcode
        · rename_i hzero
          obtain ⟨final, hfinal, rfl⟩ := matchRequest_dir host t _ hmatch (not_not.mp hzero) htype
          exact ⟨t, final, .index hin hredir hdefault hparse hfinal, rfl, rfl, rfl, rfl⟩

/-- A request that is accepted for a directory ends at one that can be served. -/
theorem checkRequest_ends {host : Host} {fs : FileSystem} {r s : Request}
    (h : host.checkRequest fs r = .ok (0, s)) (htype : s.type = .dir) :
    ∃ r' location, EndsAt host r r' location ∧ Served fs r' location ∧
      s.resHints.locationRules = some location ∧ s.final_status = r'.final_status := by
  unfold Host.checkRequest at h
  simp only [andThen_zero] at h
  obtain ⟨r₁, hmatch, r₂, hredir, r₃, hdir, r₄, hlocation, r₅, hcgi, hexist⟩ := h
  have hlocation := Except.ok.inj hlocation
  have hcgi := Except.ok.inj hcgi
  have hexist := Except.ok.inj hexist
  obtain ⟨rfl, hredir⟩ := checkRedirection_passes (Except.ok.inj hredir)
  obtain ⟨hsame, hallowed⟩ := AccessRules.checkLocationRules_allowed (congrArg Prod.fst hlocation)
  obtain ⟨hsame', -⟩ := AccessRules.checkCGIRules_allowed (congrArg Prod.fst hcgi)
  obtain rfl : r₄ = r₃ := by
    rw [hlocation] at hsame
    exact hsame
  obtain rfl : r₅ = r₄ := by
    rw [hcgi] at hsame'
    exact hsame'
  have hsettled : s.type = r₅.type ∧ s.resHints.locationRules = r₅.resHints.locationRules ∧
      s.final_status = r₅.final_status := by
    obtain rfl : _ = s := congrArg Prod.snd hexist
    unfold Host.checkRessourceExistence
    split
    · exact ⟨rfl, rfl, rfl⟩
    · split
      · exact ⟨rfl, rfl, rfl⟩
      · exact ⟨rfl, rfl, rfl⟩
  have htype₅ : r₅.type = .dir := hsettled.1.symm.trans htype
  split at hdir
  · rename_i htype₂
    obtain ⟨location, hin, rfl⟩ := matchRequest_dir host r _ hmatch rfl htype₂
    obtain ⟨r', final, hends, hfinal, hmethod, huri, hphase⟩ :=
      checkDirRessource_ends hin (hredir location rfl) hdir htype₅
    refine ⟨r', final, hends, ⟨?_, ?_⟩, hsettled.2.1.trans hfinal, hsettled.2.2.trans hphase⟩
    · rw [← hmethod]
      exact (hallowed final hfinal).1
    · have hcode := congrArg Prod.fst hexist
      unfold Host.checkRessourceExistence at hcode
      rw [if_neg (by rw [htype₅]; decide)] at hcode
      rw [← hmethod, ← huri]
      split
      · rename_i hupload
        rw [if_pos hupload, hfinal] at hcode
        exact hcode
      · rename_i hupload
        rw [if_neg hupload, hfinal, htype₅] at hcode
        exact hcode
  · rename_i htype₂
    obtain rfl : _ = r₅ := congrArg Prod.snd (Except.ok.inj hdir)
    exact absurd htype₅ htype₂

theorem checkDirRessource_own {r : Request} {location : Location} (host : Host)
    (hdefault : location.default_uri = []) (hoff : location.dir_listing = false) :
    host.checkDirRessource (located r location) = .ok (0, located r location) := by
  have hrules : (located r location).resHints.locationRules = some location := rfl
  unfold Host.checkDirRessource
  simp only [hrules]
  rw [if_neg (not_not_intro hdefault), if_neg (by rw [hoff]; decide)]
  rfl

theorem checkDirRessource_index {host : Host} {r s : Request} {location final : Location} {res : ℤ}
    (hdefault : location.default_uri ≠ [])
    (hparse : (located r location).parseURISuffix location.default_uri = .ok (res, s))
    (hfinal : InDirectory host s final) :
    host.checkDirRessource (located r location) = .ok (0, located s final) := by
  have hrules : (located r location).resHints.locationRules = some location := rfl
  unfold Host.checkDirRessource
  simp only [hrules]
  rw [if_pos hdefault]
  simp only [hparse, matchRequest_directory hfinal, bind, Except.bind]
  rfl

/-- No listing is refused to a directory that can be served but has its listing off. -/
theorem checkRequest_accepts {host : Host} {fs : FileSystem} {r r' : Request} {location : Location}
    (h : EndsAt host r r' location) (hserved : Served fs r' location)
    (hoff : location.dir_listing = false) :
    ∃ s, host.checkRequest fs r = .ok (0, s) ∧ s.type = .dir ∧
      s.resHints.locationRules = some location ∧ s.headers = r.headers ∧
      s.final_status = r'.final_status := by
  have hfirst : ∃ first, host.matchRequest r = .ok (0, located r first) ∧ first.redir = 0 ∧
      host.checkDirRessource (located r first) = .ok (0, located r' location) := by
    cases h with
    | own hin hredir hdefault =>
      exact ⟨location, matchRequest_directory hin, hredir,
        checkDirRessource_own host hdefault hoff⟩
    | index hin hredir hdefault hparse hfinal =>
      exact ⟨_, matchRequest_directory hin, hredir,
        checkDirRessource_index hdefault hparse hfinal⟩
  obtain ⟨first, hmatch, hredir, hdir⟩ := hfirst
  have hredirection : Host.checkRedirection (located r first) = (0, located r first) :=
    if_pos hredir
  have hlocation : Host.checkLocationRules (located r' location) = (0, located r' location) := by
    have hmethod : allows location.methods (located r' location).method = true := hserved.method
    have hrules : (located r' location).resHints.locationRules = some location := rfl
    have hstatic : (located r' location).type ≠ .static := by
      show ReqType.dir ≠ ReqType.static
      decide
    unfold Host.checkLocationRules
    simp only [hrules, hmethod, hstatic, false_and, and_false, if_false, Bool.true_eq_false]
  have hcgi : Host.checkCGIRules (located r' location) = (0, located r' location) := rfl
  have hexist : ∃ s, Host.checkRessourceExistence fs (located r' location) = (0, s) ∧
      s.type = .dir ∧ s.resHints.locationRules = some location ∧
      s.final_status = r'.final_status := by
    have hcode := hserved.exist
    have hnot : (located r' location).type ≠ .cgi := by
      show ReqType.dir ≠ ReqType.cgi
      decide
    unfold Host.checkRessourceExistence
    rw [if_neg hnot]
    split
    · rename_i hupload
      have hupload' : r'.method = some .POST ∨ r'.method = some .PUT := hupload
      rw [if_pos hupload'] at hcode
      refine ⟨(located r' location).setHintStatus 0, ?_, rfl, rfl, rfl⟩
      rw [← hcode]
      rfl
    · rename_i hupload
      have hupload' : ¬ (r'.method = some .POST ∨ r'.method = some .PUT) := hupload
      rw [if_neg hupload'] at hcode
      refine ⟨({ located r' location with resHints := { (located r' location).resHints with
        path := location.root ++ r'.resHints.parsedUri.path } } : Request).setHintStatus 0, ?_,
        rfl, rfl, rfl⟩
      rw [← hcode]
      rfl
  obtain ⟨s, hexist, htype, hrules, hphase⟩ := hexist
  have hcheck : host.checkRequest fs r = .ok (0, s) := by
    unfold Host.checkRequest
    simp only [andThen_zero]
    refine ⟨_, hmatch, _, by rw [hredirection], _, ?_, _, by rw [hlocation], _, by rw [hcgi],
      by rw [hexist]⟩
    exact (if_pos rfl).trans hdir
  exact ⟨s, hcheck, htype, hrules, (checkRequest_routed host fs r _ hcheck).1.1, hphase⟩

/-- Every listing that answers the request is allowed by the location it is matched to: whatever
client has read its head and been given the host, and however the rest of the request is read. -/
def ListingsAllowed (host : Host) (fs : FileSystem) (r : Request) : Prop :=
  ∀ (env : Env) (c d e : Client), env.resource = fs → hostOf c = host → c.getRequest = r →
    c.bodyStatus = .none → handleRequestHeaders env c = .ok (0, d) → Feeds d e →
    e.bodyStatus ≠ .ongoing → Lists (handleRequestBodyDone e) →
    ∃ location, (handleRequestBodyDone e).2.getRequest.resHints.locationRules = some location ∧
      location.dir_listing = true

/-- A body is to be read behind the head. -/
def HasBody (r : Request) : Prop := bodyLength r > 0 ∨ isChunked r = true

/-- The request reaches its host and ends at a directory that is served although its listing is
off. Its expectation is met only for a body, which can be read to its end. -/
def ServedUnlisted (host : Host) (fs : FileSystem) (r : Request) : Prop :=
  ∃ s t location, Reaching host r s ∧ EndsAt host s t location ∧ location.dir_listing = false ∧
    Served fs t location ∧ (r.getHeader (ascii "expect") = ascii "100-continue" ∧ HasBody r ∨
      r.getHeader (ascii "expect") = []) ∧ (HasBody r → t.final_status ≠ .error)

theorem reaching_headers {host : Host} {r s : Request} (h : Reaching host r s) :
    s.headers = r.headers := by
  obtain ⟨u, hparse, -, -, rfl⟩ := h.admitted
  have hread := parseURI_read _ _ hparse
  cases hread with
  | refused hints hres _ => exact absurd rfl hres
  | parsed p _ => rfl

/-- A request with a body and one without an expectation are let through. -/
theorem finishHeaders_passes (env : Env) {c : Client}
    (h : c.getRequest.getHeader (ascii "expect") = ascii "100-continue" ∧ c.bodyStatus ≠ .none ∨
      c.getRequest.getHeader (ascii "expect") = []) :
    ∃ d, finishHeaders env c = (0, d) := by
  unfold finishHeaders checkContinue acceptHeaders
  dsimp only
  rcases h with ⟨hexpect, hbody⟩ | hnone
  · rw [if_pos hexpect, if_neg hbody, if_neg (by exact fun hne => hne.2 rfl), if_pos rfl]
    exact ⟨_, rfl⟩
  · have hother : c.getRequest.getHeader (ascii "expect") ≠ ascii "100-continue" := by
      rw [hnone]
      decide
    rw [if_neg hother, if_neg (not_not_intro hnone),
      if_neg (by exact fun hne => hne.1 rfl), if_neg (by exact (by decide : (0 : ℤ) ≠ 100))]
    exact ⟨_, rfl⟩

/-- An accepted request for a directory has no file for its body. -/
theorem acceptHeaders_streamless (env : Env) (res : ℤ) {c : Client}
    (htype : c.getRequest.type = .dir) (hstream : c.bodyStream = none) :
    (acceptHeaders env res c).2.bodyStream = none := by
  have hdefined : (defineBodyParsing env c).bodyStream = none := by
    have hkept : ∀ d : Client, (keepContentType d).bodyStream = d.bodyStream := by
      intro d
      unfold keepContentType
      dsimp only
      split
      · rfl
      · rfl
    have hcgi : c.getRequest.type ≠ .cgi := by
      rw [htype]
      decide
    have hstatic : c.getRequest.type ≠ .static := by
      rw [htype]
      decide
    unfold defineBodyParsing
    dsimp only
    rw [if_neg hcgi, if_neg fun h => hstatic h.1, hkept]
    rfl
  have hready : (if c.getRequest.resHints.cgiRedir = .none then
      defineBodyParsing env c else c).bodyStream = none := by
    split
    · exact hdefined
    · exact hstream
  unfold acceptHeaders
  dsimp only
  split
  · exact hready
  · exact hready

/-- A body that can be parsed comes to its end when all of it is read. -/
theorem feeds_done {limit : ℤ} {shape : Shape} {c : Client}
    (h : Before limit shape c.getRequest) (hshape : shape ≠ .empty)
    (hheader : c.headerStatus = .done) (hbody : c.bodyStatus = .ongoing)
    (hbuffer : c.buffer = []) (hstream : c.bodyStream = none) :
    ∃ d, Feeds c d ∧ d.bodyStatus ≠ .ongoing := by
  obtain ⟨sent, hsent⟩ : ∃ sent, shape.Begins sent := by
    cases shape with
    | empty => exact absurd rfl hshape
    | measured length => exact ⟨List.replicate length 0, (List.length_replicate ..).ge⟩
    | chunked body => exact ⟨body.bytes, List.prefix_refl _⟩
  obtain ⟨out, rest, hparse, -⟩ := parseInput_codeAfter h hshape (List.prefix_refl sent) hsent
  rw [(codeAfter_eq_iff limit (List.prefix_refl sent) hsent).mpr hsent] at hparse
  have hopen : c.headerStatus ≠ .ongoing := by
    rw [hheader]
    decide
  have hstep : c.parseRequest sent = .ok (-1, { c.setRequest out.1 with
      buffer := rest
      bodyStream := out.2
      bodyStatus := .done }) := by
    unfold Client.parseRequest
    rw [if_neg hopen, if_pos ⟨hheader, hbody⟩, hbuffer, hstream, List.nil_append]
    simp only [hparse, bind, Except.bind]
    rfl
  exact ⟨_, .read .nil hstep, nofun⟩

/-- What the end of the checks keeps of an accepted request. -/
theorem finishHeaders_keeps {env : Env} {c d : Client}
    (hredir : c.getRequest.resHints.cgiRedir = .none) (h : finishHeaders env c = (0, d)) :
    d.headerStatus = .done ∧ d.bodyStatus = c.bodyStatus ∧ d.buffer = c.buffer ∧
      d.getRequest.final_status = c.getRequest.final_status ∧
      (c.getRequest.type = .dir → c.bodyStream = none → d.bodyStream = none) := by
  have haccept := finishHeaders_accepted env (congrArg Prod.fst h)
  rw [h] at haccept
  obtain ⟨e, hdefined, -, hget, hheader, hbody, hbuffer, -⟩ :=
    acceptHeaders_entered env hredir haccept.symm
  obtain ⟨hints, hhints⟩ := hdefined.request
  refine ⟨hheader, hbody, hbuffer, ?_, ?_⟩
  · rw [hget, hhints]
  · intro htype hstream
    have hnone := acceptHeaders_streamless env
      (if (view c).expect = CONTINUE then RES_CONTINUE else 0) htype hstream
    rwa [← haccept] at hnone

/-- The shape of the body that a head announces. -/
theorem exists_announced {r : Request} (h : HasBody r) :
    ∃ shape : Shape, shape.Announced r ∧ shape ≠ .empty := by
  cases hchunked : isChunked r with
  | true =>
    have hzero : SizeLine (Numerals.numeral 16 0) 0 :=
      sizeLine_numeral (by decide : ((0 : ℕ) : ℤ) ≤ INT32_MAX)
    exact ⟨.chunked ⟨[], _, hzero⟩, hchunked, nofun⟩
  | false =>
    have hpos : bodyLength r > 0 := by
      rcases h with hpos | htrue
      · exact hpos
      · rw [hchunked] at htrue
        cases htrue
    exact ⟨.measured (bodyLength r).toNat, ⟨by omega, by omega, hchunked⟩, nofun⟩

/-- A server with one host. -/
def onlyServer (host : Host) : ListenServer :=
  ⟨OrderedMap.empty.insert [] host, [], List.cons_ne_nil _ _⟩

theorem onlyServer_bindClient (host : Host) (name : Bytes) :
    (onlyServer host).bindClient name = host := by
  unfold ListenServer.bindClient OrderedMap.find?
  show ((([([], host)] : List (Bytes × Host)).find? fun e => Same byteLess e.1 name).map
    Prod.snd).getD host = host
  rw [List.find?_singleton]
  split
  · rfl
  · rfl

/-- A new client of the server, with a request read. -/
def readyClient (host : Host) (r : Request) : Client :=
  { listenServer := onlyServer host, request := some r, headerStatus := .ready }

/-- The client whose request its host has accepted. -/
def throughClient (host : Host) (r u : Request) : Client :=
  { readyClient host r with
    host := some host
    request := some u
    bodyStatus := if bodyLength r > 0 ∨ isChunked r = true then .ongoing else .none }

theorem readyClient_through {host : Host} {r s u : Request} (env : Env)
    (hredir : r.resHints.cgiRedir = .none) (hreaching : Reaching host r s)
    (hcheck : host.checkRequest env.resource s = .ok (0, u)) :
    throughHost env (readyClient host r) = .ok (0, throughClient host r u) := by
  have hhost : hostOf (readyClient host r) = host := onlyServer_bindClient host _
  have hget : (readyClient host r).getRequest.resHints.cgiRedir = .none := hredir
  apply (throughHost_zero_iff env hget).mpr
  rw [hhost]
  exact ⟨s, u, hreaching, hcheck, rfl⟩

/-- The rest of such a request can be read. -/
theorem throughClient_done {host : Host} {env : Env} {input rest : Bytes} {r u : Request}
    {d : Client} (hparse : Request.parseHeaders {} input = .ok (-1, r, rest))
    (hthrough : throughHost env (readyClient host r) = .ok (0, throughClient host r u))
    (htype : u.type = .dir) (hreadable : HasBody r → u.final_status ≠ .error)
    (hfinish : finishHeaders env (throughClient host r u) = (0, d)) :
    ∃ e, Feeds d e ∧ e.bodyStatus ≠ .ongoing := by
  have hredir : (readyClient host r).getRequest.resHints.cgiRedir = .none :=
    (headRead_of_parse hparse).cgiRedir
  have hpassed := throughHost_passed env hredir hthrough
  have hhandled : handleRequestHeaders env (readyClient host r) = .ok (0, d) := by
    rw [handleRequestHeaders_eq, hthrough]
    exact congrArg Except.ok hfinish
  have hresolved := (handleRequestHeaders_entered env hredir hhandled).resolved
  obtain ⟨hheader, hbody, hbuffer, hphase, hstream⟩ := finishHeaders_keeps hpassed.redir hfinish
  by_cases hhas : HasBody r
  · obtain ⟨shape, hshape, hfilled⟩ := exists_announced hhas
    have hongoing : (throughClient host r u).bodyStatus = .ongoing := if_pos hhas
    have hfinal : d.getRequest.final_status ≠ .error := by
      rw [hphase]
      exact hreadable hhas
    have hbefore := before_of_resolved hparse hresolved hfinal hshape
    exact feeds_done hbefore hfilled hheader (hbody.trans hongoing) hbuffer (hstream htype rfl)
  · refine ⟨d, .nil, ?_⟩
    have hnone : (throughClient host r u).bodyStatus = .none := if_neg hhas
    rw [hbody, hnone]
    exact nofun

theorem served_unlisted {host : Host} {fs : FileSystem} {input rest : Bytes} {r : Request}
    (hparse : Request.parseHeaders {} input = .ok (-1, r, rest))
    (h : ServedUnlisted host fs r) : ¬ ListingsAllowed host fs r := by
  intro hallowed
  obtain ⟨s, t, location, hreaching, hends, hoff, hserved, hexpect, hreadable⟩ := h
  obtain ⟨u, hcheck, htype, hrules, hheaders, hphase⟩ := checkRequest_accepts hends hserved hoff
  let env : Env := ⟨fs, fs, fs, true, 0, 0, 0, []⟩
  have hthrough := readyClient_through env (headRead_of_parse hparse).cgiRedir hreaching hcheck
  have hfield : u.getHeader (ascii "expect") = r.getHeader (ascii "expect") := by
    unfold Request.getHeader
    rw [hheaders, reaching_headers hreaching]
  have hmet : (throughClient host r u).getRequest.getHeader (ascii "expect") =
      ascii "100-continue" ∧ (throughClient host r u).bodyStatus ≠ .none ∨
      (throughClient host r u).getRequest.getHeader (ascii "expect") = [] := by
    show u.getHeader (ascii "expect") = _ ∧ _ ∨ u.getHeader (ascii "expect") = []
    rw [hfield]
    refine hexpect.imp_left fun ⟨hcontinue, hbody⟩ => ⟨hcontinue, ?_⟩
    have hongoing : (throughClient host r u).bodyStatus = .ongoing := if_pos hbody
    rw [hongoing]
    exact nofun
  obtain ⟨d, hfinish⟩ := finishHeaders_passes env hmet
  have hhandled : handleRequestHeaders env (readyClient host r) = .ok (0, d) := by
    rw [handleRequestHeaders_eq, hthrough]
    exact congrArg Except.ok hfinish
  obtain ⟨e, hfeeds, hdone⟩ := throughClient_done hparse hthrough htype
    (fun hbody => by rw [hphase]; exact hreadable hbody) hfinish
  obtain ⟨hroute, -⟩ := finishHeaders_route env hfinish
  obtain ⟨hlast, hlists⟩ := bodyDone_lists e
  have hall := hroute.trans hfeeds.same_route
  have hdir : e.getRequest.type = .dir := hall.1.trans htype
  obtain ⟨allowed, hrules', hon⟩ := hallowed env (readyClient host r) d e rfl
    (onlyServer_bindClient host _) rfl rfl hhandled hfeeds hdone (hlists.mpr hdir)
  rw [(hall.trans hlast).2] at hrules'
  have hsame : some location = some allowed := hrules.symm.trans hrules'
  obtain rfl := Option.some.inj hsame
  rw [hoff] at hon
  cases hon

/-- A listing that is not allowed is one of a directory served although its listing is off. -/
theorem unlisted_of_listing {host : Host} {env : Env} {r : Request} {c d e : Client}
    (hredir : r.resHints.cgiRedir = .none) (hhost : hostOf c = host) (hr : c.getRequest = r)
    (hnone : c.bodyStatus = .none) (hhandled : handleRequestHeaders env c = .ok (0, d))
    (hfeeds : Feeds d e) (hdone : e.bodyStatus ≠ .ongoing)
    (hlists : Lists (handleRequestBodyDone e)) :
    ServedUnlisted host env.resource r ∨ ∃ location,
      (handleRequestBodyDone e).2.getRequest.resHints.locationRules = some location ∧
        location.dir_listing = true := by
  subst hr hhost
  have hentered := handleRequestHeaders_entered env hredir hhandled
  rw [handleRequestHeaders_eq] at hhandled
  obtain ⟨d₀, hthrough, hfinish⟩ := andThen_zero.mp hhandled
  have hfinish := Except.ok.inj hfinish
  obtain ⟨s, u, hreaching, hcheck, rfl⟩ := (throughHost_zero_iff env hredir).mp hthrough
  obtain ⟨hroute, hexpect⟩ := finishHeaders_route env hfinish
  have hpassed := throughHost_passed env hredir hthrough
  obtain ⟨hheader, hbody, -, hphase, -⟩ := finishHeaders_keeps hpassed.redir hfinish
  obtain ⟨hlast, hdir⟩ := bodyDone_lists e
  have hall := hroute.trans hfeeds.same_route
  have htype : u.type = .dir := hall.1.symm.trans (hdir.mp hlists)
  obtain ⟨t, location, hends, hserved, hrules, hfinal⟩ := checkRequest_ends hcheck htype
  by_cases hoff : location.dir_listing = true
  · exact Or.inr ⟨location, (hall.trans hlast).2.trans hrules, hoff⟩
  · have hfield : u.getHeader (ascii "expect") = c.getRequest.getHeader (ascii "expect") := by
      unfold Request.getHeader
      rw [(checkRequest_routed _ _ _ _ hcheck).1.1, reaching_headers hreaching]
    refine Or.inl ⟨s, t, location, hreaching, hends, by simpa using hoff, hserved, ?_, ?_⟩
    · rw [← hfield]
      refine hexpect.imp_left fun ⟨hcontinue, hbody⟩ => ⟨hcontinue, ?_⟩
      by_contra hhas
      exact hbody ((if_neg hhas).trans hnone)
    · intro hhas herror
      have hstuck : Stuck d := by
        refine ⟨hheader, ?_, ?_⟩
        · rw [hbody]
          exact if_pos hhas
        · rw [hphase]
          exact hfinal.trans herror
      exact hdone (hfeeds.stuck hstuck).body

/-- A request that is checked again for its process is answered with status 0. -/
theorem redirected_unlisted {env : Env} {c d : Client}
    (hredir : c.getRequest.resHints.cgiRedir ≠ .none)
    (h : handleRequestHeaders env c = .ok (0, d)) : ¬ Lists (0, d) := by
  rw [handleRequestHeaders_eq] at h
  obtain ⟨e, hthrough, hfinish⟩ := andThen_zero.mp h
  have hfinish := Except.ok.inj hfinish
  have hkept : e.getRequest.resHints.cgiRedir ≠ .none := by
    rw [(AnswerLogs.throughHost_only env c _ hthrough).checking.redir_eq]
    exact hredir
  have haccept := finishHeaders_accepted env (congrArg Prod.fst hfinish)
  rw [hfinish] at haccept
  have hsame : d.getRequest = e.getRequest := by
    unfold acceptHeaders at haccept
    dsimp only at haccept
    rw [if_neg hkept] at haccept
    obtain rfl : d = _ := congrArg Prod.snd haccept
    split
    · rfl
    · rfl
  intro ⟨hstatus, _⟩
  rw [replyHints_status] at hstatus
  have hzero : statusOf d 0 = 0 := by
    show d.getRequest.resHints.status = 0
    rw [hsame]
    exact AnswerLogs.throughHost_status env hthrough
  rw [hzero] at hstatus
  cases hstatus

/-- The listings that answer a request are allowed unless it is served a directory although its
listing is off. None answers a request that its process has redirected. -/
theorem listings_allowed_iff (host : Host) (fs : FileSystem) {input rest : Bytes} {r : Request}
    (hparse : Request.parseHeaders {} input = .ok (-1, r, rest)) :
    (ListingsAllowed host fs r ↔ ¬ ServedUnlisted host fs r) ∧
      ∀ (env : Env) (c d : Client), c.getRequest.resHints.cgiRedir ≠ .none →
        handleRequestHeaders env c = .ok (0, d) → ¬ Lists (0, d) := by
  refine ⟨⟨fun h hserved => served_unlisted hparse hserved h, ?_⟩, ?_⟩
  · intro h env c d e hfs hhost hr hnone hhandled hfeeds hdone hlists
    have hor := unlisted_of_listing (headRead_of_parse hparse).cgiRedir hhost hr hnone hhandled
      hfeeds hdone hlists
    rw [hfs] at hor
    exact hor.resolve_left h
  · intro env c d hredir h
    exact redirected_unlisted hredir h

/-- A host with one location, which has no default uri. -/
def folderHost (dir_listing : Bool) : Host where
  locationMap := OrderedMap.empty.insert (ascii "*")
    { dir_listing := dir_listing, redir_valid := unredirected }

/-- Every path is a directory that can be read. -/
def folders : FileSystem where
  stat := fun _ => some (.directory, 0)
  readable := fun _ => true
  writable := fun _ => true
  content := fun _ => none
  entries := fun _ => some [(ascii "secret", 8)]

/-- The request for `/`. -/
def rootHead : Bytes := ascii "GET / HTTP/1.1" ++ CRLF ++ ascii "Host: a" ++ CRLF ++ CRLF

theorem folderHost_listing {on : Bool} {uri : Bytes} {location : Location}
    (h : (folderHost on).matchLocation uri = some location) : location.dir_listing = on := by
  obtain ⟨e, he, rfl⟩ := Option.map_eq_some_iff.mp h
  have hentry : (if isUriMatch uri (ascii "*") none = true then
      some (ascii "*", { dir_listing := on, redir_valid := unredirected }) else none) =
        some e := he
  split at hentry
  · obtain rfl := Option.some.inj hentry
    rfl
  · cases hentry

theorem EndsAt.matched {host : Host} {r s : Request} {location : Location}
    (h : EndsAt host r s location) :
    host.matchLocation s.resHints.parsedUri.path = some location := by
  cases h with
  | own hin => exact hin.location
  | index _ _ _ _ hfinal => exact hfinal.location

theorem root_listing_allowed : ∃ r rest, Request.parseHeaders {} rootHead = .ok (-1, r, rest) ∧
    ListingsAllowed (folderHost true) folders r := by
  have hrun : (Request.parseHeaders {} rootHead).toOption.any
      (fun out => decide (out.1 = -1)) = true := by
    decide +kernel
  obtain ⟨⟨res, r, rest⟩, hparse, hres⟩ := exists_of_any hrun
  obtain rfl : res = -1 := of_decide_eq_true hres
  refine ⟨r, rest, hparse, (listings_allowed_iff (folderHost true) folders hparse).1.mpr ?_⟩
  rintro ⟨s, t, location, -, hends, hoff, -⟩
  rw [folderHost_listing hends.matched] at hoff
  cases hoff

/-- A request for `/` that comes to the checks of its host, and is one for a directory. -/
def reachesRoot (out : ℤ × Request × Bytes) : Bool :=
  out.1 = -1 ∧ out.2.1.checkHeader (ascii "host") = true ∧
    out.2.1.getHeader (ascii "expect") = [] ∧ bodyLength out.2.1 = -1 ∧
    isChunked out.2.1 = false ∧
    out.2.1.parseURI.toOption.any fun parsed => parsed.1 = 0 ∧
      (checkForbiddenHeaders parsed.2).1 = 0 ∧
      parsed.2.checkHeader (ascii "content-length") = false ∧ parsed.2.method = some .GET ∧
      parsed.2.resHints.parsedUri.extension = ascii "/" ∧
      (folderHost false).matchCGIConfig parsed.2.resHints.parsedUri.path = none ∧
      (folderHost false).matchLocation parsed.2.resHints.parsedUri.path =
        (folderHost false).matchLocation (ascii "/")

theorem root_served_unlisted : ∃ r rest, Request.parseHeaders {} rootHead = .ok (-1, r, rest) ∧
    ServedUnlisted (folderHost false) folders r := by
  have hrun : (Request.parseHeaders {} rootHead).toOption.any reachesRoot = true := by
    decide +kernel
  obtain ⟨⟨res, r, rest⟩, hparse, hout⟩ := exists_of_any hrun
  obtain ⟨hres, hnamed, hexpect, hlength, hplain, hread⟩ := of_decide_eq_true hout
  obtain ⟨⟨code, u⟩, huri, hparsed⟩ := exists_of_any hread
  obtain ⟨hcode, hforbidden, hnone, hmethod, hslash, hcgi, hsame⟩ := of_decide_eq_true hparsed
  have hroot : (folderHost false).matchLocation (ascii "/") = some {} := by decide +kernel
  have hlocation := hsame.trans hroot
  dsimp only at *
  subst hres hcode
  let s := announcedRequest (folderHost false).getMaxSize u
  refine ⟨r, rest, hparse, s, s, {}, ?_, ?_, rfl, ?_, Or.inr hexpect, ?_⟩
  · refine ⟨hnamed, u, huri, hforbidden, ?_, rfl⟩
    rw [hnone]
    intro ⟨hfield, _⟩
    cases hfield
  · exact .own ⟨hlocation, hcgi, hslash⟩ rfl rfl
  · refine ⟨?_, ?_⟩
    · show allows _ u.method = true
      rw [hmethod]
      decide
    · show (if u.method = some .POST ∨ u.method = some .PUT then _ else _) = (0 : ℤ)
      rw [hmethod]
      rfl
  · intro hbody
    rcases hbody with hpos | hchunked
    · rw [hlength] at hpos
      cases hpos
    · rw [hplain] at hchunked
      cases hchunked

theorem closed_folder_listed : ∃ r rest, Request.parseHeaders {} rootHead = .ok (-1, r, rest) ∧
    ¬ ListingsAllowed (folderHost false) folders r := by
  obtain ⟨r, rest, hparse, hserved⟩ := root_served_unlisted
  exact ⟨r, rest, hparse, served_unlisted hparse hserved⟩

end Webserveau.DirListings
