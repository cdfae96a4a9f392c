import Webserveau.BodyTargets
import Webserveau.HostLookups
import Webserveau.RequestRights

/-!
What a connection makes the server do on disk.
Over a whole run, each file that is opened is a temporary one or an upload that a location of
the server takes, each file that is deleted is one that a location lets requests delete, and
each process runs a script of a cgi that its method is allowed for. The invariant holds on to
the right to delete from the checks of a head to the end of its body.
-/
namespace Webserveau.GrantedEffects

open ByteStrings OrderedMaps Formats Requests Clients EventLoop Checks HeadSafety ParserFrames
  Transitions Intake Replies LoopInvariants LoopSteps HandlerRules HostLookups BodyTargets
  RequestRights Acceptance

/-- The name generated for a body that goes to a process. -/
def Temporary (server : ListenServer) (path : Bytes) : Prop :=
  ∃ host time, Hosted server host ∧ path = generateName (some (host.server_names.headD [])) time

/-- An upload to the path of a location that takes uploads by one of the methods. -/
def Uploads (server : ListenServer) (path : Bytes) : Prop :=
  ∃ host location uri, Hosted server host ∧ host.matchLocation uri = some location ∧
    location.upload = true ∧ (∃ method, (method = .POST ∨ method = .PUT) ∧
      allows location.methods (some method) = true) ∧ path = Host.uploadRoot location ++ uri

/-- A file under the path of a location that allows `DELETE`. -/
def Deletes (server : ListenServer) (path : Bytes) : Prop :=
  ∃ host location uri, Hosted server host ∧ host.matchLocation uri = some location ∧
    allows location.methods (some .DELETE) = true ∧ path = location.root ++ uri

def Scripts (server : ListenServer) (r : Request) : Prop :=
  ∃ host, Hosted server host ∧ Runs host r.method r.resHints.scriptPath

/-- The file that a process writes to. -/
def Output (path : Bytes) : Prop := ∃ time, path = generateName none time

def Granted (server : ListenServer) : Action → Prop
  | .opened path => Temporary server path ∨ Uploads server path
  | .deleted path => Deletes server path
  | .spawned output => Output output
  | _ => True

/-- A request to delete a file may do so. -/
def Deletable (server : ListenServer) (c : Client) : Prop :=
  (view c).type = .static → c.getRequest.method = some .DELETE → Deletes server (view c).path

/-- No response is owed but the one that asks for the body. -/
def Unanswered (c : Client) : Prop := ∀ status, (view c).response = some status → status = 100

/-- The host of a client is one of its server, and what was done for it was granted. -/
structure Grounded (server : ListenServer) (c : Client) : Prop extends Belongs server c where
  granted : ∀ a ∈ c.trace, Granted server a

/-- What every handler keeps. -/
structure Lawful (server : ListenServer) (c : Client) : Prop extends Grounded server c where
  pending : (view c).header = .done → (view c).body = .ongoing → Unanswered c → Deletable server c
  scripted : (view c).header = .done → (view c).type = .cgi → Scripts server c.getRequest

theorem granted_of_quiet {server : ListenServer} {a : Action} (h : ¬ Executes a) :
    Granted server a := by
  cases a with
  | opened path => exact absurd True.intro h
  | deleted path => exact absurd True.intro h
  | spawned output => exact absurd True.intro h
  | _ => exact True.intro

section Frames

variable (env : Env) (c : Client)

theorem tryResponse_script (status : ℤ) :
    SameScript c.getRequest (tryResponse env c status).2.getRequest := by
  have hrequest : SameScript c.getRequest
      (if status ≠ 0 then c.getRequest.setHintStatus status else c.getRequest) := by
    split
    · exact ⟨rfl, rfl⟩
    · exact SameScript.refl _
  have hhints : (genResponse env.served env.date (replyHints c status)).2.scriptPath =
      (if status ≠ 0 then c.getRequest.setHintStatus status else
        c.getRequest).resHints.scriptPath := by
    obtain ⟨headers, index, hsame⟩ :=
      (genResponse_same env.served env.date (replyHints c status)).1.fields
    obtain ⟨hints, hfills, hresponse⟩ := fillResponse_fills (errorPages c)
      (if status ≠ 0 then c.getRequest.setHintStatus status else c.getRequest)
    obtain ⟨headers', path, unlink, verboseError, rfl⟩ := hfills.fields
    rw [hsame, replyHints, hresponse]
  unfold tryResponse
  dsimp only
  split
  · exact ⟨hrequest.method, hhints.trans hrequest.script⟩
  · exact ⟨hrequest.method, hhints.trans hrequest.script⟩

theorem generateResponse_script (status : ℤ) :
    SameScript c.getRequest (generateResponse env c status).2.getRequest := by
  have hfirst := tryResponse_script env c status
  have hsecond := tryResponse_script env (tryResponse env c status).2.clearResponse
    RES_INTERNAL_ERROR
  have hboth := hfirst.trans ⟨hsecond.method, hsecond.script⟩
  unfold generateResponse
  split
  · exact SameScript.refl _
  · dsimp only
    split
    · exact hfirst
    · split
      · exact hfirst
      · split
        · exact hboth
        · exact hboth

theorem deleteCGIProcess_script : SameScript c.getRequest c.deleteCGIProcess.getRequest := by
  unfold Client.deleteCGIProcess
  split
  · exact SameScript.refl _
  · exact ⟨rfl, rfl⟩

theorem retrieveType_script (headers : HeaderMap) (hints : ResHints) :
    (Request.retrieveType headers hints).scriptPath = hints.scriptPath := by
  unfold Request.retrieveType
  split
  · rfl
  · rfl

theorem inspectHeaders_script (headers : HeaderMap) (r : Request) :
    SameScript r (Request.inspectHeaders headers r).2 := by
  unfold Request.inspectHeaders
  dsimp only
  split
  · exact SameScript.refl r
  · split
    · exact ⟨rfl, retrieveType_script _ _⟩
    · split
      · exact ⟨rfl, rfl⟩
      · split
        · exact ⟨rfl, rfl⟩
        · exact ⟨rfl, retrieveType_script _ _⟩

theorem parseCgiHeaders_script (fs : FileSystem) (r : Request) :
    Ends (r.parseCgiHeaders fs) fun out => SameScript r out.2 := by
  unfold Request.parseCgiHeaders
  refine Ends.bind (readLines_hints _ _ _) ?_
  intro out hout
  obtain ⟨res, p⟩ := out
  obtain ⟨cookies, status, hhints⟩ := hout
  dsimp only at hhints ⊢
  have hscript : p.hints.scriptPath = r.resHints.scriptPath := by rw [hhints]
  split
  · exact ends_pure.mpr ⟨rfl, hscript⟩
  · have hinspected := inspectHeaders_script p.headers
      { r with resHints := { p.hints with index := p.index } }
    exact ends_pure.mpr (hinspected.congr rfl hscript)

/-- The body does not change what is asked for. -/
theorem parseRequest_script (bytes : Bytes) : Ends (c.parseRequest bytes) fun out =>
    c.headerStatus = .done → SameScript c.getRequest out.2.getRequest := by
  unfold Client.parseRequest
  split
  · rename_i hongoing
    apply Ends.bind_any
    intro out
    refine ends_pure.mpr fun hdone => ?_
    rw [hongoing] at hdone
    cases hdone
  · split
    · refine Ends.bind (P := fun out => SameTarget c.getRequest out.2.1.1 ∧
        Keeps c.getRequest out.2.1.1) ?_ ?_
      · intro out hout
        exact ⟨(parseInput_onTarget _ _ out hout).toSameTarget, (parseInput_call _ _ out hout).2⟩
      · rintro ⟨res, ⟨r, stream⟩, rest⟩ ⟨htarget, -, status, verbose, hhints⟩
        dsimp only at hhints
        refine ends_pure.mpr fun _ => ⟨htarget.method, ?_⟩
        show r.resHints.scriptPath = c.getRequest.resHints.scriptPath
        rw [hhints]
    · exact ends_pure.mpr fun _ => SameScript.refl _

end Frames

section Keeping

variable {server : ListenServer} {c d : Client}

theorem Lawful.pending' (h : Lawful server c) (hheader : c.headerStatus = .done)
    (hbody : c.bodyStatus = .ongoing) (hresponse : c.response = none) : Deletable server c := by
  refine h.pending hheader hbody ?_
  intro status hstatus
  have hnone : c.response.map Response.getStatus = some status := hstatus
  rw [hresponse] at hnone
  cases hnone

theorem Grounded.adds (h : Grounded server c) (hhost : SameHost c d)
    (hadds : Adds (Granted server) c d) : Grounded server d where
  toBelongs := h.toBelongs.same hhost
  granted := by
    obtain ⟨actions, htrace, hall⟩ := hadds
    intro a ha
    rw [htrace] at ha
    rcases List.mem_append.mp ha with ha | ha
    · exact h.granted a ha
    · exact hall a ha

/-- A client keeps to the law when it does nothing on disk, and stays with its host, its
script and what it may delete. -/
theorem Lawful.after (h : Lawful server c) (hhost : SameHost c d)
    (hadds : Adds (fun a => ¬ Executes a) c d)
    (hpending : (view d).header = .done → (view d).body = .ongoing → Unanswered d →
      Deletable server d)
    (hscripted : (view d).header = .done → (view d).type = .cgi → Scripts server d.getRequest) :
    Lawful server d :=
  ⟨h.toGrounded.adds hhost (hadds.mono fun _ => granted_of_quiet), hpending, hscripted⟩

theorem Scripts.same {r r' : Request} (h : Scripts server r) (hsame : SameScript r r') :
    Scripts server r' := by
  obtain ⟨host, hhosted, hruns⟩ := h
  refine ⟨host, hhosted, ?_⟩
  rw [hsame.method, hsame.script]
  exact hruns

theorem Deletable.same (h : Deletable server c) (hscript : SameScript c.getRequest d.getRequest)
    (htype : (view d).type = (view c).type) (hpath : (view d).path = (view c).path) :
    Deletable server d := by
  intro hstatic hmethod
  rw [hpath]
  exact h (htype.symm.trans hstatic) (hscript.method.symm.trans hmethod)

/-- What changes neither the part of the view that the law is about nor the script. -/
theorem Lawful.same (h : Lawful server c) (hhost : SameHost c d)
    (hadds : Adds (fun a => ¬ Executes a) c d) (hscript : SameScript c.getRequest d.getRequest)
    (hheader : (view d).header = (view c).header) (hbody : (view d).body = (view c).body)
    (htype : (view d).type = (view c).type) (hpath : (view d).path = (view c).path)
    (hresponse : Unanswered d → Unanswered c) : Lawful server d := by
  refine h.after hhost hadds ?_ ?_
  · intro hdone hongoing hopen
    exact (h.pending (hheader ▸ hdone) (hbody ▸ hongoing) (hresponse hopen)).same hscript htype
      hpath
  · intro hdone hcgi
    exact (h.scripted (hheader ▸ hdone) (htype ▸ hcgi)).same hscript

/-- A head that is not complete leaves nothing to keep to. -/
theorem Lawful.fresh (h : Lawful server c) (hhost : SameHost c d)
    (hadds : Adds (fun a => ¬ Executes a) c d) (hheader : (view d).header ≠ .done) :
    Lawful server d :=
  h.after hhost hadds (fun hdone => absurd hdone hheader) fun hdone => absurd hdone hheader

theorem quiet_not_executes (h : Adds Quiet c d) : Adds (fun a => ¬ Executes a) c d :=
  h.mono fun _ ha => ha.1

theorem releases_not_executes {v : View} (h : Adds (Releases v) c d) :
    Adds (fun a => ¬ Executes a) c d := by
  refine h.mono ?_
  rintro a (⟨path, rfl⟩ | ⟨name, -, rfl⟩)
  · exact id
  · exact id

/-- An answer either leaves the path alone or is not the one that asks for a body. -/
theorem Lawful.answered (h : Lawful server c) (env : Env) (status : ℤ) :
    Lawful server (generateResponse env c status).2 := by
  have hscript := generateResponse_script env c status
  have hhost := generateResponse_sameHost env c status
  rcases generateResponse_cases env c status with
    ⟨-, hout⟩ | ⟨hnone, final, d, hout, hresponds, hmade⟩
  · rw [hout]
    exact h
  · rw [hout] at hscript hhost ⊢
    obtain ⟨path, connection, hview, -⟩ := hresponds.settled
    have hresponse : (view d).response = some final := by rw [hview]
    have htype : (view d).type = (view c).type := by rw [hview]
    refine h.after hhost (quiet_not_executes hresponds.adds) ?_ ?_
    · intro hdone hongoing hopen
      have hfinal : final = 100 := hopen final hresponse
      have hdue : Deletable server c := by
        refine h.pending' ?_ ?_ hnone
        · rw [hview] at hdone
          exact hdone
        · rw [hview] at hongoing
          exact hongoing
      refine hdue.same hscript htype ?_
      rcases hmade with ⟨htry, hstatus⟩ | ⟨hinternal, -⟩
      · rw [(tryResponse_responds env htry).2]
        apply replyHints_path
        rw [← hstatus, hfinal]
        exact ⟨by omega, by decide, by decide, by decide⟩
      · have hne : final = 500 := hinternal
        omega
    · intro hdone hcgi
      refine (h.scripted ?_ (htype ▸ hcgi)).same hscript
      rw [hview] at hdone
      exact hdone

end Keeping

section Heads

variable {server : ListenServer} {c d : Client} (env : Env)

/-- Where the parsing of a body is set up, what may be opened is opened. -/
structure Opens (server : ListenServer) (c d : Client) : Prop where
  adds : Adds (Granted server) c d
  script : SameScript c.getRequest d.getRequest
  path : c.getRequest.method = some .DELETE → (view d).path = (view c).path

theorem Opens.trans {e : Client} (h : Opens server c d) (h' : Opens server d e) :
    Opens server c e where
  adds := h.adds.trans h'.adds
  script := h.script.trans h'.script
  path hdelete := (h'.path (h.script.method.trans hdelete)).trans (h.path hdelete)

/-- Only the hints of the request change. -/
theorem hints_opens (c : Client) (hints : ResHints)
    (hscript : hints.scriptPath = c.getRequest.resHints.scriptPath)
    (hpath : c.getRequest.method = some .DELETE → hints.path = c.getRequest.resHints.path) :
    Opens server c (c.setRequest { c.getRequest with resHints := hints }) where
  adds := Adds.of_eq rfl
  script := ⟨rfl, hscript⟩
  path := hpath

theorem keepContentType_opens (c : Client) : Opens server c (keepContentType c) := by
  unfold keepContentType
  dsimp only
  split
  · exact hints_opens c _ rfl fun _ => rfl
  · exact ⟨Adds.of_eq rfl, SameScript.refl _, fun _ => rfl⟩

theorem setUnlink_opens (c : Client) (unlink : Bool) : Opens server c (setUnlink c unlink) :=
  hints_opens c _ rfl fun _ => rfl

theorem setBodyFile_opens (c : Client) {path : Bytes} (opens : Bool)
    (h : path ≠ [] → Granted server (.opened path)) :
    Opens server c (c.setBodyFile path opens) := by
  unfold Client.setBodyFile
  dsimp only
  split
  · rename_i hne
    exact ⟨Adds.record rfl (h hne), ⟨rfl, rfl⟩, fun _ => rfl⟩
  · exact ⟨Adds.of_eq rfl, ⟨rfl, rfl⟩, fun _ => rfl⟩

theorem uploadTo_opens {filePath : Bytes} (huploads : Uploads server filePath)
    (hmethod : c.getRequest.method = some .POST ∨ c.getRequest.method = some .PUT) (status : ℤ)
    (alreadyExist : Bool) : Opens server c (uploadTo env c filePath status alreadyExist) := by
  have hnoted : Opens server c (c.setRequest { c.getRequest with
      resHints := { c.getRequest.resHints with
        alreadyExist := alreadyExist
        status := status
        path := filePath } }) := by
    refine hints_opens c _ rfl ?_
    intro hdelete
    rw [hdelete] at hmethod
    rcases hmethod with hmethod | hmethod
    · cases hmethod
    · cases hmethod
  have hfile := hnoted.trans (setBodyFile_opens _ env.opens fun _ => Or.inr huploads)
  exact (hfile.trans (setUnlink_opens _ false)).trans (keepContentType_opens _)

theorem refuse_opens (c : Client) :
    Opens server c (c.setRequest (c.getRequest.setHintStatus RES_FORBIDDEN)) :=
  hints_opens c _ rfl fun _ => rfl

theorem defineBodyParsing_opens {host : Host} (hhost : c.host = some host)
    (hosted : Hosted server host) (hrights : Rights host c.getRequest) :
    Opens server c (defineBodyParsing env c) := by
  have htemporary : Temporary server (generateName (some (hostName c)) env.bodyTime) := by
    refine ⟨host, env.bodyTime, hosted, ?_⟩
    rw [hostName, hhost]
    rfl
  unfold defineBodyParsing
  dsimp only
  split
  · refine Opens.trans (Opens.trans (setBodyFile_opens c env.opens ?_) (setUnlink_opens _ true))
      (keepContentType_opens _)
    intro hne
    split at hne
    · rename_i hbody
      rw [if_pos hbody]
      exact Or.inl htemporary
    · exact absurd rfl hne
  · rename_i htype
    obtain ⟨location, hrules, hmatch, hallowed, hupload, -⟩ := hrights.located htype
    split
    · rename_i hput
      obtain ⟨hstatic, hmethod⟩ := hput
      have huploads : Uploads server (c.getRequest.resHints.locationRules.elim [] Host.uploadRoot ++
          c.getRequest.resHints.parsedUri.path) := by
        rw [hrules]
        refine ⟨host, location, _, hosted, hmatch, hupload hstatic hmethod, ?_, rfl⟩
        rcases hmethod with hmethod | hmethod
        · exact ⟨.POST, Or.inl rfl, hmethod ▸ hallowed⟩
        · exact ⟨.PUT, Or.inr rfl, hmethod ▸ hallowed⟩
      split
      · exact uploadTo_opens env huploads hmethod _ _
      · split
        · exact refuse_opens c
        · exact uploadTo_opens env huploads hmethod _ _
      · exact refuse_opens c
    · exact (setBodyFile_opens c env.opens fun hne => absurd rfl hne).trans
        (keepContentType_opens _)

theorem opens_type (c : Client) : (view (defineBodyParsing env c)).type = (view c).type := by
  obtain ⟨path, hview⟩ := (defineBodyParsing_prepares env c).settled
  rw [hview]

/-- A client with a request that its host has accepted. -/
structure Entitled (server : ListenServer) (c : Client) : Prop extends Grounded server c where
  rights : ∃ host, c.host = some host ∧ Rights host c.getRequest

theorem Entitled.deletable (h : Entitled server c) : Deletable server c := by
  obtain ⟨host, hhost, hrights⟩ := h.rights
  intro hstatic hmethod
  have htype : c.getRequest.type ≠ .cgi := by
    intro hcgi
    have hstatic' : c.getRequest.type = .static := hstatic
    rw [hcgi] at hstatic'
    cases hstatic'
  obtain ⟨location, -, hmatch, hallowed, -, hpath⟩ := hrights.located htype
  refine ⟨host, location, _, h.hosted host hhost, hmatch, hmethod ▸ hallowed, hpath ?_⟩
  rw [hmethod]
  exact not_or.mpr ⟨nofun, nofun⟩

theorem Entitled.scripts (h : Entitled server c) (htype : (view c).type = .cgi) :
    Scripts server c.getRequest := by
  obtain ⟨host, hhost, hrights⟩ := h.rights
  exact ⟨host, h.hosted host hhost, hrights.scripted htype⟩

/-- What an accepted head leaves. -/
structure Admitted (server : ListenServer) (c : Client) : Prop extends Grounded server c where
  deletable : Deletable server c
  scripts : (view c).type = .cgi → Scripts server c.getRequest

theorem Entitled.admitted (h : Entitled server c) (hhost : SameHost c d) (hopens : Opens server c d)
    (htype : (view d).type = (view c).type) : Admitted server d where
  toGrounded := h.toGrounded.adds hhost hopens.adds
  deletable := by
    intro hstatic hmethod
    have hmethod' := hopens.script.method.symm.trans hmethod
    rw [hopens.path hmethod']
    exact h.deletable (htype.symm.trans hstatic) hmethod'
  scripts := fun hcgi => (h.scripts (htype.symm.trans hcgi)).same hopens.script

theorem acceptHeaders_opens (h : Entitled server c) (res : ℤ) :
    Opens server c (acceptHeaders env res c).2 ∧
      (view (acceptHeaders env res c).2).type = (view c).type := by
  obtain ⟨host, hhost, hrights⟩ := h.rights
  have hdefined : Opens server c
      (if c.getRequest.resHints.cgiRedir = .none then defineBodyParsing env c else c) ∧
      (view (if c.getRequest.resHints.cgiRedir = .none then defineBodyParsing env c else c)).type =
        (view c).type := by
    split
    · exact ⟨defineBodyParsing_opens env hhost (h.hosted host hhost) hrights, opens_type env c⟩
    · exact ⟨⟨Adds.of_eq rfl, SameScript.refl _, fun _ => rfl⟩, rfl⟩
  unfold acceptHeaders
  generalize (if c.getRequest.resHints.cgiRedir = .none then defineBodyParsing env c else c) = d
    at hdefined ⊢
  obtain ⟨hopens, htype⟩ := hdefined
  dsimp only
  split
  · refine ⟨hopens.trans ⟨Adds.record rfl True.intro, ⟨rfl, rfl⟩, fun _ => rfl⟩, ?_⟩
    exact htype
  · exact ⟨hopens.trans ⟨Adds.of_eq rfl, ⟨rfl, rfl⟩, fun _ => rfl⟩, htype⟩

/-- The verdict of the checks of a head. A refused request keeps the script it had. -/
structure Heard (server : ListenServer) (c : Client) (out : ℤ × Client) : Prop where
  grounded : Grounded server out.2
  scripts : Scripts server c.getRequest → Scripts server out.2.getRequest
  admitted : out.1 = 0 → Admitted server out.2

theorem acceptHeaders_heard (h : Entitled server c) (res : ℤ)
    (hscripts : Scripts server d.getRequest → Scripts server c.getRequest) :
    Heard server d (acceptHeaders env res c) := by
  obtain ⟨hopens, htype⟩ := acceptHeaders_opens env h res
  have hadmitted := h.admitted (acceptHeaders_sameHost env c res) hopens htype
  exact ⟨hadmitted.toGrounded, fun hruns => (hscripts hruns).same hopens.script,
    fun _ => hadmitted⟩

theorem Grounded.refused {res : ℤ} (h : Grounded server d) (hne : res ≠ 0)
    (hscripts : Scripts server c.getRequest → Scripts server d.getRequest) :
    Heard server c (res, d) :=
  ⟨h, hscripts, fun hzero => absurd hzero hne⟩

theorem finishHeaders_heard (h : Entitled server c)
    (hscripts : Scripts server d.getRequest → Scripts server c.getRequest) :
    Heard server d (finishHeaders env c) := by
  have hrefused : ∀ {r : Request} {res : ℤ}, SameScript c.getRequest r → res ≠ 0 →
      Heard server d (res, c.setRequest r) := by
    intro r res hscript hne
    have hgrounded := h.toGrounded.adds (d := c.setRequest r) ⟨rfl, rfl⟩ (Adds.of_eq rfl)
    exact hgrounded.refused hne fun hruns => (hscripts hruns).same hscript
  unfold finishHeaders checkContinue
  dsimp only
  by_cases hexpect : c.getRequest.getHeader (ascii "expect") = ascii "100-continue"
  · rw [if_pos hexpect]
    by_cases hbody : c.bodyStatus = .none
    · rw [if_pos hbody]
      dsimp only
      rw [if_pos (by decide)]
      exact hrefused ⟨rfl, rfl⟩ (by decide)
    · rw [if_neg hbody]
      dsimp only
      rw [if_neg (by decide)]
      exact acceptHeaders_heard env h _ hscripts
  · rw [if_neg hexpect]
    by_cases hother : c.getRequest.getHeader (ascii "expect") = []
    · rw [if_neg (not_not_intro hother), if_neg (fun h => h.1 rfl)]
      exact acceptHeaders_heard env h _ hscripts
    · rw [if_pos hother]
      dsimp only
      rw [if_pos (by decide)]
      exact hrefused ⟨rfl, rfl⟩ (by decide)

/-- A client with a host, on the way through the checks of its head. -/
structure Underway (server : ListenServer) (c d : Client) : Prop extends Grounded server d where
  host : ∃ host, d.host = some host
  scripts : Scripts server c.getRequest → Scripts server d.getRequest

theorem Underway.request (h : Underway server c d) {r : Request}
    (hscripts : Scripts server d.getRequest → Scripts server r) :
    Underway server c (d.setRequest r) :=
  ⟨h.toGrounded.adds ⟨rfl, rfl⟩ (Adds.of_eq rfl), h.host, fun hruns => hscripts (h.scripts hruns)⟩

theorem Underway.heard {res : ℤ} (h : Underway server c d) :
    (res = 0 → Underway server c d) ∧ (res ≠ 0 → Heard server c (res, d)) :=
  ⟨fun _ => h, fun hne => h.toGrounded.refused hne h.scripts⟩

theorem Underway.checked {check : Request → Checked (ℤ × Request)} (h : Underway server c d)
    (hcheck : Ends (check d.getRequest) fun out => SameScript d.getRequest out.2) :
    Ends (onRequest check d) fun out => (out.1 = 0 → Underway server c out.2) ∧
      (out.1 ≠ 0 → Heard server c out) := by
  refine Ends.bind hcheck ?_
  intro out hout
  have hunderway := h.request fun hruns => hruns.same hout
  exact ends_pure.mpr hunderway.heard

theorem checkNewBody_script (c : Client) :
    SameScript c.getRequest (checkNewBody c).2.getRequest := by
  unfold checkNewBody checkBodyLength
  dsimp only
  split
  · split
    · exact ⟨rfl, rfl⟩
    · unfold announceBody withLength
      dsimp only
      split
      · split
        · split
          · exact ⟨rfl, rfl⟩
          · exact ⟨rfl, rfl⟩
        · exact ⟨rfl, rfl⟩
      · split
        · split
          · exact ⟨rfl, rfl⟩
          · exact ⟨rfl, rfl⟩
        · exact ⟨rfl, rfl⟩
  · exact SameScript.refl _

/-- The checks of a head, for a client that keeps to the law. -/
theorem handleRequestHeaders_heard (h : Grounded server c) :
    Ends (handleRequestHeaders env c) (Heard server c) := by
  unfold handleRequestHeaders
  refine Ends.andThen (I := Underway server c) ?_ ?_
  · refine ends_ok.mpr ?_
    unfold assignHost
    dsimp only
    split
    · refine ⟨nofun, fun hne => ?_⟩
      refine Grounded.refused ?_ hne fun hruns => ?_
      · exact h.adds ⟨rfl, rfl⟩ (Adds.of_eq rfl)
      · exact hruns.same ⟨rfl, rfl⟩
    · refine ⟨fun _ => ?_, fun hne => absurd rfl hne⟩
      have hsame := setHost_eq c (c.getRequest.getHeader (ascii "host"))
      refine ⟨⟨h.toBelongs.setHost _, ?_⟩, setHost_isSome c _, ?_⟩
      · rw [hsame]
        exact h.granted
      · rw [hsame]
        exact id
  · intro d hd
    refine Ends.andThen (I := Underway server c) (hd.checked (parseURI_script _)) ?_
    intro d hd
    refine Ends.andThen (I := Underway server c)
      (hd.checked (ends_ok.mpr (checkForbiddenHeaders_script _))) ?_
    intro d hd
    refine Ends.andThen (I := Underway server c) ?_ ?_
    · refine ends_ok.mpr (Underway.heard ?_)
      have hhost := checkNewBody_sameHost d
      have htrace := (checkNewBody_checking d).1.trace_eq
      refine ⟨hd.toGrounded.adds hhost (Adds.of_eq htrace), ?_, ?_⟩
      · rw [hhost.host]
        exact hd.host
      · exact fun hruns => (hd.scripts hruns).same (checkNewBody_script d)
    · intro d hd
      obtain ⟨host, hhost⟩ := hd.host
      refine Ends.andThen (I := fun e => Entitled server e ∧
        (Scripts server c.getRequest → Scripts server e.getRequest)) ?_ ?_
      · rw [hhost]
        refine Ends.bind (checkRequest_rights host env.resource d.getRequest) ?_
        rintro ⟨res, r⟩ ⟨hjudged, hrights⟩
        dsimp only at hjudged hrights
        have hscripts : Scripts server c.getRequest → Scripts server r := by
          intro hruns
          obtain ⟨other, hother, hrun⟩ := hd.scripts hruns
          rcases hjudged.script with hscript | hrun'
          · exact ⟨other, hother, by rw [hjudged.method, hscript]; exact hrun⟩
          · exact ⟨host, hd.hosted host hhost, hrun'⟩
        have hgrounded : Grounded server (d.setRequest r) :=
          hd.toGrounded.adds ⟨rfl, rfl⟩ (Adds.of_eq rfl)
        refine ends_pure.mpr ⟨fun hzero => ⟨⟨hgrounded, host, hhost, hrights hzero⟩, hscripts⟩, ?_⟩
        exact fun hne => hgrounded.refused hne hscripts
      · rintro e ⟨he, hscripts⟩
        exact ends_ok.mpr (finishHeaders_heard env he hscripts)

end Heads

section Runs

variable {server : ListenServer} {c : Client}

theorem Heard.headers {out : ℤ × Client} (h : Heard server c out) (hready : c.headerStatus = .ready)
    (hchecked : HeadersChecked c out) :
    Lawful server out.2 ∧ (out.1 = 0 → Deletable server out.2) := by
  rcases hchecked with hrefused | haccepted
  · obtain ⟨body, type, path, expect, hview⟩ := hrefused.settled
    have hheader : (view out.2).header ≠ .done := by
      rw [hview]
      show c.headerStatus ≠ .done
      rw [hready]
      exact nofun
    have hverdict := hrefused.verdict
    refine ⟨⟨h.grounded, fun hdone => absurd hdone hheader, fun hdone => absurd hdone hheader⟩, ?_⟩
    intro hzero
    omega
  · have hadmitted := h.admitted haccepted.verdict
    exact ⟨⟨h.grounded, fun _ _ _ => hadmitted.deletable, fun _ => hadmitted.scripts⟩,
      fun _ => hadmitted.deletable⟩

/-- A redirection that is refused leaves the script that ran. -/
theorem Heard.redirected {out : ℤ × Client} (h : Heard server c out) (hlawful : Lawful server c)
    (hheader : c.headerStatus = .done) (hbody : c.bodyStatus ≠ .ongoing)
    (htype : c.getRequest.type = .cgi) (hredir : c.getRequest.resHints.cgiRedir ≠ .none)
    (hchecked : HeadersChecked c out) : Lawful server out.2 := by
  have hsettled : out.2.bodyStatus ≠ .ongoing := by
    rcases hchecked with hrefused | haccepted
    · rw [hrefused.body_eq hredir]
      exact hbody
    · rw [haccepted.body_eq hredir]
      exact hbody
  refine ⟨h.grounded, fun _ hongoing => absurd hongoing hsettled, fun _ _ => ?_⟩
  exact h.scripts (hlawful.scripted hheader htype)

/-- A request that is done has nothing pending, and what it deletes it may delete. -/
theorem Lawful.done (h : Lawful server c) (hdue : Deletable server c)
    (hbody : c.bodyStatus ≠ .ongoing) : Lawful server (handleRequestBodyDone c).2 := by
  have hhost := handleRequestBodyDone_sameHost c
  unfold handleRequestBodyDone at hhost ⊢
  dsimp only at hhost ⊢
  split
  · exact ⟨h.toGrounded.adds ⟨rfl, rfl⟩ (Adds.record rfl True.intro),
      fun _ hongoing => absurd hongoing hbody, h.scripted⟩
  · split
    · rename_i hdelete
      have hdeletes : Deletes server c.getRequest.resHints.path := hdue hdelete.1 hdelete.2
      have hdone : Adds (Granted server) c (c.record (.bodyDone c.getRequest.method
          c.getRequest.uri c.getRequest.headers c.bodyStream)) := Adds.record rfl True.intro
      refine ⟨h.toGrounded.adds ⟨rfl, rfl⟩ (hdone.trans ?_),
        fun _ hongoing => absurd hongoing hbody, ?_⟩
      · exact (Adds.record rfl hdeletes).trans (Adds.of_eq rfl)
      · intro hheader hcgi
        exact (h.scripted hheader hcgi).same ⟨rfl, rfl⟩
    · exact ⟨h.toGrounded.adds ⟨rfl, rfl⟩ (Adds.record rfl True.intro),
        fun _ hongoing => absurd hongoing hbody, h.scripted⟩

theorem Lawful.removed (h : Lawful server c) : Lawful server c.deleteCGIProcess := by
  have hview := deleteCGIProcess_view c
  refine h.same (deleteCGIProcess_sameHost c) (releases_not_executes (deleteCGIProcess_adds c))
    (deleteCGIProcess_script c) ?_ ?_ ?_ ?_ ?_
  · rw [hview]
  · rw [hview]
  · rw [hview]
  · rw [hview]
  · intro hopen status hstatus
    refine hopen status ?_
    rw [hview]
    exact hstatus

theorem Lawful.process (h : Lawful server c) (p : CGIProcess) :
    Lawful server { c with cgiProcess := some p } :=
  h.same ⟨rfl, rfl⟩ (Adds.of_eq rfl) ⟨rfl, rfl⟩ rfl rfl rfl rfl id

/-- A process runs the script of a request that is entitled to it. -/
theorem Lawful.started (h : Lawful server c) (env : Env) (hheader : c.headerStatus = .done)
    (htype : c.getRequest.type = .cgi) : Lawful server (generateCGIProcess env c).2 := by
  have hnamed : Lawful server (c.setRequest { c.getRequest with
      resHints := { c.getRequest.resHints with path := generateName none env.outputTime } }) := by
    refine h.after ⟨rfl, rfl⟩ (Adds.of_eq rfl) ?_ ?_
    · intro _ _ _ hstatic
      have hstatic' : c.getRequest.type = .static := hstatic
      rw [htype] at hstatic'
      cases hstatic'
    · intro _ _
      exact (h.scripted hheader htype).same ⟨rfl, rfl⟩
  unfold generateCGIProcess execCGI
  dsimp only
  by_cases hpid : env.pid > 0
  · rw [if_pos hpid]
    dsimp only
    rw [if_neg (not_not_intro rfl)]
    exact ⟨hnamed.toGrounded.adds ⟨rfl, rfl⟩ (Adds.record rfl ⟨env.outputTime, rfl⟩),
      hnamed.pending, hnamed.scripted⟩
  · rw [if_neg hpid]
    dsimp only
    rw [if_pos one_ne_zero]
    exact (hnamed.process { output := generateName none env.outputTime }).removed

theorem Lawful.parsed (h : Lawful server c) (bytes : Bytes) :
    Ends (c.parseRequest bytes) fun out => Lawful server out.2 ∧
      (c.headerStatus = .done → Deletable server c → Deletable server out.2) := by
  intro out hout
  obtain ⟨-, hparsed, htrace, -⟩ := parseRequest_parsed c bytes out hout
  have hhost := parseRequest_sameHost c bytes out hout
  have hscript := parseRequest_script c bytes out hout
  have hadds : Adds (fun a => ¬ Executes a) c out.2 := Adds.of_eq htrace
  cases hparsed with
  | head expect hheader hview =>
    have hopen : (view out.2).header ≠ .done := by
      rw [hview]
      show (if out.1 < 0 then HeaderStatus.ready else .ongoing) ≠ .done
      split
      · exact nofun
      · exact nofun
    refine ⟨h.fresh hhost hadds hopen, ?_⟩
    intro hdone
    rw [hheader] at hdone
    cases hdone
  | body expect hheader hbody hview =>
    have htype : (view out.2).type = (view c).type := by rw [hview]
    have hpath : (view out.2).path = (view c).path := by rw [hview]
    have hresponse : (view out.2).response = (view c).response := by rw [hview]
    refine ⟨h.after hhost hadds ?_ ?_, fun hdone hdue => hdue.same (hscript hdone) htype hpath⟩
    · intro _ _ hopen
      refine (h.pending hheader hbody ?_).same (hscript hheader) htype hpath
      intro status hstatus
      exact hopen status (hresponse.trans hstatus)
    · intro _ hcgi
      exact (h.scripted hheader (htype ▸ hcgi)).same (hscript hheader)
  | idle hidle hres hview =>
    have htype : (view out.2).type = (view c).type := by rw [hview]
    have hpath : (view out.2).path = (view c).path := by rw [hview]
    refine ⟨h.after hhost hadds ?_ ?_, fun hdone hdue => hdue.same (hscript hdone) htype hpath⟩
    · intro hdone hongoing
      rw [hview] at hdone hongoing
      exact absurd ⟨hdone, hongoing⟩ hidle.2
    · intro hdone hcgi
      rw [hview] at hdone hcgi
      exact (h.scripted hdone hcgi).same (hscript hdone)

theorem lawful_rules (server : ListenServer) : Rules (Lawful server) (Deletable server) where
  parsed c bytes h := h.parsed bytes
  due c h hheader hbody hresponse := h.pending' hheader hbody hresponse
  begun c h hready := by
    refine h.fresh ⟨rfl, rfl⟩ (Adds.of_eq rfl) ?_
    show c.headerStatus ≠ .done
    rw [hready]
    exact nofun
  headers env c h hready := by
    intro out hout
    exact (handleRequestHeaders_heard env h.toGrounded out hout).headers hready
      (handleRequestHeaders_checked env c out hout)
  redirected env c h hheader hbody htype hredir _ := by
    intro out hout
    have hlawful := (handleRequestHeaders_heard env h.toGrounded out hout).redirected h hheader
      hbody htype hredir (handleRequestHeaders_checked env c out hout)
    exact ⟨fun _ => hlawful, fun _ => hlawful.answered env out.1⟩
  noted c res := by
    refine ⟨fun h => ?_, fun hdue => hdue⟩
    exact h.same ⟨rfl, rfl⟩ (Adds.record rfl id) ⟨rfl, rfl⟩ rfl rfl rfl rfl id
  done c h hdue _ hbody := h.done hdue hbody
  answered env c status h := h.answered env status
  started env c h hheader _ htype := h.started env hheader htype
  removed c h := h.removed
  judged fs c verdict r h hparse := by
    obtain ⟨htype, -, hpath, -⟩ := parseCgiHeaders_keeps fs _ _ hparse
    have hscript := parseCgiHeaders_script fs _ _ hparse
    exact h.same ⟨rfl, rfl⟩ (Adds.of_eq rfl) ⟨hscript.method, hscript.script⟩ rfl rfl htype hpath id
  reaped c p q h _ _ := h.process q
  sent c rest bytes h := h.same ⟨rfl, rfl⟩ (Adds.record rfl id) ⟨rfl, rfl⟩ rfl rfl rfl rfl id
  expected c h := h.same ⟨rfl, rfl⟩ (Adds.of_eq rfl) ⟨rfl, rfl⟩ rfl rfl rfl rfl id
  continued c h hcontinue := by
    refine h.same ⟨rfl, rfl⟩ (Adds.of_eq rfl) ⟨rfl, rfl⟩ rfl rfl rfl rfl ?_
    intro _ status hstatus
    have hsome : c.response.map Response.getStatus = some status := hstatus
    rw [hcontinue] at hsome
    exact (Option.some.inj hsome).symm
  cleared c h := by
    have hadds := releases_not_executes (clear_adds c)
    refine h.fresh ⟨(clear_sameHost c).server, (clear_sameHost c).host⟩
      (hadds.trans (Adds.of_eq rfl)) ?_
    show (view c.clear).header ≠ .done
    rw [clear_view]
    exact nofun
  terminated c h := by
    refine h.fresh (terminate_sameHost c) ?_ ?_
    · refine (terminate_adds c).mono ?_
      rintro a ((⟨path, rfl⟩ | ⟨name, -, rfl⟩) | rfl)
      · exact id
      · exact id
      · exact id
    · show (view c.clear).header ≠ .done
      rw [clear_view]
      exact nofun
  expired c request h _ hrequest := by
    have hget : c.getRequest = request := by
      rw [Client.getRequest, hrequest]
      rfl
    refine h.same ⟨rfl, rfl⟩ (Adds.of_eq rfl) ?_ rfl rfl ?_ ?_ id
    · rw [hget]
      exact ⟨rfl, rfl⟩
    · show request.type = c.getRequest.type
      rw [hget]
    · show request.resHints.path = c.getRequest.resHints.path
      rw [hget]

theorem lawful_reached {events : List Event} {c : Client}
    (h : Reaches EventLoop.step (fun _ _ => True) (Client.newClient server) events c) :
    Lawful server c ∧ (c.cgiProcess ≠ none → Scripts server c.getRequest) := by
  have hnew : Lawful server (Client.newClient server) := by
    have hopen : (view (Client.newClient server)).header ≠ .done := by
      rw [newClient_view]
      exact nofun
    refine ⟨⟨newClient_belongs server, ?_⟩, fun hdone => absurd hdone hopen, fun hdone => absurd hdone hopen⟩
    intro a ha
    cases ha
  obtain ⟨hsound, hlawful⟩ := (lawful_rules server).reached hnew h
  refine ⟨hlawful, ?_⟩
  intro hprocess
  have hcgi : (view c).cgi ≠ none := by
    show c.cgiProcess.map CGIProcess.output ≠ none
    exact fun hnone => hprocess (Option.map_eq_none_iff.mp hnone)
  obtain ⟨hheader, -, htype⟩ := hsound.processing hcgi
  exact hlawful.scripted hheader htype

end Runs

end Webserveau.GrantedEffects
