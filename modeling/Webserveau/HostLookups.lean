import Webserveau.HandlerRules

/-!
The names under which a client's handlers look up its host.
A handler changes the host of its client through `setHost` alone, so whatever a client goes
through, some calls of `setHost` lead from its first host to its last, and its server stays.
-/
namespace Webserveau.HostLookups

open ByteStrings OrderedMaps Formats Requests Clients EventLoop Checks HeadSafety ParserFrames
  Transitions Intake Replies LoopInvariants LoopSteps HandlerRules Acceptance

/-- Server and host are those of another client. -/
structure SameHost (c d : Client) : Prop where
  server : d.listenServer = c.listenServer
  host : d.host = c.host

namespace SameHost

variable {c d e : Client}

theorem refl (c : Client) : SameHost c c := ⟨rfl, rfl⟩

theorem trans (h : SameHost c d) (h' : SameHost d e) : SameHost c e :=
  ⟨h'.server.trans h.server, h'.host.trans h.host⟩

theorem setHost (h : SameHost c d) (name : Bytes) : SameHost (c.setHost name) (d.setHost name) := by
  unfold Client.setHost
  rw [h.host, h.server]
  split
  · exact h
  · exact ⟨rfl, rfl⟩

end SameHost

@[simp] theorem setHost_listenServer (c : Client) (name : Bytes) :
    (c.setHost name).listenServer = c.listenServer := by
  unfold Client.setHost
  split
  · rfl
  · rfl

theorem setHosts_listenServer (names : List Bytes) (c : Client) :
    (names.foldl Client.setHost c).listenServer = c.listenServer := by
  induction names generalizing c with
  | nil => rfl
  | cons name names ih =>
    rw [List.foldl_cons, ih]
    exact setHost_listenServer c name

/-- Looking names up leads from the one client to the other. -/
def Asks (c d : Client) : Prop := ∃ names : List Bytes, SameHost (names.foldl Client.setHost c) d

namespace Asks

variable {c d e : Client}

theorem refl (c : Client) : Asks c c := ⟨[], SameHost.refl c⟩

theorem same (h : Asks c d) (hsame : SameHost d e) : Asks c e := by
  obtain ⟨names, hnames⟩ := h
  exact ⟨names, hnames.trans hsame⟩

theorem setHost (h : Asks c d) (name : Bytes) : Asks c (d.setHost name) := by
  obtain ⟨names, hnames⟩ := h
  refine ⟨names ++ [name], ?_⟩
  rw [List.foldl_append]
  exact hnames.setHost name

/-- What every lookup keeps, and what only server and host matter for. -/
theorem keeps {I : Client → Prop} (h : Asks c d) (hname : ∀ e name, I e → I (e.setHost name))
    (hsame : ∀ e f, I e → SameHost e f → I f) (hc : I c) : I d := by
  obtain ⟨names, hnames⟩ := h
  refine hsame _ _ ?_ hnames
  clear hnames
  induction names generalizing c with
  | nil => exact hc
  | cons name names ih => exact ih (hname c name hc)

theorem trans (h : Asks c d) (h' : Asks d e) : Asks c e :=
  h'.keeps (fun _ name hask => hask.setHost name) (fun _ _ hask hsame => hask.same hsame) h

end Asks

/-- A host that a server knows under some name. -/
def Hosted (server : ListenServer) (host : Host) : Prop :=
  ∃ e ∈ server.hostMap.entries, e.2 = host

section Hosts

variable {server : ListenServer}

theorem bindClient_hosted (server : ListenServer) (name : Bytes) :
    Hosted server (server.bindClient name) := by
  unfold ListenServer.bindClient
  cases hfind : server.hostMap.find? name with
  | some host =>
    obtain ⟨e, he, hvalue⟩ := OrderedMap.mem_of_find? hfind
    exact ⟨e, he, hvalue⟩
  | none => exact ⟨_, List.head_mem server.inhabited, rfl⟩

/-- A client of the server; a host that it has is one of the server's. -/
structure Belongs (server : ListenServer) (c : Client) : Prop where
  server_eq : c.listenServer = server
  hosted : ∀ host, c.host = some host → Hosted server host

theorem newClient_belongs (server : ListenServer) : Belongs server (Client.newClient server) :=
  ⟨rfl, nofun⟩

theorem Belongs.setHost {c : Client} (h : Belongs server c) (name : Bytes) :
    Belongs server (c.setHost name) := by
  refine ⟨(setHost_listenServer c name).trans h.server_eq, ?_⟩
  unfold Client.setHost
  split
  · exact h.hosted
  · intro host hhost
    rw [← Option.some.inj hhost, h.server_eq]
    exact bindClient_hosted server name

theorem Belongs.same {c d : Client} (h : Belongs server c) (hsame : SameHost c d) :
    Belongs server d := by
  refine ⟨hsame.server.trans h.server_eq, ?_⟩
  rw [hsame.host]
  exact h.hosted

/-- Looking names up finds no host but those of the server. -/
theorem Belongs.asks {c d : Client} (h : Belongs server c) (hasks : Asks c d) :
    Belongs server d :=
  hasks.keeps (fun _ name he => he.setHost name) (fun _ _ he hsame => he.same hsame) h

/-- The host whose rules a request goes by: one of the server that has the name in the `Host`
field, or the one that the server finds for it. -/
def Addressed (server : ListenServer) (r : Request) (host : Host) : Prop :=
  host = server.bindClient (r.getHeader (ascii "host")) ∨
    Hosted server host ∧ host.checkServerName (r.getHeader (ascii "host")) = true

theorem hostOf_addressed {c : Client} (h : Belongs server c) :
    Addressed server c.getRequest (hostOf c) := by
  unfold Addressed hostOf Client.setHost
  split
  · rename_i hany
    cases hhost : c.host with
    | none =>
      rw [hhost] at hany
      cases hany
    | some host =>
      rw [hhost] at hany
      exact Or.inr ⟨h.hosted host hhost, hany⟩
  · rw [h.server_eq]
    exact Or.inl rfl

end Hosts

section Operations

variable (env : Env) (c : Client)

theorem deleteCGIProcess_sameHost : SameHost c c.deleteCGIProcess := by
  unfold Client.deleteCGIProcess
  split
  · exact SameHost.refl c
  · exact ⟨rfl, rfl⟩

theorem deleteBodyStream_sameHost : SameHost c c.deleteBodyStream := by
  unfold Client.deleteBodyStream
  split
  · exact SameHost.refl c
  · dsimp only
    split
    · exact ⟨rfl, rfl⟩
    · exact ⟨rfl, rfl⟩

theorem clear_sameHost : SameHost c c.clear := by
  have h := (deleteBodyStream_sameHost c).trans (deleteCGIProcess_sameHost _)
  exact ⟨h.server, h.host⟩

theorem terminate_sameHost : SameHost c c.terminate := by
  have h := clear_sameHost c
  exact ⟨h.server, h.host⟩

theorem parseRequest_sameHost (bytes : Bytes) :
    Ends (c.parseRequest bytes) fun out => SameHost c out.2 := by
  unfold Client.parseRequest
  split
  · apply Ends.bind_any
    intro out
    exact ends_pure.mpr ⟨rfl, rfl⟩
  · split
    · apply Ends.bind_any
      intro out
      exact ends_pure.mpr ⟨rfl, rfl⟩
    · exact ends_pure.mpr ⟨rfl, rfl⟩

theorem tryResponse_sameHost (status : ℤ) : SameHost c (tryResponse env c status).2 := by
  unfold tryResponse
  dsimp only
  split
  · exact ⟨rfl, rfl⟩
  · exact ⟨rfl, rfl⟩

theorem generateResponse_sameHost (status : ℤ) : SameHost c (generateResponse env c status).2 := by
  have hfirst := tryResponse_sameHost env c status
  have hsecond := tryResponse_sameHost env (tryResponse env c status).2.clearResponse
    RES_INTERNAL_ERROR
  have hboth := hfirst.trans ⟨hsecond.server, hsecond.host⟩
  unfold generateResponse
  split
  · exact SameHost.refl c
  · dsimp only
    split
    · exact hfirst
    · split
      · exact ⟨hfirst.server, hfirst.host⟩
      · split
        · exact hboth
        · exact ⟨hboth.server, hboth.host⟩

theorem handleRequestBodyDone_sameHost : SameHost c (handleRequestBodyDone c).2 := by
  unfold handleRequestBodyDone
  dsimp only
  split
  · exact ⟨rfl, rfl⟩
  · split
    · exact ⟨rfl, rfl⟩
    · exact ⟨rfl, rfl⟩

theorem generateCGIProcess_sameHost : SameHost c (generateCGIProcess env c).2 := by
  have hdelete := fun d => deleteCGIProcess_sameHost d
  unfold generateCGIProcess execCGI
  split
  · rename_i res d hexec
    split at hexec
    · cases hexec
      exact ⟨rfl, rfl⟩
    · cases hexec
      exact ⟨(hdelete _).server, (hdelete _).host⟩

theorem setBodyFile_sameHost (path : Bytes) (opens : Bool) :
    SameHost c (c.setBodyFile path opens) := by
  unfold Client.setBodyFile
  dsimp only
  split
  · exact ⟨rfl, rfl⟩
  · exact ⟨rfl, rfl⟩

theorem keepContentType_sameHost : SameHost c (keepContentType c) := by
  unfold keepContentType
  dsimp only
  split
  · exact ⟨rfl, rfl⟩
  · exact SameHost.refl c

theorem uploadTo_sameHost (filePath : Bytes) (status : ℤ) (alreadyExist : Bool) :
    SameHost c (uploadTo env c filePath status alreadyExist) := by
  have hset := setBodyFile_sameHost (c.setRequest { c.getRequest with
    resHints := { c.getRequest.resHints with
      alreadyExist := alreadyExist
      status := status
      path := filePath } }) filePath env.opens
  have hkeep := fun d => keepContentType_sameHost d
  exact ⟨(hkeep _).server.trans hset.server, (hkeep _).host.trans hset.host⟩

theorem defineBodyParsing_sameHost : SameHost c (defineBodyParsing env c) := by
  unfold defineBodyParsing
  dsimp only
  split
  · have hset := setBodyFile_sameHost c
      (if c.bodyStatus ≠ .none then generateName (some (hostName c)) env.bodyTime else []) env.opens
    have hkeep := fun d => keepContentType_sameHost d
    exact ⟨(hkeep _).server.trans hset.server, (hkeep _).host.trans hset.host⟩
  · split
    · split
      · exact uploadTo_sameHost env c _ _ _
      · split
        · exact ⟨rfl, rfl⟩
        · exact uploadTo_sameHost env c _ _ _
      · exact ⟨rfl, rfl⟩
    · exact (setBodyFile_sameHost c [] env.opens).trans (keepContentType_sameHost _)

theorem acceptHeaders_sameHost (res : ℤ) : SameHost c (acceptHeaders env res c).2 := by
  have hdefined : SameHost c
      (if c.getRequest.resHints.cgiRedir = .none then defineBodyParsing env c else c) := by
    split
    · exact defineBodyParsing_sameHost env c
    · exact SameHost.refl c
  unfold acceptHeaders
  dsimp only
  split
  · exact ⟨hdefined.server, hdefined.host⟩
  · exact ⟨hdefined.server, hdefined.host⟩

theorem checkContinue_sameHost : SameHost c (checkContinue c).2 := by
  unfold checkContinue
  dsimp only
  split
  · split
    · exact ⟨rfl, rfl⟩
    · exact SameHost.refl c
  · split
    · exact ⟨rfl, rfl⟩
    · exact SameHost.refl c

theorem finishHeaders_sameHost : SameHost c (finishHeaders env c).2 := by
  have hcontinue := checkContinue_sameHost c
  unfold finishHeaders
  dsimp only
  split
  · exact hcontinue
  · exact hcontinue.trans (acceptHeaders_sameHost env _ _)

theorem checkNewBody_sameHost : SameHost c (checkNewBody c).2 := by
  unfold checkNewBody checkBodyLength
  dsimp only
  split
  · split
    · exact ⟨rfl, rfl⟩
    · unfold announceBody
      dsimp only
      split
      · exact ⟨rfl, rfl⟩
      · exact ⟨rfl, rfl⟩
  · exact SameHost.refl c

variable {c}

theorem onRequest_asks {c₀ : Client} (check : Request → Checked (ℤ × Request)) (h : Asks c₀ c) :
    Ends (onRequest check c) fun out => Asks c₀ out.2 := by
  apply Ends.bind_any
  intro out
  exact ends_pure.mpr (h.same ⟨rfl, rfl⟩)

/-- The only lookup is that of the name in the `Host` field. -/
theorem assignHost_asks {c₀ : Client} (h : Asks c₀ c) : Asks c₀ (assignHost c).2 := by
  unfold assignHost
  dsimp only
  split
  · exact h.same ⟨rfl, rfl⟩
  · exact h.setHost _

theorem andThen_asks {c₀ : Client} {first : Checked (ℤ × Client)}
    {next : Client → Checked (ℤ × Client)} (hfirst : Ends first fun out => Asks c₀ out.2)
    (hnext : ∀ d, Asks c₀ d → Ends (next d) fun out => Asks c₀ out.2) :
    Ends (andThen first next) fun out => Asks c₀ out.2 := by
  refine Ends.andThen (I := Asks c₀) ?_ hnext
  intro out hout
  exact ⟨fun _ => hfirst out hout, fun _ => hfirst out hout⟩

theorem handleRequestHeaders_asks {c₀ : Client} (h : Asks c₀ c) :
    Ends (handleRequestHeaders env c) fun out => Asks c₀ out.2 := by
  refine andThen_asks (ends_ok.mpr (assignHost_asks h)) ?_
  intro d hd
  refine andThen_asks (onRequest_asks _ hd) ?_
  intro d hd
  refine andThen_asks (onRequest_asks _ hd) ?_
  intro d hd
  refine andThen_asks (ends_ok.mpr (hd.same (checkNewBody_sameHost d))) ?_
  intro d hd
  refine andThen_asks (onRequest_asks _ hd) ?_
  intro d hd
  exact ends_ok.mpr (hd.same (finishHeaders_sameHost env d))

end Operations

/-- Every handler looks hosts up and does nothing else to the host of its client. -/
theorem asks_rules (c₀ : Client) : Rules (Asks c₀) fun _ => True where
  parsed c bytes h := (parseRequest_sameHost c bytes).mono fun _ hsame =>
    ⟨h.same hsame, fun _ _ => True.intro⟩
  due _ _ _ _ _ := True.intro
  begun _ h _ := h.same ⟨rfl, rfl⟩
  headers env _ h _ := (handleRequestHeaders_asks env h).mono fun _ hout =>
    ⟨hout, fun _ => True.intro⟩
  redirected env _ h _ _ _ _ _ := (handleRequestHeaders_asks env h).mono fun _ hout =>
    ⟨fun _ => hout, fun _ => hout.same (generateResponse_sameHost env _ _)⟩
  noted _ _ := ⟨fun h => h.same ⟨rfl, rfl⟩, fun _ => True.intro⟩
  done c h _ _ _ := h.same (handleRequestBodyDone_sameHost c)
  answered env c status h := h.same (generateResponse_sameHost env c status)
  started env c h _ _ _ := h.same (generateCGIProcess_sameHost env c)
  removed c h := h.same (deleteCGIProcess_sameHost c)
  judged _ _ _ _ h _ := h.same ⟨rfl, rfl⟩
  reaped _ _ _ h _ _ := h.same ⟨rfl, rfl⟩
  sent _ _ _ h := h.same ⟨rfl, rfl⟩
  expected _ h := h.same ⟨rfl, rfl⟩
  continued _ h _ := h.same ⟨rfl, rfl⟩
  cleared c h := h.same ⟨(clear_sameHost c).server, (clear_sameHost c).host⟩
  terminated c h := h.same (terminate_sameHost c)
  expired _ _ h _ _ := h.same ⟨rfl, rfl⟩

/-- Some lookups account for the host that a client has after an event. -/
theorem step_asks (event : Event) {c d : Client} (hsound : Sound (view c))
    (h : EventLoop.step c event = .ok d) : Asks c d :=
  (asks_rules c).step event hsound (Asks.refl c) d h

end Webserveau.HostLookups
