import Webserveau.ConfigParser
import Webserveau.DirListings

/-!
Paths of cgi requests.
A path is cut behind the last occurrence of the identifier of its cgi. The expression that
chose the cgi is another text than the identifier, so the identifier may not occur; the
cut then falls one byte short of its length, or out of the path.
-/
namespace Webserveau.PathInfos

open ByteStrings OrderedMaps Formats Requests Checks

/-- Where a path is cut. -/
def cutEnd (identifier path : Bytes) : ℕ :=
  match rfind identifier path with
  | some idx => idx + identifier.length
  | none => identifier.length - 1

/-- Root and filename of a path. -/
def nameSplit (path : Bytes) : Bytes × Bytes :=
  match rfind (ascii "/") path with
  | none => (ascii "/", path)
  | some idx => (path.take (idx + 1), path.drop (idx + 1))

/-- The parts of a uri that is cut at a position. -/
def cutAtEnd (uri : URI) (identifier : Bytes) (n : ℕ) : URI :=
  { uri with
    pathInfo := uri.path.drop n
    path := uri.path.take n
    root := (nameSplit (uri.path.take n)).1
    filename := (nameSplit (uri.path.take n)).2
    extension := identifier }

theorem splitName_eq (path : Bytes) : Request.splitName path = .ok (nameSplit path) := by
  unfold Request.splitName nameSplit
  cases hslash : rfind (ascii "/") path with
  | none => rfl
  | some idx =>
    obtain ⟨a, b, hpath, hlength⟩ := rfind_eq_some hslash
    have hone : (ascii "/").length = 1 := rfl
    have hfits : idx + 1 ≤ path.length := by
      rw [hpath, List.length_append, List.length_append, hlength, hone]
      exact Nat.le_add_right _ _
    simp only [substr_zero, substrFrom_of_le hfits, bind, Except.bind]
    rfl

/-- The cut succeeds when it falls into the path, and changes nothing but the uri. -/
theorem extractPathInfo_eq (r : Request) (identifier : Bytes) :
    r.extractPathInfo identifier =
      if cutEnd identifier r.resHints.parsedUri.path ≤ r.resHints.parsedUri.path.length then
        .ok (r.setParsedUri (cutAtEnd r.resHints.parsedUri identifier
          (cutEnd identifier r.resHints.parsedUri.path)))
      else .error .position := by
  unfold Request.extractPathInfo
  show (substrFrom r.resHints.parsedUri.path (cutEnd identifier r.resHints.parsedUri.path) >>=
    fun pathInfo => substr r.resHints.parsedUri.path 0
        (cutEnd identifier r.resHints.parsedUri.path) >>= fun path =>
      Request.splitName path >>= fun out => .ok (r.setParsedUri { r.resHints.parsedUri with
        pathInfo := pathInfo
        path := path
        root := out.1
        filename := out.2
        extension := identifier })) = _
  generalize cutEnd identifier r.resHints.parsedUri.path = n
  unfold substrFrom
  by_cases hfits : n ≤ r.resHints.parsedUri.path.length
  · rw [if_pos hfits, if_pos hfits]
    simp only [substr_zero, splitName_eq, bind, Except.bind]
    rfl
  · rw [if_neg hfits, if_neg hfits]
    rfl

/-- What matching does to the uri of a request. -/
theorem matchRequest_uri (host : Host) (r : Request) :
    (host.matchCGIConfig r.resHints.parsedUri.path = none →
      ∃ code r', host.matchRequest r = .ok (code, r') ∧
        r'.resHints.parsedUri = r.resHints.parsedUri) ∧
    ∀ cgi, host.matchCGIConfig r.resHints.parsedUri.path = some cgi →
      if cutEnd cgi.extension r.resHints.parsedUri.path ≤ r.resHints.parsedUri.path.length then
        ∃ r', host.matchRequest r = .ok (0, r') ∧ r'.type = .cgi ∧
          r'.resHints.parsedUri = cutAtEnd r.resHints.parsedUri cgi.extension
            (cutEnd cgi.extension r.resHints.parsedUri.path)
      else host.matchRequest r = .error .position := by
  unfold Host.matchRequest
  dsimp only
  constructor
  · intro hnone
    simp only [hnone]
    by_cases hlocation : host.matchLocation r.resHints.parsedUri.path = none
    · rw [if_pos hlocation]
      exact ⟨_, _, rfl, rfl⟩
    · rw [if_neg hlocation]
      split
      · exact ⟨_, _, rfl, rfl⟩
      · exact ⟨_, _, rfl, rfl⟩
  · intro cgi hcgi
    simp only [hcgi, extractPathInfo_eq]
    split
    · simp only [bind, Except.bind]
      split
      · exact ⟨_, rfl, rfl, rfl⟩
      · exact ⟨_, rfl, rfl, rfl⟩
    · rfl

theorem nameSplit_join (path : Bytes) :
    if 47 ∈ path then (nameSplit path).1 ++ (nameSplit path).2 = path
    else (nameSplit path).2 = path := by
  unfold nameSplit
  cases hslash : rfind (ascii "/") path with
  | none =>
    have hmem : 47 ∉ path := by
      intro hmem
      obtain ⟨a, b, rfl⟩ := List.append_of_mem hmem
      obtain ⟨i, hi, -⟩ := rfind_append a [47] b
      rw [List.append_assoc] at hi
      rw [show ascii "/" = [47] from rfl, show a ++ 47 :: b = a ++ ([47] ++ b) from rfl, hi] at hslash
      cases hslash
    rw [if_neg hmem]
  | some idx =>
    obtain ⟨a, b, hpath, -⟩ := rfind_eq_some hslash
    have hmem : 47 ∈ path := by
      rw [hpath]
      exact List.mem_append_left b (List.mem_append_right a (List.mem_singleton_self 47))
    rw [if_pos hmem]
    exact List.take_append_drop _ _

/-- A request that matches a cgi is cut without an exception, nothing of its path is lost,
and the identifier ends what is kept of it. -/
def CutWell (host : Host) (r : Request) : Prop :=
  ∀ cgi, host.matchCGIConfig r.resHints.parsedUri.path = some cgi →
    ∃ r', host.matchRequest r = .ok (0, r') ∧ r'.type = .cgi ∧
      r.resHints.parsedUri.path = r'.resHints.parsedUri.path ++ r'.resHints.parsedUri.pathInfo ∧
      cgi.extension <:+ r'.resHints.parsedUri.path ∧
      if 47 ∈ r'.resHints.parsedUri.path then
        r'.resHints.parsedUri.root ++ r'.resHints.parsedUri.filename = r'.resHints.parsedUri.path
      else r'.resHints.parsedUri.filename = r'.resHints.parsedUri.path

theorem cutEnd_occurs {identifier path : Bytes} (h : identifier <:+: path) :
    cutEnd identifier path ≤ path.length ∧ identifier <:+ path.take (cutEnd identifier path) := by
  obtain ⟨a, b, rfl⟩ := h
  obtain ⟨i, hi, -⟩ := rfind_append a identifier b
  obtain ⟨a', b', hsame, hlength⟩ := rfind_eq_some hi
  unfold cutEnd
  rw [hi, hsame, ← hlength]
  dsimp only
  have hlen : (a' ++ identifier).length = a'.length + identifier.length := List.length_append
  constructor
  · rw [List.length_append, hlen]
    exact Nat.le_add_right _ _
  · rw [← hlen, List.take_left]
    exact List.suffix_append a' identifier

theorem cutEnd_missing {identifier path : Bytes} (h : ¬ identifier <:+: path) :
    ¬ identifier <:+ path.take (cutEnd identifier path) := by
  intro hsuffix
  exact h (hsuffix.isInfix.trans (List.take_prefix _ _).isInfix)

/-- A path is cut well when the identifier occurs in it, and only then. -/
theorem cutWell_iff (host : Host) (r : Request) :
    CutWell host r ↔ ∀ cgi, host.matchCGIConfig r.resHints.parsedUri.path = some cgi →
      cgi.extension <:+: r.resHints.parsedUri.path := by
  have hmatch := (matchRequest_uri host r).2
  constructor
  · intro hwell cgi hcgi
    obtain ⟨r', hr', -, -, hsuffix, -⟩ := hwell cgi hcgi
    have hcut := hmatch cgi hcgi
    split at hcut
    · obtain ⟨s, hs, -, huri⟩ := hcut
      rw [hs, Except.ok.injEq, Prod.mk.injEq] at hr'
      obtain ⟨-, rfl⟩ := hr'
      rw [huri] at hsuffix
      by_contra hmissing
      exact cutEnd_missing hmissing hsuffix
    · rw [hcut] at hr'
      cases hr'
  · intro hoccurs cgi hcgi
    obtain ⟨hfits, hsuffix⟩ := cutEnd_occurs (hoccurs cgi hcgi)
    have hcut := hmatch cgi hcgi
    rw [if_pos hfits] at hcut
    obtain ⟨r', hr', htype, huri⟩ := hcut
    refine ⟨r', hr', htype, ?_, ?_, ?_⟩
    · rw [huri]
      exact (List.take_append_drop _ _).symm
    · rw [huri]
      exact hsuffix
    · rw [huri]
      exact nameSplit_join _

/-- The host that a configuration text makes. -/
def Configured (text : Bytes) (host : Host) : Prop :=
  ∃ opens bound, (ConfigParser.parseConfigFile opens bound text {}).result = .ok 0 ∧
    (ConfigParser.parseConfigFile opens bound text {}).globals.error = false ∧
    ∃ o ∈ (ConfigParser.parseConfigFile opens bound text {}).globals.registry.hosts.objects,
      o.2.host = host

/-- A cgi for scripts of one kind with the identifier of another. -/
def mixedText : Bytes :=
  ascii "default_error_pages e;server\x7blisten 80;server_name a;location *\x7broot /x;\x7d;" ++
    ascii "cgi *.py\x7broot /y;identifier .php;\x7d;\x7d;"

theorem mixed_not_cutWell : ∃ host r, Configured mixedText host ∧ ¬ CutWell host r := by
  have hresult : (ConfigParser.parseConfigFile (fun _ _ => true) 300 mixedText {}).result =
      .ok 0 := by decide +kernel
  have herror : (ConfigParser.parseConfigFile (fun _ _ => true) 300 mixedText {}).globals.error =
      false := by decide +kernel
  have hhosts : (ConfigParser.parseConfigFile (fun _ _ => true) 300
      mixedText {}).globals.registry.hosts.objects.any (fun o =>
        (o.2.host.matchCGIConfig (ascii "a.py")).any fun cgi => cgi.extension = ascii ".php") =
      true := by decide +kernel
  obtain ⟨o, ho, hmatch⟩ := List.any_eq_true.mp hhosts
  obtain ⟨cgi, hcgi, hextension⟩ := (Option.any_eq_true _ _).mp hmatch
  refine ⟨o.2.host, { resHints := { parsedUri := { path := ascii "a.py" } } },
    ⟨_, _, hresult, herror, o, ho, rfl⟩, ?_⟩
  intro hwell
  obtain ⟨r', -, -, hpath, hsuffix, -⟩ := hwell cgi hcgi
  have hoccurs : cgi.extension <:+: ascii "a.py" := by
    refine hsuffix.isInfix.trans ?_
    show r'.resHints.parsedUri.path <:+: ascii "a.py"
    rw [show ascii "a.py" = r'.resHints.parsedUri.path ++ r'.resHints.parsedUri.pathInfo from hpath]
    exact (List.prefix_append _ _).isInfix
  rw [of_decide_eq_true hextension] at hoccurs
  exact absurd hoccurs (by decide)

end Webserveau.PathInfos
