import Webserveau.CleanRequests

/-!
Heads of responses.
A head is a text of lines: the status line, one line for each header and each cookie, and
the empty line. It splits into these lines again exactly when none of them contains a
CRLF, and only the address of a redirection can.
-/
namespace Webserveau.ResponseHeads

open ByteStrings OrderedMaps Numerals Formats Requests Clients EventLoop Checks Replies
  DelimitedTexts CleanRequests

def statusLine (status : ℤ) : Bytes :=
  ascii "HTTP/1.1 " ++ IntToString status ++ ascii " " ++ reason status

def headerLine (header : Bytes × Bytes) : Bytes := header.1 ++ ascii ": " ++ header.2

def cookieLine (cookie : Bytes) : Bytes := ascii "Set-Cookie: " ++ cookie

/-- The lines of a head, with the empty line behind them. -/
def headLines (status : ℤ) (hints : ResHints) : List Bytes :=
  statusLine status :: hints.headers.entries.map headerLine ++ hints.cookies.map cookieLine ++ [[]]

theorem formatHeaders_eq (status : ℤ) (hints : ResHints) :
    formatHeaders status hints = terminate 13 10 (headLines status hints) := by
  have hheaders : ∀ headers : List (Bytes × Bytes), terminate 13 10 (headers.map headerLine) =
      headers.flatMap fun header => header.1 ++ ascii ": " ++ header.2 ++ CRLF := by
    intro headers
    rw [terminate, List.flatMap_map]
    rfl
  have hcookies : ∀ cookies : List Bytes, terminate 13 10 (cookies.map cookieLine) =
      cookies.flatMap fun cookie => ascii "Set-Cookie: " ++ cookie ++ CRLF := by
    intro cookies
    rw [terminate, List.flatMap_map]
    rfl
  unfold formatHeaders headLines
  rw [terminate_append, terminate_append, terminate_cons, hheaders, hcookies]
  rfl

/-- Splitting the head at CRLF gives back its lines. -/
def HeadSplits (status : ℤ) (hints : ResHints) : Prop :=
  splitOn 13 10 (formatHeaders status hints) = headLines status hints ++ [[]]

theorem headSplits_iff (status : ℤ) (hints : ResHints) :
    HeadSplits status hints ↔ ∀ line ∈ headLines status hints, OneLine line := by
  rw [HeadSplits, formatHeaders_eq]
  exact splitOn_terminate_iff (by decide) _

theorem not_mem_numeral (n : ℕ) : 13 ∉ numeral 10 n := by
  intro hmem
  have hdenotes : Denotes 10 (numeral 10 n) n := denotes_numeral (by omega) (by omega) n
  exact absurd (hdenotes.2.1 13 hmem) (by decide)

theorem not_mem_IntToString (x : ℤ) : 13 ∉ IntToString x := by
  unfold IntToString
  split
  · intro hmem
    rcases List.mem_cons.mp hmem with hsign | hdigit
    · exact absurd hsign (by decide)
    · exact not_mem_numeral _ hdigit
  · exact not_mem_numeral _

theorem not_mem_reason (status : ℤ) : 13 ∉ reason status := by
  have htable : ∀ entry ∈ responseLine, 13 ∉ ascii entry.2 := by decide +kernel
  unfold reason
  cases hfind : responseLine.find? fun entry => entry.1 = status with
  | none => exact List.not_mem_nil
  | some entry => exact htable entry (List.mem_of_find?_eq_some hfind)

theorem statusLine_oneLine (status : ℤ) : OneLine (statusLine status) := by
  refine unbroken_of_not_mem ?_
  unfold statusLine
  simp only [List.mem_append, not_or]
  exact ⟨⟨⟨by decide, not_mem_IntToString status⟩, by decide⟩, not_mem_reason status⟩

theorem separated_oneLine (key value : Bytes) :
    OneLine (key ++ ascii ": " ++ value) ↔ OneLine key ∧ OneLine value := by
  have hblank : OneLine (32 :: value) ↔ OneLine value := by
    have haround := unbroken_around (a := (13 : UInt8)) (b := 10) (c := 32) (by decide) (by decide)
      [] value
    exact haround.trans (and_iff_right unbroken_nil)
  rw [← hblank, List.append_assoc]
  exact unbroken_around (c := 58) (by decide) (by decide) key (32 :: value)

theorem cookieLine_oneLine (cookie : Bytes) : OneLine (cookieLine cookie) ↔ OneLine cookie := by
  have hkey : OneLine (ascii "Set-Cookie") := unbroken_of_not_mem (by decide)
  have hsplit := separated_oneLine (ascii "Set-Cookie") cookie
  rw [and_iff_right hkey] at hsplit
  exact hsplit

/-- A head splits into its lines exactly when its hints are clean. -/
theorem headSplits_iff_clean (status : ℤ) (hints : ResHints) :
    HeadSplits status hints ↔ CleanHints True hints := by
  rw [headSplits_iff]
  constructor
  · intro h
    constructor
    · intro e he
      have hline := (separated_oneLine e.1 e.2).mp (h (headerLine e)
        (List.mem_append_left _ (List.mem_append_left _
          (List.mem_cons_of_mem _ (List.mem_map_of_mem he)))))
      exact ⟨hline.1, fun _ => hline.2⟩
    · intro cookie hcookie
      refine (cookieLine_oneLine cookie).mp (h (cookieLine cookie) ?_)
      exact List.mem_append_left _ (List.mem_append_right _ (List.mem_map_of_mem hcookie))
  · intro hclean line hline
    rcases List.mem_append.mp hline with hline | hempty
    · rcases List.mem_append.mp hline with hline | hline
      · rcases List.mem_cons.mp hline with rfl | hheader
        · exact statusLine_oneLine status
        · obtain ⟨e, he, rfl⟩ := List.mem_map.mp hheader
          obtain ⟨hkey, hvalue⟩ := hclean.headers e he
          exact (separated_oneLine e.1 e.2).mpr ⟨hkey, hvalue (Or.inl trivial)⟩
      · obtain ⟨cookie, hcookie, rfl⟩ := List.mem_map.mp hline
        exact (cookieLine_oneLine cookie).mpr (hclean.cookies cookie hcookie)
    · rw [List.mem_singleton.mp hempty]
      exact unbroken_nil

section Fields

variable {dated : Prop} {hints : ResHints}

theorem fillErrorPage_clean (pages : Bytes) (h : CleanHints dated hints) :
    CleanHints dated (fillErrorPage pages hints) := by
  unfold fillErrorPage
  split
  · refine CleanHints.addHeader ?_ (unbroken_of_not_mem (by decide))
      (unbroken_of_not_mem (by decide))
    exact h.of_eq rfl rfl
  · exact h

theorem fillAdditionnalHeaders_clean {r : Request} (hr : Clean r) (h : CleanHints dated hints) :
    CleanHints dated (fillAdditionnalHeaders r hints) := by
  have hkey : OneLine (ascii "connection") := unbroken_of_not_mem (by decide)
  unfold fillAdditionnalHeaders
  split
  · split
    · exact h.addHeader hkey (hr.getHeader _)
    · exact h.addHeader hkey (unbroken_of_not_mem (by decide))
  · exact h.addHeader hkey (unbroken_of_not_mem (by decide))

theorem not_mem_allowedMethods (hints : ResHints) : 13 ∉ allowedMethods hints := by
  have htable : ∀ entry ∈ METHOD_STR, 13 ∉ entry.1 := by decide
  refine not_mem_intercalate (by decide) ?_
  intro name hname
  obtain ⟨entry, hentry, rfl⟩ := List.mem_map.mp hname
  exact htable entry (List.mem_of_mem_filter hentry)

theorem fillVerboseError_clean (h : CleanHints dated hints) :
    CleanHints dated (fillVerboseError hints) := by
  unfold fillVerboseError
  split
  · exact h.addHeader (unbroken_of_not_mem (by decide))
      (unbroken_of_not_mem (not_mem_allowedMethods hints))
  · split
    · exact h.of_eq rfl rfl
    · split
      · exact h.of_eq rfl rfl
      · split
        · exact h.of_eq rfl rfl
        · exact h

/-- The hints a response is made from are clean when the request is. -/
theorem fillResponse_clean (pages : Bytes) {r : Request} (h : Clean r) :
    CleanHints False (fillResponse pages r) :=
  (fillVerboseError_clean (fillAdditionnalHeaders_clean h
    (fillErrorPage_clean pages h.hints))).of_eq rfl rfl

/-- A header that is written anew has its new value under every spelling. -/
theorem insert_value {headers : HeaderMap} {key value : Bytes} {e : Bytes × Bytes}
    (he : e ∈ (headers.insert key value).entries) :
    e.2 = value ∧ Same iLess key e.1 = true ∨
      Same iLess key e.1 = false ∧ ∃ d ∈ headers.entries, d.2 = e.2 ∧ Same iLess d.1 e.1 = true := by
  have hfind := OrderedMap.find?_of_mem _ he
  cases hsame : Same iLess key e.1 with
  | true =>
    rw [OrderedMap.find?_insert_same _ value hsame] at hfind
    exact Or.inl ⟨(Option.some.inj hfind).symm, rfl⟩
  | false =>
    rw [OrderedMap.find?_insert_of_not_same _ value hsame] at hfind
    obtain ⟨d, hd, hvalue⟩ := Option.map_eq_some_iff.mp hfind
    have hname : Same iLess d.1 e.1 = true :=
      List.find?_some (p := fun d : Bytes × Bytes => Same iLess d.1 e.1) hd
    exact Or.inr ⟨rfl, d, List.mem_of_find?_eq_some hd, hvalue, hname⟩

theorem addUniversalHeaders_clean {date : Bytes} (hdate : dated → OneLine date)
    (h : CleanHints False hints) : CleanHints dated (addUniversalHeaders date hints) := by
  have hrest : CleanHints False ((hints.addHeader (ascii "Accept-Encoding")
      (ascii "identity")).addHeader (ascii "Accept-Ranges") (ascii "none")) := by
    refine CleanHints.addHeader ?_ (unbroken_of_not_mem (by decide))
      (unbroken_of_not_mem (by decide))
    exact h.addHeader (unbroken_of_not_mem (by decide)) (unbroken_of_not_mem (by decide))
  have hkey : OneLine (ascii "Date") := unbroken_of_not_mem (by decide)
  refine ⟨?_, hrest.cookies⟩
  intro e he
  constructor
  · rcases OrderedMap.mem_insertEntry he with hold | ⟨-, hname⟩
    · exact (hrest.headers e hold).1
    · rcases hname with hname | ⟨d, hd, hsame⟩
      · rw [hname]
        exact hkey
      · rw [← hsame]
        exact (hrest.headers d hd).1
  · intro hchecked
    rcases insert_value he with ⟨hvalue, hsame⟩ | ⟨hother, d, hd, hvalue, hsame⟩
    · rw [hvalue]
      refine hdate (hchecked.resolve_right (not_not_intro ?_))
      unfold IsDate
      rw [same_comm]
      exact hsame
    · rw [← hvalue]
      refine (hrest.headers d hd).2 (Or.inr ?_)
      intro hdated
      have hnew := same_trans ((same_comm _ _).trans hdated) hsame
      rw [hnew] at hother
      cases hother

theorem checkType_clean (h : CleanHints dated hints) : CleanHints dated (checkType hints) := by
  have htable : ∀ entry ∈ mimeType, 13 ∉ ascii entry.2 := by decide +kernel
  unfold checkType
  split
  · exact h
  · rename_i entry hfind
    split
    · exact h.addHeader (unbroken_of_not_mem (by decide))
        (unbroken_of_not_mem (htable entry (List.mem_of_find?_eq_some hfind)))
    · exact h

theorem inspectFile_clean (fs : FileSystem) (h : CleanHints dated hints) :
    CleanHints dated (inspectFile fs hints).2 := by
  unfold inspectFile
  split
  · refine checkType_clean (CleanHints.addHeader ?_ (unbroken_of_not_mem (by decide))
      (unbroken_of_not_mem (not_mem_IntToString _)))
    exact h.of_eq rfl rfl
  · exact h

theorem dynamicResponse_clean (fs : FileSystem) {date : Bytes}
    (h : CleanHints dated (addSpecificHeaders (addUniversalHeaders date hints))) :
    CleanHints dated (dynamicResponse fs date hints).2 := by
  unfold dynamicResponse
  dsimp only
  split
  · exact h
  · refine CleanHints.addHeader ?_ (unbroken_of_not_mem (by decide))
      (unbroken_of_not_mem (by decide))
    exact h.addHeader (unbroken_of_not_mem (by decide))
      (unbroken_of_not_mem (not_mem_IntToString _))

end Fields

/-- The hints that the head of a response is made from. -/
def sentHints (o : Origin) : ResHints :=
  (genResponse o.served o.date (fillResponse o.pages o.request)).2

theorem fillResponse_redirection (pages : Bytes) (r : Request) :
    (fillResponse pages r).redirection = r.resHints.redirection := by
  obtain ⟨hints, hfills, hresponse⟩ := fillResponse_fills pages r
  obtain ⟨headers, path, unlink, verboseError, rfl⟩ := hfills.fields
  rw [hresponse]
  rfl

theorem range_of_tdiv {x : ℤ} (h : x.tdiv 100 = 3) : 300 ≤ x ∧ x < 400 := by
  rw [Int.tdiv_eq_ediv] at h
  split at h
  · omega
  · rename_i hneg
    have hsign : Int.sign 100 = 1 := rfl
    rw [hsign] at h
    omega

theorem redirection_path (pages : Bytes) {r : Request} (h : r.resHints.status.tdiv 100 = 3) :
    (fillResponse pages r).path = r.resHints.path := by
  have hrange := range_of_tdiv h
  refine fillResponse_path pages ?_
  unfold KeepsPath
  omega

/-- Of a clean request, only a redirection can make hints that are not clean. -/
theorem sentHints_clean {dated : Prop} {o : Origin} (hclean : Clean o.request)
    (hdate : dated → OneLine o.date) (h100 : dated → o.request.resHints.status ≠ 100)
    (hplain : o.request.resHints.status.tdiv 100 = 3 → o.request.resHints.path = [] →
      OneLine o.request.resHints.redirection) : CleanHints dated (sentHints o) := by
  have hfilled := fillResponse_clean o.pages hclean
  have huniversal := addUniversalHeaders_clean hdate hfilled
  have hstatus := fillResponse_status o.pages o.request
  unfold sentHints genResponse
  rw [hstatus]
  split
  · rename_i hcontinue
    refine ⟨?_, hfilled.cookies⟩
    intro e he
    obtain ⟨hkey, hvalue⟩ := hfilled.headers e he
    exact ⟨hkey, fun hor => hvalue (Or.inr (hor.resolve_left fun hdated => h100 hdated hcontinue))⟩
  · split
    · rename_i hdynamic
      refine dynamicResponse_clean o.served ?_
      unfold addSpecificHeaders
      split
      · rename_i h3
        have h3' : o.request.resHints.status.tdiv 100 = 3 := by
          rw [← hstatus]
          exact h3
        refine huniversal.addHeader (unbroken_of_not_mem (by decide)) ?_
        show OneLine (fillResponse o.pages o.request).redirection
        rw [fillResponse_redirection]
        refine hplain h3' ?_
        rcases hdynamic with hempty | hok
        · rw [← redirection_path o.pages h3']
          exact hempty
        · rw [hok.1] at h3'
          cases h3'
      · exact huniversal
    · exact inspectFile_clean _ huniversal

/-- A response that cannot be made has hints that are clean. -/
theorem sentHints_failed {o : Origin} (hclean : Clean o.request)
    (hnone : (genResponse o.served o.date (fillResponse o.pages o.request)).1.isSome = false) :
    CleanHints False (sentHints o) := by
  refine sentHints_clean hclean False.elim False.elim ?_
  intro h3 hempty
  have hother : (fillResponse o.pages o.request).status ≠ RES_OK := by
    rw [fillResponse_status]
    intro hok
    rw [hok] at h3
    cases h3
  rw [genResponse_made o.served o.date ((redirection_path o.pages h3).trans hempty) hother] at hnone
  cases hnone

end Webserveau.ResponseHeads
