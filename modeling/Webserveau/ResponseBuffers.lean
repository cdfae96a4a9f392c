import Webserveau.ResponseHeads

/-!
The loops that put a response into buffers.
Heads and bodies in memory are cut by erasing what was pushed, files by reading until the
stream is no longer good. Both give the same buffers, and the length that was announced is
the length of what they hold.
-/
namespace Webserveau.ResponseBuffers

open ByteStrings OrderedMaps Numerals Formats Requests Clients ResponseHeads

/-- Portions are pushed and erased until the text is empty. -/
def eraseLoop (text : Bytes) : List Bytes :=
  if text = [] then []
  else
    let portion := text.take BUFFER_SIZE
    portion :: eraseLoop (text.drop portion.length)
termination_by text.length
decreasing_by
  rename_i hmore
  have hpos := List.length_pos_iff.mpr hmore
  rw [List.length_drop, List.length_take]
  simp only [BUFFER_SIZE]
  omega

/-- The stream is read until it gives nothing, or less than it was asked for. -/
def readLoop (stream : Bytes) : List Bytes :=
  let buff := stream.take BUFFER_SIZE
  let gcount := buff.length
  if gcount = 0 then []
  else
    let good := gcount = BUFFER_SIZE
    buff :: if good then readLoop (stream.drop gcount) else []
termination_by stream.length
decreasing_by
  rename_i hread _
  have hsome : ¬ (stream.take BUFFER_SIZE).length = 0 := hread
  rw [List.length_drop]
  rw [List.length_take] at hsome ⊢
  omega

/-- The loop over a body tests the method every time. -/
def bodyLoop (method : Option Method) (body : Bytes) : List Bytes :=
  if body ≠ [] ∧ method ≠ some .HEAD then
    let portion := body.take BUFFER_SIZE
    portion :: bodyLoop method (body.drop portion.length)
  else []
termination_by body.length
decreasing_by
  rename_i hmore
  have hpos := List.length_pos_iff.mpr hmore.1
  rw [List.length_drop, List.length_take]
  simp only [BUFFER_SIZE]
  omega

/-- The buffers a response pushes. -/
def writeResponse (hints : ResHints) : Response → List Bytes
  | .singleLine _ _ => eraseLoop (ascii "HTTP/1.1 100 Continue" ++ CRLF)
  | .file status _ _ stream =>
    eraseLoop (formatHeaders status hints) ++
      if hints.method = some .HEAD then [] else readLoop stream
  | .dynamic status _ body =>
    eraseLoop (formatHeaders status hints) ++ bodyLoop hints.method body

/-- The portions of a text do not depend on how long the cut may go on. -/
theorem portions_fuel {fuel : ℕ} {text : Bytes} (h : text.length ≤ fuel) :
    portions fuel text = portionsOf text := by
  unfold portionsOf
  induction fuel using Nat.strong_induction_on generalizing text with
  | _ fuel ih =>
    cases fuel with
    | zero => rw [List.eq_nil_of_length_eq_zero (Nat.le_zero.mp h), List.length_nil]
    | succ fuel =>
      cases text with
      | nil => rfl
      | cons c text =>
        have hdrop : ((c :: text).drop BUFFER_SIZE).length ≤ text.length := by
          rw [List.length_drop, List.length_cons]
          simp only [BUFFER_SIZE]
          omega
        have htext : text.length ≤ fuel := by
          rw [List.length_cons] at h
          omega
        show _ :: portions fuel _ = _ :: portions text.length _
        rw [ih fuel (Nat.lt_succ_self fuel) (hdrop.trans htext)]
        rw [ih text.length (by omega) hdrop]

theorem portionsOf_cons {text : Bytes} (h : text ≠ []) :
    portionsOf text = text.take BUFFER_SIZE :: portionsOf (text.drop BUFFER_SIZE) := by
  obtain ⟨c, rest, rfl⟩ := List.exists_cons_of_ne_nil h
  show _ :: portions rest.length _ = _
  rw [portions_fuel]
  rw [List.length_drop, List.length_cons]
  simp only [BUFFER_SIZE]
  omega

theorem drop_portion (text : Bytes) :
    text.drop (text.take BUFFER_SIZE).length = text.drop BUFFER_SIZE := by
  rw [List.length_take]
  rcases Nat.le_total BUFFER_SIZE text.length with hle | hle
  · rw [Nat.min_eq_left hle]
  · rw [Nat.min_eq_right hle, List.drop_length, List.drop_eq_nil_of_le hle]

theorem eraseLoop_eq (text : Bytes) : eraseLoop text = portionsOf text := by
  induction text using eraseLoop.induct with
  | case1 => rw [eraseLoop, if_pos rfl]; rfl
  | case2 text hmore portion ih =>
    rw [eraseLoop, if_neg hmore, portionsOf_cons hmore]
    show _ :: eraseLoop (text.drop portion.length) = _
    rw [ih, drop_portion]

theorem bodyLoop_eq (method : Option Method) (body : Bytes) :
    bodyLoop method body = if method = some .HEAD then [] else portionsOf body := by
  by_cases hhead : method = some .HEAD
  · rw [bodyLoop, if_pos hhead, if_neg (fun h => h.2 hhead)]
  · rw [if_neg hhead, ← eraseLoop_eq]
    induction body using eraseLoop.induct with
    | case1 => rw [bodyLoop, eraseLoop, if_pos rfl, if_neg (fun h => h.1 rfl)]
    | case2 body hmore portion ih =>
      rw [bodyLoop, eraseLoop, if_neg hmore, if_pos ⟨hmore, hhead⟩]
      exact congrArg _ ih

theorem readLoop_eq (stream : Bytes) : readLoop stream = portionsOf stream := by
  induction stream using Nat.strongRecMeasure List.length with
  | ind stream ih =>
    by_cases hend : stream = []
    · rw [hend, readLoop]; rfl
    · have hpos := List.length_pos_iff.mpr hend
      have hread : (stream.take BUFFER_SIZE).length ≠ 0 := by
        rw [List.length_take]
        simp only [BUFFER_SIZE]
        omega
      rw [readLoop, if_neg hread, portionsOf_cons hend]
      dsimp only
      by_cases hgood : (stream.take BUFFER_SIZE).length = BUFFER_SIZE
      · have hshorter : (stream.drop (stream.take BUFFER_SIZE).length).length < stream.length := by
          rw [List.length_drop]
          omega
        rw [if_pos hgood, ih _ hshorter, drop_portion]
      · have hshort : stream.length ≤ BUFFER_SIZE := by
          rw [List.length_take] at hgood
          omega
        rw [if_neg hgood, List.drop_eq_nil_of_le hshort]
        rfl

/-- The loops push the buffers that the queue is given. -/
theorem writeResponse_eq (hints : ResHints) (response : Response) :
    writeResponse hints response = response.buffers hints := by
  cases response with
  | singleLine status description => exact eraseLoop_eq _
  | file status description path stream =>
    show eraseLoop _ ++ _ = portionsOf _ ++ _
    rw [eraseLoop_eq, readLoop_eq]
  | dynamic status description body =>
    show eraseLoop _ ++ _ = portionsOf _ ++ _
    rw [eraseLoop_eq, bodyLoop_eq]

theorem portionsOf_flatten (text : Bytes) : (portionsOf text).flatten = text := by
  rw [← eraseLoop_eq]
  induction text using eraseLoop.induct with
  | case1 => rw [eraseLoop, if_pos rfl]; rfl
  | case2 text hmore portion ih =>
    rw [eraseLoop, if_neg hmore]
    show portion ++ (eraseLoop (text.drop portion.length)).flatten = text
    rw [ih, drop_portion]
    exact List.take_append_drop _ _

theorem portionsOf_sizes (text : Bytes) :
    ∀ portion ∈ portionsOf text, portion ≠ [] ∧ portion.length ≤ BUFFER_SIZE := by
  rw [← eraseLoop_eq]
  induction text using eraseLoop.induct with
  | case1 =>
    rw [eraseLoop, if_pos rfl]
    intro portion hin
    cases hin
  | case2 text hmore portion ih =>
    rw [eraseLoop, if_neg hmore]
    intro other hin
    rcases List.mem_cons.mp hin with rfl | hin
    · refine ⟨?_, List.length_take_le ..⟩
      intro hnone
      rcases List.take_eq_nil_iff.mp hnone with hsize | htext
      · cases hsize
      · exact hmore htext
    · exact ih other hin

/-- The fields of a head: its headers and a field for each cookie. -/
def fields (hints : ResHints) : List (Bytes × Bytes) :=
  hints.headers.entries ++ hints.cookies.map fun cookie => (ascii "Set-Cookie", cookie)

/-- A head is its status line, its fields and the empty line. -/
theorem formatHeaders_fields (status : ℤ) (hints : ResHints) :
    formatHeaders status hints =
      statusLine status ++ CRLF ++ (fields hints).flatMap (fun f => headerLine f ++ CRLF) ++
        CRLF := by
  unfold formatHeaders fields
  rw [List.flatMap_append, List.flatMap_map]
  simp only [statusLine, headerLine, List.append_assoc]
  rfl

/-- The values of the fields of a name, in any spelling. -/
def valuesOf (name : Bytes) (hints : ResHints) : List Bytes :=
  ((fields hints).filter fun f => Same iLess f.1 name).map Prod.snd

/-- The buffers of a response hold its head and a body, which a request by HEAD does
not get, and the head has one length field, for this body. -/
structure Exact (response : Response) (hints : ResHints) (body : Bytes) : Prop where
  sizes : ∀ buffer ∈ writeResponse hints response, buffer ≠ [] ∧ buffer.length ≤ BUFFER_SIZE
  whole : (writeResponse hints response).flatten =
    formatHeaders response.getStatus hints ++ if hints.method = some .HEAD then [] else body
  length : valuesOf (ascii "Content-Length") hints = [numeral 10 body.length]

theorem valuesOf_length {hints : ResHints} {value : Bytes}
    (h : hints.headers.find? (ascii "Content-Length") = some value) :
    valuesOf (ascii "Content-Length") hints = [value] := by
  obtain ⟨name, -, hfilter⟩ := OrderedMap.filter_same h
  unfold valuesOf fields
  rw [List.filter_append, hfilter, List.filter_eq_nil_iff.mpr]
  · rfl
  · intro f hf
    obtain ⟨cookie, -, rfl⟩ := List.mem_map.mp hf
    exact (by decide : ¬ Same iLess (ascii "Set-Cookie") (ascii "Content-Length") = true)

theorem mem_portions_head {status : ℤ} {hints : ResHints} {body buffer : Bytes}
    (h : buffer ∈ portionsOf (formatHeaders status hints) ++
      if hints.method = some .HEAD then [] else portionsOf body) :
    buffer ≠ [] ∧ buffer.length ≤ BUFFER_SIZE := by
  rcases List.mem_append.mp h with hhead | hbody
  · exact portionsOf_sizes _ _ hhead
  · split at hbody
    · cases hbody
    · exact portionsOf_sizes _ _ hbody

theorem flatten_portions_head (status : ℤ) (hints : ResHints) (body : Bytes) :
    (portionsOf (formatHeaders status hints) ++
      if hints.method = some .HEAD then [] else portionsOf body).flatten =
    formatHeaders status hints ++ if hints.method = some .HEAD then [] else body := by
  rw [List.flatten_append, portionsOf_flatten]
  split
  · rfl
  · rw [portionsOf_flatten]

theorem exact_file {status : ℤ} {description path stream : Bytes} {hints : ResHints}
    (h : hints.headers.find? (ascii "Content-Length") = some (numeral 10 stream.length)) :
    Exact (.file status description path stream) hints stream where
  sizes buffer hbuffer := by
    rw [writeResponse_eq] at hbuffer
    exact mem_portions_head hbuffer
  whole := by
    rw [writeResponse_eq]
    exact flatten_portions_head status hints stream
  length := valuesOf_length h

theorem exact_dynamic {status : ℤ} {description body : Bytes} {hints : ResHints}
    (h : hints.headers.find? (ascii "Content-Length") = some (numeral 10 body.length)) :
    Exact (.dynamic status description body) hints body where
  sizes buffer hbuffer := by
    rw [writeResponse_eq] at hbuffer
    exact mem_portions_head hbuffer
  whole := by
    rw [writeResponse_eq]
    exact flatten_portions_head status hints body
  length := valuesOf_length h

/-- The end of `generateBody`. -/
def announceBody (body : Bytes) (hints : ResHints) : ResHints :=
  (hints.addHeader (ascii "Content-Length") (IntToString body.length)).addHeader
    (ascii "Content-Type") (ascii "text/html")

theorem IntToString_natCast (n : ℕ) : IntToString n = numeral 10 n := by
  unfold IntToString
  rw [if_neg (by omega), Int.natAbs_natCast]

theorem announceBody_length (body : Bytes) (hints : ResHints) :
    (announceBody body hints).headers.find? (ascii "Content-Length") =
      some (numeral 10 body.length) := by
  unfold announceBody ResHints.addHeader
  rw [OrderedMap.find?_insert_of_not_same _ _ (by decide), OrderedMap.find?_insert_self,
    IntToString_natCast]

/-- A body that is made is announced. -/
theorem dynamicResponse_made {fs : FileSystem} {date : Bytes} {hints sent : ResHints}
    {response : Response} (h : dynamicResponse fs date hints = (some response, sent)) :
    ∃ body, generateBody fs (addSpecificHeaders (addUniversalHeaders date hints)) = some body ∧
      response = .dynamic hints.status hints.verboseError body ∧
      sent = announceBody body (addSpecificHeaders (addUniversalHeaders date hints)) := by
  unfold dynamicResponse at h
  dsimp only at h
  cases hbody : generateBody fs (addSpecificHeaders (addUniversalHeaders date hints)) with
  | none =>
    rw [hbody] at h
    cases (Prod.mk.inj h).1
  | some body =>
    rw [hbody] at h
    obtain ⟨hresponse, hsent⟩ := Prod.mk.inj h
    exact ⟨body, rfl, (Option.some.inj hresponse).symm, hsent.symm⟩

theorem checkType_find (hints : ResHints) :
    (checkType hints).headers.find? (ascii "Content-Length") =
      hints.headers.find? (ascii "Content-Length") := by
  unfold checkType
  split
  · rfl
  · split
    · exact OrderedMap.find?_insert_of_not_same _ _ (by decide)
    · rfl

/-- A file that can be looked at and opened is announced from the index on. -/
theorem fileResponse_made {fs : FileSystem} {hints : ResHints} {kind : FileType} {F : Bytes}
    (hstat : fs.stat hints.path = some (kind, F.length))
    (hcontent : fs.content hints.path = some F) (hindex : hints.index ≤ F.length)
    (hsize : F.length < 2 ^ 63) (date : Bytes) :
    (fileResponse fs date hints).1 = some (.file hints.status hints.verboseError hints.path
      (F.drop hints.index)) ∧
    (fileResponse fs date hints).2.headers.find? (ascii "Content-Length") =
      some (numeral 10 (F.drop hints.index).length) := by
  have hlength : toSize ((F.length : ℤ) - hints.index) = (F.drop hints.index).length := by
    rw [List.length_drop]
    unfold toSize
    omega
  have hinspect : inspectFile fs (addUniversalHeaders date hints) =
      (some (F.drop hints.index),
        checkType (({ addUniversalHeaders date hints with index := 0 } : ResHints).addHeader
          (ascii "Content-Length") (IntToString (F.drop hints.index).length))) := by
    unfold inspectFile
    rw [show (addUniversalHeaders date hints).path = hints.path from rfl, hstat, hcontent]
    rw [← hlength]
    rfl
  unfold fileResponse
  rw [hinspect]
  refine ⟨rfl, ?_⟩
  rw [checkType_find, ← IntToString_natCast]
  exact OrderedMap.find?_insert_self _ _ _

/-- File responses and dynamic responses are put into buffers exactly. -/
theorem responses_exact (fs : FileSystem) (date : Bytes) (hints : ResHints) :
    (∀ kind F, fs.stat hints.path = some (kind, F.length) → fs.content hints.path = some F →
      hints.index ≤ F.length → F.length < 2 ^ 63 →
      ∃ response sent, fileResponse fs date hints = (some response, sent) ∧
        Exact response sent (F.drop hints.index)) ∧
    (∀ status description body,
      Exact (.dynamic status description body) (announceBody body hints) body) ∧
    ∀ response sent, dynamicResponse fs date hints = (some response, sent) →
      ∃ body, response = .dynamic hints.status hints.verboseError body ∧
        Exact response sent body := by
  refine ⟨?_, ?_, ?_⟩
  · intro kind F hstat hcontent hindex hsize
    obtain ⟨hresponse, hannounced⟩ := fileResponse_made hstat hcontent hindex hsize date
    refine ⟨_, (fileResponse fs date hints).2, Prod.ext hresponse rfl, ?_⟩
    exact exact_file hannounced
  · intro status description body
    exact exact_dynamic (announceBody_length body hints)
  · intro response sent hmade
    obtain ⟨body, -, rfl, rfl⟩ := dynamicResponse_made hmade
    exact ⟨body, rfl, exact_dynamic (announceBody_length body _)⟩

/-- One file, of three bytes. -/
def smallFile : FileSystem where
  stat path := if path = ascii "f" then some (.regular, 3) else none
  readable _ := true
  writable _ := true
  content path := if path = ascii "f" then some (ascii "abc") else none
  entries _ := none

theorem small_file_exact :
    ∃ response sent, fileResponse smallFile [] { path := ascii "f", index := 1 } =
        (some response, sent) ∧ Exact response sent (ascii "bc") :=
  (responses_exact smallFile [] { path := ascii "f", index := 1 }).1 .regular (ascii "abc") rfl rfl
    (by decide) (by decide)

end Webserveau.ResponseBuffers
