import Webserveau.CgiOutputs
import Webserveau.DelimitedTexts

/-!
Header sections of cgi outputs.
The section is read from the first `BUFFER_SIZE` bytes, and names are compared up to a NUL.
A section that fits, and whose names do not come together by that comparison, is split as it
is written: the index is its length, cookies are collected, and the last value of a name
stays.
-/
namespace Webserveau.CgiSections

open ByteStrings OrderedMaps Formats Requests DelimitedTexts CgiOutputs

/-- A line of the section: free of CRLF, and with a colon. -/
structure IsHeader (line : Bytes) : Prop where
  unbroken : Unbroken 13 10 line
  colon : 58 ∈ line

def fieldKey (line : Bytes) : Bytes := line.takeWhile (· ≠ 58)

/-- The text behind the colon and the spaces that follow it. -/
def fieldText (line : Bytes) : Bytes := (line.dropWhile (· ≠ 58)).tail.dropWhile (· = 32)

/-- The header lines and the empty line. -/
def headerSection (lines : List Bytes) : Bytes := terminate 13 10 lines ++ CRLF

/-- One name, in any letter case. -/
def Named (name key : Bytes) : Prop := key.map lowercase = name.map lowercase

instance (name key : Bytes) : Decidable (Named name key) := by
  unfold Named
  infer_instance

/-- One name for the comparison of the code. -/
def Alike (name key : Bytes) : Prop := folded key = folded name

instance (name key : Bytes) : Decidable (Alike name key) := by
  unfold Alike
  infer_instance

abbrev COOKIE : Bytes := ascii "Set-Cookie"
abbrev LOCATION : Bytes := ascii "Location"

/-- The last value of the fields whose names have a property. -/
def lastText (P : Bytes → Prop) [DecidablePred P] (lines : List Bytes) : Option Bytes :=
  (lines.filter fun line => P (fieldKey line)).getLast?.map fieldText

theorem folded_eq (s : Bytes) :
    folded s = ((s.map lowercase).takeWhile (· ≠ 0)).map UInt8.toNat := by
  induction s with
  | nil => rfl
  | cons c s ih =>
    by_cases hc : c = 0
    · subst hc
      rfl
    · have hlower : lowercase c ≠ 0 := fun h => hc ((lowercase_eq_zero_iff c).mp h)
      rw [folded_cons hc, ih, List.map_cons, List.takeWhile_cons_of_pos (by simpa using hlower)]
      rfl

theorem Named.alike {name key : Bytes} (h : Named name key) : Alike name key := by
  unfold Alike
  rw [folded_eq, folded_eq, h]

/-- Names without NUL are compared as a whole. -/
theorem alike_iff {name key : Bytes} (hname : 0 ∉ name) (hkey : 0 ∉ key) :
    Alike name key ↔ Named name key := by
  have hwhole : ∀ s : Bytes, 0 ∉ s → folded s = (s.map lowercase).map UInt8.toNat := by
    intro s hs
    rw [folded_eq, List.takeWhile_eq_self_iff.mpr]
    intro c hc
    obtain ⟨d, hd, rfl⟩ := List.mem_map.mp hc
    rw [decide_eq_true_eq]
    intro hzero
    rw [(lowercase_eq_zero_iff d).mp hzero] at hd
    exact hs hd
  constructor
  · intro h
    unfold Alike at h
    rw [hwhole name hname, hwhole key hkey] at h
    exact List.map_injective_iff.mpr (fun _ _ h => UInt8.toNat_inj.mp h) h
  · exact Named.alike

theorem stricmp_eq_zero_iff (a b : Bytes) : stricmp a b = 0 ↔ folded a = folded b := by
  induction a generalizing b with
  | nil =>
    cases b with
    | nil => simp [stricmp, deref, lowercase]
    | cons d b =>
      by_cases hd : d = 0
      · subst d
        simp [stricmp, deref, lowercase]
      · have hpos := lowercase_pos hd
        rw [folded_nil, folded_cons hd]
        refine iff_of_false ?_ (List.cons_ne_nil _ _).symm
        simp only [stricmp, deref, List.headD_cons]
        omega
  | cons c a ih =>
    by_cases hc : c = 0
    · subst c
      have h0 : lowercase 0 = 0 := rfl
      simp only [stricmp, ne_eq, not_true_eq_false, false_and, if_false, h0, folded_cons_zero]
      cases b with
      | nil => simp [deref, h0]
      | cons d b =>
        by_cases hd : d = 0
        · subst d
          simp [deref, h0]
        · have hpos := lowercase_pos hd
          rw [folded_cons hd]
          refine iff_of_false ?_ (List.cons_ne_nil _ _).symm
          simp only [deref, List.headD_cons, UInt8.toNat_zero]
          omega
    · have hlc : lowercase c ≠ 0 := fun h => hc ((lowercase_eq_zero_iff c).mp h)
      have hpos := lowercase_pos hc
      rw [folded_cons hc]
      cases b with
      | nil =>
        have h0 : lowercase (deref []) = 0 := rfl
        simp only [stricmp, ne_eq, hc, not_false_eq_true, true_and, h0, hlc, if_false, folded_nil]
        refine iff_of_false ?_ (List.cons_ne_nil _ _)
        simp only [UInt8.toNat_zero]
        omega
      | cons d b =>
        by_cases hd : d = 0
        · subst d
          have h0 : lowercase (deref (0 :: b)) = 0 := rfl
          simp only [stricmp, ne_eq, hc, not_false_eq_true, true_and, h0, hlc, if_false,
            folded_cons_zero]
          refine iff_of_false ?_ (List.cons_ne_nil _ _)
          simp only [UInt8.toNat_zero]
          omega
        · rw [folded_cons hd, List.cons.injEq]
          simp only [stricmp, ne_eq, hc, not_false_eq_true, true_and, deref, List.headD_cons,
            List.tail_cons]
          split
          · rename_i heq
            simp [heq, ih]
          · rename_i hne
            have hne' : (lowercase c).toNat ≠ (lowercase d).toNat :=
              fun h => hne (UInt8.toNat_inj.mp h)
            refine iff_of_false ?_ fun h => hne' h.1
            omega

theorem lastText_cons (P : Bytes → Prop) [DecidablePred P] (line : Bytes) (lines : List Bytes) :
    lastText P (line :: lines) =
      (lastText P lines).or (if P (fieldKey line) then some (fieldText line) else none) := by
  unfold lastText
  by_cases hline : P (fieldKey line)
  · rw [List.filter_cons_of_pos (by simpa using hline), if_pos hline]
    cases hrest : lines.filter fun line => P (fieldKey line) with
    | nil => rfl
    | cons next rest => rw [List.getLast?_cons_cons, List.getLast?_cons]; rfl
  · rw [List.filter_cons_of_neg (by simpa using hline), if_neg hline, Option.or_none]

/-- The reader behind a line. -/
def taken (p : CgiReader) (line : Bytes) : CgiReader :=
  if Alike COOKIE (fieldKey line) then { p with
    hints := { p.hints with cookies := p.hints.cookies ++ [fieldText line] }
    line := []
    index := p.index + (line.length + 2) }
  else { p with
    headers := p.headers.insert (fieldKey line) (fieldText line)
    line := []
    index := p.index + (line.length + 2) }

theorem extractHeader_eq (p : CgiReader) {line : Bytes} (h : 58 ∈ line) :
    CgiReader.extractHeader { p with line := line, index := p.index + (line.length + 2) } =
      .ok (0, taken p line) := by
  have hfind : find (ascii ":") line = some (fieldKey line).length :=
    (find_singleton 58 line).trans (if_pos h)
  have hsplit := split_at_mem h
  have hle : (fieldKey line).length + 1 ≤ line.length := by
    have hlength := congrArg List.length hsplit
    rw [List.length_append, List.length_cons] at hlength
    unfold fieldKey
    omega
  have hkey : line.take (fieldKey line).length = fieldKey line := take_length_takeWhile _ line
  have htail : line.drop ((fieldKey line).length + 1) = (line.dropWhile (· ≠ 58)).tail := by
    unfold fieldKey
    rw [← List.drop_drop, drop_length_takeWhile, List.drop_one]
  have hall : (line.drop ((fieldKey line).length + 1)).take line.length =
      (line.dropWhile (· ≠ 58)).tail := by
    rw [List.take_of_length_le, htail]
    rw [List.length_drop]
    omega
  unfold CgiReader.extractHeader taken
  by_cases hcookie : Alike COOKIE (fieldKey line)
  · have hzero : stricmp (fieldKey line) (ascii "Set-Cookie") = 0 :=
      (stricmp_eq_zero_iff _ _).mpr hcookie
    simp only [hfind, substr_zero, substr_of_le _ hle, hkey, hall, bind, Except.bind, hzero,
      if_true]
    rw [if_pos hcookie]
    rfl
  · have hother : stricmp (fieldKey line) (ascii "Set-Cookie") ≠ 0 :=
      fun hzero => hcookie ((stricmp_eq_zero_iff _ _).mp hzero)
    simp only [hfind, substr_zero, substr_of_le _ hle, hkey, hall, bind, Except.bind, hother,
      if_false]
    rw [if_neg hcookie]
    rfl

theorem readLines_line (fuel : ℕ) (p : CgiReader) {line : Bytes} (h : IsHeader line) (rest : Bytes) :
    p.readLines (fuel + 1) (line ++ CRLF ++ rest) = (taken p line).readLines fuel rest := by
  have hcut : cutAt 13 10 (line ++ CRLF ++ rest) = some (line, rest) :=
    (cutAt_eq_some_iff (by decide)).mpr ⟨rfl, h.unbroken⟩
  have hne : line ≠ [] := List.ne_nil_of_mem h.colon
  rw [CgiReader.readLines, getLine_eq, hcut]
  simp only [Option.map_some, bind, Except.bind, extractHeader_eq p h.colon]
  rw [if_neg hne]
  rfl

theorem readLines_blank (fuel : ℕ) (p : CgiReader) (rest : Bytes) :
    p.readLines (fuel + 1) (CRLF ++ rest) = .ok (0, { p with line := [], index := p.index + 2 }) := by
  have hcut : cutAt 13 10 (CRLF ++ rest) = some ([], rest) :=
    (cutAt_eq_some_iff (by decide)).mpr ⟨rfl, unbroken_nil⟩
  rw [CgiReader.readLines, getLine_eq, hcut]
  rfl

/-- A section that is read as a whole. -/
theorem readLines_section {lines : List Bytes} (h : ∀ line ∈ lines, IsHeader line) (rest : Bytes)
    {fuel : ℕ} (hfuel : lines.length < fuel) (p : CgiReader) :
    p.readLines fuel (headerSection lines ++ rest) =
      .ok (0, { lines.foldl taken p with line := [], index := (lines.foldl taken p).index + 2 }) := by
  induction lines generalizing fuel p with
  | nil =>
    obtain ⟨fuel, rfl⟩ := Nat.exists_eq_succ_of_ne_zero (by omega : fuel ≠ 0)
    exact readLines_blank fuel p rest
  | cons line lines ih =>
    obtain ⟨fuel, rfl⟩ := Nat.exists_eq_succ_of_ne_zero (by omega : fuel ≠ 0)
    have hshort : lines.length < fuel := by
      rw [List.length_cons] at hfuel
      omega
    have htext : headerSection (line :: lines) ++ rest =
        line ++ CRLF ++ (headerSection lines ++ rest) := by
      unfold headerSection
      rw [terminate_cons]
      simp only [List.append_assoc]
      rfl
    rw [htext, readLines_line fuel p (h line (List.mem_cons_self ..)),
      ih (fun l hl => h l (List.mem_cons_of_mem _ hl)) hshort]
    rfl

theorem taken_index (p : CgiReader) (line : Bytes) :
    (taken p line).index = p.index + (line.length + 2) := by
  unfold taken
  split
  · rfl
  · rfl

theorem foldl_taken_index (lines : List Bytes) (p : CgiReader) :
    (lines.foldl taken p).index + 2 = p.index + (headerSection lines).length := by
  induction lines generalizing p with
  | nil => rfl
  | cons line lines ih =>
    rw [List.foldl_cons, ih, taken_index]
    unfold headerSection
    rw [terminate_cons]
    simp only [List.length_append, List.length_cons, List.length_nil]
    omega

theorem foldl_taken_hints (lines : List Bytes) (p : CgiReader) :
    (lines.foldl taken p).hints = { p.hints with
      cookies := p.hints.cookies ++
        (lines.filter fun line => Alike COOKIE (fieldKey line)).map fieldText } := by
  induction lines generalizing p with
  | nil =>
    rw [List.filter_nil, List.map_nil, List.append_nil]
    rfl
  | cons line lines ih =>
    rw [List.foldl_cons, ih]
    unfold taken
    by_cases hline : Alike COOKIE (fieldKey line)
    · rw [if_pos hline, List.filter_cons_of_pos (by simpa using hline), List.map_cons]
      simp only [List.append_assoc, List.singleton_append]
    · rw [if_neg hline, List.filter_cons_of_neg (by simpa using hline)]

/-- A name is looked up among the fields that are no cookies. -/
theorem foldl_taken_find (lines : List Bytes) (p : CgiReader) {key : Bytes}
    (h : ¬ Alike COOKIE key) :
    (lines.foldl taken p).headers.find? key =
      (lastText (Alike key) lines).or (p.headers.find? key) := by
  induction lines generalizing p with
  | nil => rfl
  | cons line lines ih =>
    rw [List.foldl_cons, ih, lastText_cons, Option.or_assoc]
    congr 1
    unfold taken
    by_cases hline : Alike COOKIE (fieldKey line)
    · have hother : ¬ Alike key (fieldKey line) := fun hsame => h (hsame.symm.trans hline)
      rw [if_pos hline, if_neg hother]
      rfl
    · rw [if_neg hline]
      dsimp only
      rw [OrderedMap.find?_insert]
      by_cases hsame : Alike key (fieldKey line)
      · rw [if_pos hsame, if_pos ((same_iLess_iff _ _).mpr hsame)]
        rfl
      · rw [if_neg hsame, if_neg fun hs => hsame ((same_iLess_iff _ _).mp hs)]
        rfl

theorem extractHeader_index {p p' : CgiReader} {res : ℤ} (h : p.extractHeader = .ok (res, p')) :
    p'.index = p.index := by
  unfold CgiReader.extractHeader at h
  cases hfind : find (ascii ":") p.line with
  | none =>
    rw [hfind] at h
    cases h
    rfl
  | some idx =>
    rw [hfind] at h
    obtain ⟨key, -, h⟩ := bind_eq_ok_iff.mp h
    obtain ⟨value, -, h⟩ := bind_eq_ok_iff.mp h
    dsimp only at h
    split at h
    · cases h
      rfl
    · cases h
      rfl

/-- The index never leaves what was read. -/
theorem readLines_index_le {fuel : ℕ} {p p' : CgiReader} {buffer : Bytes} {res : ℤ}
    (h : p.readLines fuel buffer = .ok (res, p')) : p'.index ≤ p.index + buffer.length := by
  induction fuel generalizing p buffer with
  | zero =>
    cases h
    exact Nat.le_add_right _ _
  | succ fuel ih =>
    rw [CgiReader.readLines, getLine_eq] at h
    cases hcut : cutAt 13 10 buffer with
    | none =>
      rw [hcut] at h
      cases h
      exact Nat.le_add_right _ _
    | some out =>
      obtain ⟨front, rest⟩ := out
      have hlength := cutAt_length hcut
      rw [hcut] at h
      simp only [Option.map_some, bind, Except.bind] at h
      by_cases hfront : front = []
      · rw [if_pos hfront] at h
        cases h
        dsimp only
        omega
      · rw [if_neg hfront] at h
        cases hextract : CgiReader.extractHeader
            { p with line := front, index := p.index + (front.length + 2) } with
        | error e =>
          rw [hextract] at h
          cases h
        | ok out =>
          obtain ⟨code, q⟩ := out
          have hindex := extractHeader_index hextract
          dsimp only at hindex
          rw [hextract] at h
          dsimp only at h
          by_cases hcode : code ≠ 0
          · rw [if_pos hcode] at h
            cases h
            dsimp only
            omega
          · rw [if_neg hcode] at h
            have hrest := ih h
            omega

/-- What the verdict changes of the hints: a redirection the server follows itself has no
body of its own. -/
theorem inspectHeaders_hints (headers : HeaderMap) (r : Request) :
    (Request.inspectHeaders headers r).2.resHints.path = r.resHints.path ∧
      (Request.inspectHeaders headers r).2.resHints.cookies = r.resHints.cookies ∧
      (Request.inspectHeaders headers r).2.resHints.index =
        if (headers.find? LOCATION).bind List.head? = some 47 then 0 else r.resHints.index := by
  have hempty : headers.entries = [] → headers.find? LOCATION = none := by
    intro hnil
    unfold OrderedMap.find?
    rw [hnil]
    rfl
  have hscheme : (headers.find? LOCATION).map (List.take 7) = some (ascii "http://") →
      (headers.find? LOCATION).bind List.head? ≠ some 47 := by
    intro htake hslash
    obtain ⟨value, hvalue, hvtake⟩ := Option.map_eq_some_iff.mp htake
    rw [hvalue] at hslash
    have hhead : value.head? = some 47 := hslash
    cases value with
    | nil => cases hhead
    | cons c value =>
      obtain rfl : c = 47 := Option.some.inj hhead
      have hfirst : (47 : UInt8) = 104 := (List.cons.inj hvtake).1
      exact absurd hfirst (by decide)
  have htype : ∀ hints : ResHints, (Request.retrieveType headers hints).path = hints.path ∧
      (Request.retrieveType headers hints).cookies = hints.cookies ∧
      (Request.retrieveType headers hints).index = hints.index := by
    intro hints
    unfold Request.retrieveType
    split
    · exact ⟨rfl, rfl, rfl⟩
    · exact ⟨rfl, rfl, rfl⟩
  unfold Request.inspectHeaders
  dsimp only
  by_cases hnil : headers.entries = []
  · rw [if_pos hnil, hempty hnil]
    exact ⟨rfl, rfl, rfl⟩
  · rw [if_neg hnil]
    by_cases hhttp : (headers.find? LOCATION).map (List.take 7) = some (ascii "http://")
    · rw [if_pos hhttp, if_neg (hscheme hhttp)]
      exact htype _
    · rw [if_neg hhttp]
      by_cases hslash : (headers.find? LOCATION).bind List.head? = some 47
      · rw [if_pos hslash, if_pos hslash]
        exact ⟨rfl, rfl, rfl⟩
      · rw [if_neg hslash, if_neg hslash]
        split
        · exact ⟨rfl, rfl, rfl⟩
        · exact htype _

/-- The reader behind the section of an output. -/
def sectionReader (r : Request) (lines : List Bytes) : CgiReader :=
  { lines.foldl taken { hints := r.resHints } with
    line := []
    index := (headerSection lines).length }

/-- A section that fits into the buffer is read as a whole, and what follows it is not looked
at. -/
theorem parseCgiHeaders_section {fs : FileSystem} {r : Request} {lines : List Bytes} {body : Bytes}
    (hcontent : fs.content r.resHints.path = some (headerSection lines ++ body))
    (h : ∀ line ∈ lines, IsHeader line) (hfits : (headerSection lines).length ≤ BUFFER_SIZE) :
    CgiReader.readLines ((outputBuffer fs r.resHints.path).length + 1) { hints := r.resHints }
        (outputBuffer fs r.resHints.path) = .ok (0, sectionReader r lines) ∧
      r.parseCgiHeaders fs = .ok (Request.inspectHeaders (sectionReader r lines).headers
        { r with resHints := { (sectionReader r lines).hints with
          index := (headerSection lines).length } }) := by
  have hbuffer : outputBuffer fs r.resHints.path =
      headerSection lines ++ body.take (BUFFER_SIZE - (headerSection lines).length) := by
    unfold outputBuffer
    rw [hcontent, Option.getD_some, List.take_append, List.take_of_length_le hfits]
  have hfuel : lines.length < (outputBuffer fs r.resHints.path).length + 1 := by
    have hle := length_le_terminate (a := 13) (b := 10) lines
    rw [hbuffer]
    unfold headerSection
    simp only [List.length_append]
    omega
  have hread : CgiReader.readLines ((outputBuffer fs r.resHints.path).length + 1)
      { hints := r.resHints } (outputBuffer fs r.resHints.path) =
        .ok (0, sectionReader r lines) := by
    have hsection := readLines_section h
      (body.take (BUFFER_SIZE - (headerSection lines).length)) hfuel { hints := r.resHints }
    rw [foldl_taken_index, ← hbuffer] at hsection
    rw [hsection]
    unfold sectionReader
    rw [Nat.zero_add]
  refine ⟨hread, ?_⟩
  unfold Request.parseCgiHeaders
  simp only [hread, bind, Except.bind]
  rfl

/-- Index, cookies and fields are those of the section, and the file response sends the
body. -/
def SplitsWell (fs : FileSystem) (r : Request) (lines : List Bytes) (body : Bytes) : Prop :=
  ∃ p res r', CgiReader.readLines ((outputBuffer fs r.resHints.path).length + 1)
      { hints := r.resHints } (outputBuffer fs r.resHints.path) = .ok (0, p) ∧
    r.parseCgiHeaders fs = .ok (res, r') ∧
    r'.resHints.index = (headerSection lines).length ∧
    (∀ stat, fs.stat r.resHints.path = some stat → (inspectFile fs r'.resHints).1 = some body) ∧
    r'.resHints.cookies = r.resHints.cookies ++
      (lines.filter fun line => Named COOKIE (fieldKey line)).map fieldText ∧
    ∀ line ∈ lines, ¬ Named COOKIE (fieldKey line) →
      p.headers.find? (fieldKey line) = lastText (Named (fieldKey line)) lines

/-- A NUL in a name makes no cookie, no other name with another value and no redirection. -/
structure Unmixed (lines : List Bytes) : Prop where
  cookie : ∀ line ∈ lines, Alike COOKIE (fieldKey line) → Named COOKIE (fieldKey line)
  names : ∀ line ∈ lines, ¬ Named COOKIE (fieldKey line) →
    lastText (Alike (fieldKey line)) lines = lastText (Named (fieldKey line)) lines
  location : (lastText (Alike LOCATION) lines).bind List.head? ≠ some 47

theorem lastText_congr {P Q : Bytes → Prop} [DecidablePred P] [DecidablePred Q]
    {lines : List Bytes} (h : ∀ line ∈ lines, P (fieldKey line) ↔ Q (fieldKey line)) :
    lastText P lines = lastText Q lines := by
  unfold lastText
  congr 2
  apply List.filter_congr
  intro line hline
  exact decide_eq_decide.mpr (h line hline)

/-- Names without NUL are never mixed up. -/
theorem unmixed_of_no_nul {lines : List Bytes} (hnul : ∀ line ∈ lines, 0 ∉ fieldKey line)
    (hlocation : ∀ line ∈ lines, ¬ Named LOCATION (fieldKey line)) : Unmixed lines where
  cookie := fun line hline h => (alike_iff (by decide) (hnul line hline)).mp h
  names := fun line hline _ =>
    lastText_congr fun line' hline' => alike_iff (hnul line hline) (hnul line' hline')
  location := by
    have hnone : lastText (Alike LOCATION) lines = none := by
      unfold lastText
      rw [List.filter_eq_nil_iff.mpr]
      · rfl
      · intro line hline
        rw [decide_eq_true_eq, alike_iff (by decide) (hnul line hline)]
        exact hlocation line hline
    rw [hnone]
    nofun

/-- Two filters that select equally many select the same. -/
theorem filter_eq_of_length {p q : Bytes → Bool} {lines : List Bytes}
    (himp : ∀ line ∈ lines, p line = true → q line = true)
    (h : (lines.filter q).length = (lines.filter p).length) :
    ∀ line ∈ lines, q line = true → p line = true := by
  induction lines with
  | nil => nofun
  | cons line lines ih =>
    have himp' := fun l hl => himp l (List.mem_cons_of_mem _ hl)
    have hle : (lines.filter p).length ≤ (lines.filter q).length := by
      rw [← List.countP_eq_length_filter, ← List.countP_eq_length_filter]
      exact List.countP_mono_left himp'
    by_cases hp : p line = true
    · rw [List.filter_cons_of_pos hp,
        List.filter_cons_of_pos (himp line (List.mem_cons_self ..) hp)] at h
      have hrest := ih himp' (Nat.succ.inj h)
      intro l hl hq
      rcases List.mem_cons.mp hl with rfl | hl
      · exact hp
      · exact hrest l hl hq
    · rw [List.filter_cons_of_neg hp] at h
      by_cases hq : q line = true
      · rw [List.filter_cons_of_pos hq, List.length_cons] at h
        omega
      · rw [List.filter_cons_of_neg hq] at h
        have hrest := ih himp' h
        intro l hl hql
        rcases List.mem_cons.mp hl with rfl | hl
        · exact absurd hql hq
        · exact hrest l hl hql

/-- No index points behind the buffer. -/
theorem parseCgiHeaders_index_le {fs : FileSystem} {r r' : Request} {p : CgiReader} {res : CgiRes}
    (hread : CgiReader.readLines ((outputBuffer fs r.resHints.path).length + 1)
      { hints := r.resHints } (outputBuffer fs r.resHints.path) = .ok (0, p))
    (h : r.parseCgiHeaders fs = .ok (res, r')) : r'.resHints.index ≤ BUFFER_SIZE := by
  have hle := readLines_index_le hread
  have hbuffer : (outputBuffer fs r.resHints.path).length ≤ BUFFER_SIZE := by
    unfold outputBuffer
    rw [List.length_take]
    exact Nat.min_le_left _ _
  unfold Request.parseCgiHeaders at h
  simp only [hread, bind, Except.bind] at h
  rw [if_neg (not_not_intro rfl)] at h
  have hr' : (Request.inspectHeaders p.headers
      { r with resHints := { p.hints with index := p.index } }).2 = r' :=
    congrArg Prod.snd (Except.ok.inj h)
  have hindex := (inspectHeaders_hints p.headers
    { r with resHints := { p.hints with index := p.index } }).2.2
  rw [← hr', hindex]
  split
  · exact Nat.zero_le _
  · dsimp only at hle ⊢
    omega

theorem sectionReader_find (r : Request) (lines : List Bytes) {key : Bytes}
    (h : ¬ Alike COOKIE key) :
    (sectionReader r lines).headers.find? key = lastText (Alike key) lines :=
  (foldl_taken_find lines { hints := r.resHints } h).trans Option.or_none

/-- What the parse of a section leaves in the hints. -/
theorem parseCgiHeaders_hints {fs : FileSystem} {r : Request} {lines : List Bytes} {body : Bytes}
    (hcontent : fs.content r.resHints.path = some (headerSection lines ++ body))
    (h : ∀ line ∈ lines, IsHeader line) (hfits : (headerSection lines).length ≤ BUFFER_SIZE) :
    ∃ res r', r.parseCgiHeaders fs = .ok (res, r') ∧ r'.resHints.path = r.resHints.path ∧
      r'.resHints.cookies = r.resHints.cookies ++
        (lines.filter fun line => Alike COOKIE (fieldKey line)).map fieldText ∧
      r'.resHints.index = if (lastText (Alike LOCATION) lines).bind List.head? = some 47 then 0
        else (headerSection lines).length := by
  have hhints := foldl_taken_hints lines { hints := r.resHints }
  obtain ⟨-, hparse⟩ := parseCgiHeaders_section hcontent h hfits
  obtain ⟨hpath, hcookies, hindex⟩ := inspectHeaders_hints (sectionReader r lines).headers
    { r with resHints := { (sectionReader r lines).hints with
      index := (headerSection lines).length } }
  rw [sectionReader_find r lines (by decide)] at hindex
  refine ⟨_, _, hparse, hpath.trans ?_, hcookies.trans ?_, hindex⟩
  · show (lines.foldl taken { hints := r.resHints }).hints.path = r.resHints.path
    rw [hhints]
  · show (lines.foldl taken { hints := r.resHints }).hints.cookies = _
    rw [hhints]

/-- An output is split as it is written exactly when its header section fits into the buffer
and a NUL mixes up none of its names. -/
theorem splitsWell_iff {fs : FileSystem} {r : Request} {lines : List Bytes} {body : Bytes}
    (hcontent : fs.content r.resHints.path = some (headerSection lines ++ body))
    (h : ∀ line ∈ lines, IsHeader line) :
    SplitsWell fs r lines body ↔ (headerSection lines).length ≤ BUFFER_SIZE ∧ Unmixed lines := by
  by_cases hfits : (headerSection lines).length ≤ BUFFER_SIZE
  · obtain ⟨hread, -⟩ := parseCgiHeaders_section hcontent h hfits
    obtain ⟨res, r', hparse, hpath, hcookies, hindex⟩ := parseCgiHeaders_hints hcontent h hfits
    have hpositive : (headerSection lines).length ≠ 0 := by
      unfold headerSection
      rw [List.length_append]
      exact Nat.ne_of_gt (Nat.lt_of_lt_of_le (by decide) (Nat.le_add_left 2 _))
    constructor
    · intro ⟨p, res', s, hread', hparse', hindex', _, hcookies', hnames⟩
      rw [hread, Except.ok.injEq, Prod.mk.injEq] at hread'
      rw [hparse, Except.ok.injEq, Prod.mk.injEq] at hparse'
      obtain ⟨-, rfl⟩ := hread'
      obtain ⟨-, rfl⟩ := hparse'
      have hcookie : ∀ line ∈ lines, Alike COOKIE (fieldKey line) →
          Named COOKIE (fieldKey line) := by
        rw [hcookies] at hcookies'
        have hlengths := congrArg List.length (List.append_cancel_left hcookies')
        rw [List.length_map, List.length_map] at hlengths
        have hsame := filter_eq_of_length
          (fun line _ hline => decide_eq_true (of_decide_eq_true hline).alike) hlengths
        intro line hline halike
        exact of_decide_eq_true (hsame line hline (decide_eq_true halike))
      refine ⟨hfits, hcookie, ?_, ?_⟩
      · intro line hline hother
        rw [← hnames line hline hother]
        exact (sectionReader_find r lines fun halike => hother (hcookie line hline halike)).symm
      · intro hslash
        rw [if_pos hslash, hindex'] at hindex
        exact hpositive hindex
    · intro ⟨_, hcookie, hnames, hslash⟩
      rw [if_neg hslash] at hindex
      refine ⟨_, res, r', hread, hparse, hindex, ?_, ?_, ?_⟩
      · intro stat hstat
        unfold inspectFile
        rw [hpath, hstat, hcontent, hindex]
        exact congrArg some List.drop_left
      · rw [hcookies]
        congr 2
        apply List.filter_congr
        intro line hline
        exact decide_eq_decide.mpr ⟨hcookie line hline, Named.alike⟩
      · intro line hline hother
        rw [sectionReader_find r lines fun halike => hother (hcookie line hline halike)]
        exact hnames line hline hother
  · refine iff_of_false ?_ fun hboth => hfits hboth.1
    intro ⟨p, res, r', hread, hparse, hindex, _⟩
    have hle := parseCgiHeaders_index_le hread hparse
    omega

/-- A file system with one output. -/
def outputFiles (output : Bytes) : FileSystem where
  stat := fun _ => some (.regular, output.length)
  readable := fun _ => true
  writable := fun _ => true
  content := fun _ => some output
  entries := fun _ => none

theorem cookies_split :
    SplitsWell (outputFiles (headerSection [ascii "Content-Type: a/b", ascii "SET-cookie: x=1"] ++
      ascii "c\r\n\r\n")) {} [ascii "Content-Type: a/b", ascii "SET-cookie: x=1"]
        (ascii "c\r\n\r\n") := by
  refine (splitsWell_iff rfl ?_).mpr ⟨by decide, unmixed_of_no_nul (by decide) (by decide)⟩
  intro line hline
  rcases List.mem_cons.mp hline with rfl | hline
  · exact ⟨unbroken_of_not_mem (by decide), by decide⟩
  · rw [List.mem_singleton.mp hline]
    exact ⟨unbroken_of_not_mem (by decide), by decide⟩

/-- A field that does not fit into the buffer. -/
def longField : Bytes := ascii "A:" ++ List.replicate BUFFER_SIZE 97

theorem long_not_split :
    IsHeader longField ∧ ¬ SplitsWell (outputFiles (headerSection [longField] ++ [98])) {} [longField]
      [98] := by
  have hmem : ∀ c ∈ longField, c = 65 ∨ c = 58 ∨ c = 97 := by
    intro c hc
    rcases List.mem_append.mp hc with hc | hc
    · rcases List.mem_cons.mp hc with rfl | hc
      · exact Or.inl rfl
      · exact Or.inr (Or.inl (List.mem_singleton.mp hc))
    · exact Or.inr (Or.inr (List.eq_of_mem_replicate hc))
  have hbreak : 13 ∉ longField := by
    intro h
    have hcases := hmem 13 h
    revert hcases
    decide
  refine ⟨⟨unbroken_of_not_mem hbreak, ?_⟩, ?_⟩
  · exact List.mem_append_left _ (List.mem_cons_of_mem _ (List.mem_singleton_self 58))
  · intro ⟨p, res, r', hread, hparse, hindex, _⟩
    have hle := parseCgiHeaders_index_le hread hparse
    have hlength : longField.length = 2 + BUFFER_SIZE := by
      unfold longField
      rw [List.length_append, List.length_replicate]
      rfl
    rw [hindex] at hle
    unfold headerSection at hle
    rw [terminate_cons] at hle
    simp only [List.length_append, hlength] at hle
    omega

end Webserveau.CgiSections
