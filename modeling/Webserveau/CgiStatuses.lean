import Webserveau.CgiSections
import Webserveau.SignedNumerals

/-!
Status fields of cgi outputs.
The whole value is handed to `getInt`. A value with a reason phrase is no number and makes
the status 500; one that is a number is stored, and then replaced by 200.
-/
namespace Webserveau.CgiStatuses

open ByteStrings OrderedMaps Numerals Formats Requests CgiSections SignedNumerals

abbrev STATUS : Bytes := ascii "Status"

/-- The verdict is a document with the status. -/
def Honoured (fs : FileSystem) (r : Request) (code : ℤ) : Prop :=
  ∃ r', r.parseCgiHeaders fs = .ok (.doc, r') ∧ r'.resHints.status = code

/-- The status a value leads to. -/
def statusOf (value : Bytes) : ℤ := if (getInt value 10 0).1 = 0 then 200 else 500

/-- The result code does not depend on what `res` holds. -/
theorem getInt_code (str : Bytes) (base : ℕ) (res res' : ℤ) :
    (getInt str base res).1 = (getInt str base res').1 := by
  unfold getInt
  simp only [apply_ite Prod.fst]

theorem statusOf_number {value : Bytes} {code : ℤ} (h : Signed 10 value code)
    (hrange : InInt code) : statusOf value = 200 := by
  have hlong : InLong code := by
    unfold InInt at hrange
    unfold InLong LONG_MIN LONG_MAX
    omega
  exact if_pos ((getInt_ok_iff (Or.inl rfl) h 0).mpr hlong)

/-- A number with a space behind it is none. -/
theorem statusOf_phrase (digits phrase : Bytes) (hdigits : ∀ c ∈ digits, IsDigit 10 c = true)
    (hne : digits ≠ []) : statusOf (digits ++ 32 :: phrase) = 500 := by
  refine if_neg ?_
  intro hzero
  obtain ⟨x, blanks, sign, digits', n, htext, hblank, hsigned, -, hall, -⟩ :=
    signed_of_getInt (Or.inl rfl) hzero
  obtain ⟨d, rest, rfl⟩ := List.exists_cons_of_ne_nil hne
  have hd := hdigits d (List.mem_cons_self ..)
  have hspecial := digit_not_special (isDigit_mono (by decide : 10 ≤ 16) hd)
  have hnil : blanks = [] := by
    cases blanks with
    | nil => rfl
    | cons c blanks =>
      obtain ⟨rfl, -⟩ := List.cons.inj htext
      have hspace := hblank d (List.mem_cons_self ..)
      have hupper := (toUpper_front d).2.2.2 hspace
      rw [(digit_not_special (toUpper_digit (isDigit_mono (by decide : 10 ≤ 16) hd)).2.1).1]
        at hupper
      cases hupper
  have hplain : sign = [] := by
    rw [hnil, List.nil_append] at htext
    cases hsigned with
    | none => rfl
    | plus => exact absurd (List.cons.inj htext).1 hspecial.2.1
    | minus => exact absurd (List.cons.inj htext).1 hspecial.2.2.1
  rw [hnil, hplain, List.nil_append, List.nil_append] at htext
  have hspace := hall 32 (by rw [← htext]; simp)
  revert hspace
  decide

theorem entries_ne_nil {headers : HeaderMap} {key value : Bytes}
    (h : headers.find? key = some value) : headers.entries ≠ [] := by
  intro hnil
  unfold OrderedMap.find? at h
  rw [hnil] at h
  cases h

/-- The verdict on headers with a status. -/
theorem inspectHeaders_status {headers : HeaderMap} {r : Request} {value : Bytes}
    (h : headers.find? STATUS = some value) (code : ℤ) :
    ((Request.inspectHeaders headers r).1 = .doc ∧
      (Request.inspectHeaders headers r).2.resHints.status = code) ↔
      (headers.find? LOCATION).map (List.take 7) ≠ some (ascii "http://") ∧
        (headers.find? LOCATION).bind List.head? ≠ some 47 ∧ statusOf value = code := by
  unfold Request.inspectHeaders statusOf
  dsimp only
  rw [if_neg (entries_ne_nil h), h]
  by_cases hhttp : (headers.find? LOCATION).map (List.take 7) = some (ascii "http://")
  · rw [if_pos hhttp]
    exact iff_of_false nofun fun hboth => hboth.1 hhttp
  · rw [if_neg hhttp]
    by_cases hslash : (headers.find? LOCATION).bind List.head? = some 47
    · rw [if_pos hslash]
      exact iff_of_false nofun fun hboth => hboth.2.1 hslash
    · rw [if_neg hslash, getInt_code value 10 0 r.resHints.status]
      simp only [Option.map_some, Option.getD_some]
      by_cases hzero : (getInt value 10 r.resHints.status).1 = 0
      · have hstatus : ∀ hints : ResHints,
            (Request.retrieveType headers hints).status = hints.status := by
          intro hints
          unfold Request.retrieveType
          split
          · rfl
          · rfl
        rw [if_neg (not_not_intro hzero), if_pos hzero]
        constructor
        · intro ⟨_, hcode⟩
          exact ⟨hhttp, hslash, (hstatus _).symm.trans hcode⟩
        · intro ⟨_, _, hcode⟩
          exact ⟨rfl, (hstatus _).trans hcode⟩
      · rw [if_pos hzero, if_neg hzero]
        constructor
        · intro ⟨_, hcode⟩
          exact ⟨hhttp, hslash, hcode⟩
        · intro ⟨_, _, hcode⟩
          exact ⟨rfl, hcode⟩

theorem exists_lastText {P : Bytes → Prop} [DecidablePred P] {lines : List Bytes} {line : Bytes}
    (hline : line ∈ lines) (h : P (fieldKey line)) : ∃ value, lastText P lines = some value := by
  unfold lastText
  have hmem : line ∈ lines.filter fun line => P (fieldKey line) :=
    List.mem_filter.mpr ⟨hline, decide_eq_true h⟩
  rw [List.getLast?_eq_some_getLast (List.ne_nil_of_mem hmem)]
  exact ⟨_, rfl⟩

/-- A status field is honoured exactly when no field is taken for a redirection, and the code
is 200 and the last status is a number, or the code is 500 and it is none. -/
theorem honoured_iff {fs : FileSystem} {r : Request} {lines : List Bytes} {body line : Bytes}
    (hcontent : fs.content r.resHints.path = some (headerSection lines ++ body))
    (h : ∀ line ∈ lines, IsHeader line) (hfits : (headerSection lines).length ≤ BUFFER_SIZE)
    (hline : line ∈ lines) (hname : Named STATUS (fieldKey line)) (code : ℤ) :
    Honoured fs r code ↔
      (lastText (Alike LOCATION) lines).map (List.take 7) ≠ some (ascii "http://") ∧
        (lastText (Alike LOCATION) lines).bind List.head? ≠ some 47 ∧
        (lastText (Alike STATUS) lines).map statusOf = some code := by
  obtain ⟨-, hparse⟩ := parseCgiHeaders_section hcontent h hfits
  obtain ⟨value, hvalue⟩ := exists_lastText hline hname.alike
  have hfind := @sectionReader_find r lines STATUS (by decide)
  rw [hvalue] at hfind
  have hverdict := inspectHeaders_status (r := { r with resHints := {
    (sectionReader r lines).hints with index := (headerSection lines).length } }) hfind code
  rw [@sectionReader_find r lines LOCATION (by decide)] at hverdict
  rw [hvalue, Option.map_some, Option.some.injEq, ← hverdict]
  unfold Honoured
  rw [hparse]
  constructor
  · intro ⟨r', hr', hcode⟩
    rw [Except.ok.injEq] at hr'
    rw [hr']
    exact ⟨rfl, hcode⟩
  · intro ⟨hdoc, hcode⟩
    exact ⟨_, congrArg Except.ok (Prod.ext hdoc rfl), hcode⟩

theorem ok_honoured :
    Honoured (outputFiles (headerSection [ascii "X: y", ascii "STATUS: 200"] ++ ascii "z")) {} 200 :=
  (@honoured_iff _ _ [ascii "X: y", ascii "STATUS: 200"] _ (ascii "STATUS: 200") rfl
    (by
      intro line hline
      rcases List.mem_cons.mp hline with rfl | hline
      · exact ⟨DelimitedTexts.unbroken_of_not_mem (by decide), by decide⟩
      · rw [List.mem_singleton.mp hline]
        exact ⟨DelimitedTexts.unbroken_of_not_mem (by decide), by decide⟩)
    (by decide) (by decide) (by decide) 200).mpr (by decide)

/-- The output of a script that has not found something. -/
def notFound : Bytes := ascii "Status: 404"

theorem notFound_not_honoured :
    IsHeader notFound ∧ fieldText notFound = ascii "404" ∧
      ¬ Honoured (outputFiles (headerSection [notFound] ++ [])) {} 404 := by
  have hheader : IsHeader notFound := ⟨DelimitedTexts.unbroken_of_not_mem (by decide), by decide⟩
  refine ⟨hheader, by decide, ?_⟩
  intro ⟨r', hparse, hcode⟩
  obtain ⟨-, hsection⟩ := @parseCgiHeaders_section
    (outputFiles (headerSection [notFound] ++ [])) {} [notFound] [] rfl
    (fun line hline => by rw [List.mem_singleton.mp hline]; exact hheader) (by decide)
  rw [hsection, Except.ok.injEq] at hparse
  have hverdict := inspectHeaders_status (r := { ({} : Request) with resHints := {
      (sectionReader {} [notFound]).hints with index := (headerSection [notFound]).length } })
    (@sectionReader_find {} [notFound] STATUS (by decide)) 404
  rw [hparse] at hverdict
  have hkept := (hverdict.mp ⟨rfl, hcode⟩).2.2
  revert hkept
  decide

end Webserveau.CgiStatuses
