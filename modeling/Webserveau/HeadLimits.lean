import Webserveau.HeadReference
import Webserveau.Verdicts

/-!
The size limits of a head and the places where its reads end.
The limits are tested where a read ends inside the field lines, and values once more when
their line is complete. A head has one verdict on all its cuts when a text in it is too
long anyway, when no read can pass over the places where the test fails, or when there are
no such places.
-/
namespace Webserveau.HeadLimits

open ByteStrings OrderedMaps Formats Requests Segmentation HeadSegmentation HeadSafety
  HeadReference Verdicts

/-- The text of a field line behind its colon. -/
def valueText (line : Bytes) : Bytes := ((line.dropWhile isBlank).dropWhile (· ≠ 58)).tail

/-- A head that is well formed, of any length. -/
structure LongHead where
  methodName : Bytes
  method : Method
  method_known : (methodName, method) ∈ METHOD_STR
  target : Bytes
  target_unblanked : ∀ c ∈ target, isBlank c = false
  target_nonempty : target ≠ []
  target_unbroken : ¬ [13, 10] <:+: target
  version : Bytes
  version_supported : version = ascii "HTTP/1.0" ∨ version = ascii "HTTP/1.1"
  fields : List Bytes
  fields_valid : ∀ line ∈ fields, ¬ [13, 10] <:+: line ∧ 58 ∈ line

namespace LongHead

variable (head : LongHead)

/-- The head without its field lines. -/
def opening : Head where
  methodName := head.methodName
  method := head.method
  method_known := head.method_known
  target := head.target
  target_unblanked := head.target_unblanked
  version := head.version
  version_supported := head.version_supported
  fields := []
  fields_valid := fun _ h => by cases h

def requestLine : Bytes := head.opening.requestLine

def bytes : Bytes := head.requestLine ++ [13, 10] ++ headBytes head.fields

end LongHead

/-- How much of the unfinished line a position in field lines has behind it. -/
def unfinished : List Bytes → ℕ → ℕ
  | [], c => c
  | line :: lines, c =>
    if c < line.length + 2 then c else unfinished lines (c - (line.length + 2))

/-- The code of the field lines up to a position, when `size` bytes have been counted. -/
def fieldCode (size : ℕ) : List Bytes → ℕ → ℤ
  | [], c => if c = 2 then -1 else if HEADER_MAX_BUFFER * BUFFER_SIZE < size then 431 else 0
  | line :: lines, c =>
    if c < line.length + 2 then
      if HEADER_MAX_BUFFER * BUFFER_SIZE < size ∨ BUFFER_SIZE < c then 431 else 0
    else if BUFFER_SIZE < (valueText line).length then 431
    else fieldCode size lines (c - (line.length + 2))

/-- The code of a head up to a position. -/
def headCode (head : LongHead) (c : ℕ) : ℤ :=
  if c < head.requestLine.length + 2 then 0
  else if BUFFER_SIZE < head.requestLine.length then 414
  else fieldCode c head.fields (c - (head.requestLine.length + 2))

/-- A read that ends here fails the size test. -/
def Overfull (head : LongHead) (c : ℕ) : Prop :=
  head.requestLine.length + 2 ≤ c ∧ c < head.bytes.length ∧
    (HEADER_MAX_BUFFER * BUFFER_SIZE < c ∨
      BUFFER_SIZE < unfinished head.fields (c - (head.requestLine.length + 2)))

/-- The request line or a value is too long, wherever the reads end. -/
def LongText (head : LongHead) : Prop :=
  BUFFER_SIZE < head.requestLine.length ∨
    ∃ line ∈ head.fields, BUFFER_SIZE < (valueText line).length

theorem splitColon_valueText {line : Bytes} (h : 58 ∈ line) :
    splitColon (line.dropWhile isBlank) = some (fieldName line, valueText line) := by
  have hcolon : 58 ∈ line.dropWhile isBlank := by
    have hsplit := h
    rw [← List.takeWhile_append_dropWhile (p := isBlank) (l := line), List.mem_append] at hsplit
    rcases hsplit with hblank | hrest
    · have hcontra := List.mem_takeWhile_imp hblank
      exact absurd hcontra (by decide)
    · exact hrest
  rw [splitColon, if_pos hcolon]
  rfl

theorem headBytes_cons_length (line : Bytes) (lines : List Bytes) :
    (headBytes (line :: lines)).length = line.length + 2 + (headBytes lines).length := by
  unfold headBytes
  rw [List.flatMap_cons]
  simp only [withCRLF, List.length_append, List.length_cons, List.length_nil]
  omega

section FieldCodes

variable {size : ℕ}

theorem fieldCode_whole {fields : List Bytes}
    (h : ∀ line ∈ fields, (valueText line).length ≤ BUFFER_SIZE) :
    fieldCode size fields (headBytes fields).length = -1 := by
  induction fields with
  | nil => rfl
  | cons line lines ih =>
    have hline := h line (List.mem_cons_self ..)
    rw [headBytes_cons_length, fieldCode, if_neg (by omega), if_neg (by omega),
      Nat.add_sub_cancel_left]
    exact ih fun l hl => h l (List.mem_cons_of_mem _ hl)

theorem fieldCode_whole_long {fields : List Bytes}
    (h : ∃ line ∈ fields, BUFFER_SIZE < (valueText line).length) :
    fieldCode size fields (headBytes fields).length = 431 := by
  induction fields with
  | nil =>
    obtain ⟨line, hmem, -⟩ := h
    cases hmem
  | cons line lines ih =>
    rw [headBytes_cons_length, fieldCode, if_neg (by omega)]
    by_cases hline : BUFFER_SIZE < (valueText line).length
    · rw [if_pos hline]
    · rw [if_neg hline, Nat.add_sub_cancel_left]
      obtain ⟨l, hl, hlong⟩ := h
      rcases List.mem_cons.mp hl with rfl | hl
      · exact absurd hlong hline
      · exact ih ⟨l, hl, hlong⟩

theorem fieldCode_before {fields : List Bytes} {c : ℕ} (hc : c < (headBytes fields).length) :
    fieldCode size fields c = 0 ∨ fieldCode size fields c = 431 := by
  induction fields generalizing c with
  | nil =>
    have hshort : c < 2 := hc
    unfold fieldCode
    rw [if_neg (by omega)]
    split
    · exact Or.inr rfl
    · exact Or.inl rfl
  | cons line lines ih =>
    rw [headBytes_cons_length] at hc
    unfold fieldCode
    split
    · split
      · exact Or.inr rfl
      · exact Or.inl rfl
    · split
      · exact Or.inr rfl
      · exact ih (by omega)

/-- Within the values' limit, the code before the end is that of the size test. -/
theorem fieldCode_eq_zero_iff {fields : List Bytes} {c : ℕ} (hc : c < (headBytes fields).length)
    (h : ∀ line ∈ fields, (valueText line).length ≤ BUFFER_SIZE) :
    fieldCode size fields c = 0 ↔
      ¬ (HEADER_MAX_BUFFER * BUFFER_SIZE < size ∨ BUFFER_SIZE < unfinished fields c) := by
  induction fields generalizing c with
  | nil =>
    have hshort : c < 2 := hc
    have hfits : ¬ BUFFER_SIZE < c := by
      simp only [BUFFER_SIZE]
      omega
    unfold fieldCode unfinished
    rw [if_neg (by omega), or_iff_left hfits]
    split
    · rename_i hover
      exact iff_of_false (by decide) (not_not_intro hover)
    · rename_i hin
      exact iff_of_true rfl hin
  | cons line lines ih =>
    have hline := h line (List.mem_cons_self ..)
    rw [headBytes_cons_length] at hc
    unfold fieldCode unfinished
    by_cases hinside : c < line.length + 2
    · rw [if_pos hinside, if_pos hinside]
      split
      · rename_i hover
        exact iff_of_false (by decide) (not_not_intro hover)
      · rename_i hin
        exact iff_of_true rfl hin
    · rw [if_neg hinside, if_neg hinside, if_neg (by omega)]
      exact ih (by omega) fun l hl => h l (List.mem_cons_of_mem _ hl)

theorem size_of_fieldCode_zero {fields : List Bytes} {c : ℕ} (h : fieldCode size fields c = 0) :
    size ≤ HEADER_MAX_BUFFER * BUFFER_SIZE := by
  induction fields generalizing c with
  | nil =>
    unfold fieldCode at h
    split at h
    · cases h
    · split at h
      · cases h
      · omega
  | cons line lines ih =>
    unfold fieldCode at h
    split at h
    · split at h
      · cases h
      · omega
    · split at h
      · cases h
      · exact ih h

end FieldCodes

section Parser

/-- The size test of a line that is not finished. -/
theorem headerLoop_unfinished {r : Request} {size : ℕ} (hr : r.status = .ongoing)
    (hline : r.line = []) (hcount : r.header_size = size) (hsize : (size : ℤ) ≤ 2147483647)
    {p : Bytes} (hcut : cutAt 13 10 p = none) :
    ∃ r' rest, r.headerLoop p =
      .ok (if HEADER_MAX_BUFFER * BUFFER_SIZE < size ∨ BUFFER_SIZE < p.length then 431 else 0,
        r', rest) := by
  have hint : toInt r.header_size = r.header_size := by
    rw [hcount]
    exact toInt_of_range (by omega) hsize
  have htest : ∀ line : Bytes, ∃ r', ({ r with line := line } : Request).checkSizes =
      (if HEADER_MAX_BUFFER * BUFFER_SIZE < size ∨ BUFFER_SIZE < line.length then 431 else 0,
        r') := by
    intro line
    have hiff : (r.header_size > HEADER_MAX_BUFFER * BUFFER_SIZE ∨ line.length > BUFFER_SIZE) ↔
        (HEADER_MAX_BUFFER * BUFFER_SIZE < size ∨ BUFFER_SIZE < line.length) := by
      rw [hcount]
      omega
    unfold Request.checkSizes
    rw [if_pos (Or.inl hr)]
    by_cases hover : HEADER_MAX_BUFFER * BUFFER_SIZE < size ∨ BUFFER_SIZE < line.length
    · rw [if_pos (hiff.mpr hover), if_pos hover]
      exact ⟨_, rfl⟩
    · rw [if_neg (mt hiff.mp hover), if_neg hover]
      exact ⟨_, rfl⟩
  obtain ⟨r', htested⟩ := htest p
  rw [Request.headerLoop_eq]
  by_cases hempty : p = []
  · subst hempty
    have hsame : ({ r with header_size := toInt r.header_size } : Request) = { r with line := [] } := by
      rw [hint, ← hline]
    rw [if_pos rfl]
    dsimp only
    rw [hsame, htested]
    exact ⟨_, _, rfl⟩
  · rw [if_neg hempty, hline, List.nil_append, hcut]
    dsimp only
    rw [htested]
    exact ⟨_, _, rfl⟩

/-- A front part of the field lines gets the code of its position. -/
theorem headerLoop_code {fields : List Bytes}
    (hfields : ∀ line ∈ fields, ¬ [13, 10] <:+: line ∧ 58 ∈ line) {r : Request} {size : ℕ}
    (hr : r.status = .ongoing) (hline : r.line = []) (hcount : r.header_size = size)
    (hsize : (size : ℤ) ≤ 2147483647) {p : Bytes} (hp : p <+: headBytes fields) :
    ∃ r' rest, r.headerLoop p = .ok (fieldCode size fields p.length, r', rest) := by
  induction fields generalizing r p with
  | nil =>
    have hcut : cutAt 13 10 (headBytes []) = some ([], []) := rfl
    by_cases hwhole : p.length = 2
    · obtain rfl := hp.eq_of_length hwhole
      rw [Request.headerLoop_eq, hline]
      exact ⟨_, _, rfl⟩
    · have hlen : p.length ≤ 2 := hp.length_le
      have hshort : p.length < 2 := by omega
      have hfits : ¬ BUFFER_SIZE < p.length := by
        simp only [BUFFER_SIZE]
        omega
      obtain ⟨r', rest, hloop⟩ := headerLoop_unfinished hr hline hcount hsize
        (cutAt_short_front hcut hp hshort)
      refine ⟨r', rest, ?_⟩
      rw [hloop, fieldCode, if_neg hwhole]
      simp only [hfits, or_false]
  | cons line lines ih =>
    obtain ⟨hfree, hcolon⟩ := hfields line (List.mem_cons_self ..)
    have hcut : cutAt 13 10 (headBytes (line :: lines)) = some (line, headBytes lines) := by
      rw [cutAt_eq_some_iff (by decide)]
      exact ⟨by simp [headBytes, withCRLF], hfree⟩
    by_cases hlen : p.length < line.length + 2
    · rw [fieldCode, if_pos hlen]
      exact headerLoop_unfinished hr hline hcount hsize (cutAt_short_front hcut hp hlen)
    · obtain ⟨p', hpcut, hp', rfl⟩ := cutAt_long_front (by decide) hcut hp (by omega)
      have hne : line ≠ [] := by
        rintro rfl
        cases hcolon
      have hbuffer : line ++ [13, 10] ++ p' ≠ [] := by simp
      have hrest : (line ++ [13, 10] ++ p').length - (line.length + 2) = p'.length := by
        simp only [List.length_append, List.length_cons, List.length_nil]
        omega
      rw [Request.headerLoop_eq, if_neg hbuffer, hline, List.nil_append, hpcut, fieldCode,
        if_neg hlen, hrest]
      dsimp only
      rw [if_neg hne, splitColon_valueText hcolon]
      dsimp only
      by_cases hlong : BUFFER_SIZE < (valueText line).length
      · rw [if_pos hlong, if_pos hlong]
        exact ⟨_, _, rfl⟩
      · rw [if_neg hlong, if_neg hlong]
        exact ih (fun l hl => hfields l (List.mem_cons_of_mem _ hl)) (by exact hr) rfl
          (by exact hcount) hp'

namespace LongHead

variable (head : LongHead)

theorem requestLine_letter : ∃ c rest, head.requestLine = c :: rest ∧ isalpha c := by
  obtain ⟨-, ⟨c, rest, hname, hc⟩, -⟩ := method_word_valid head.method_known
  refine ⟨c, rest ++ 32 :: (head.target ++ 32 :: head.version), ?_, hc⟩
  show head.methodName ++ 32 :: (head.target ++ 32 :: head.version) = _
  rw [hname]
  rfl

/-- Nothing at the front of a head is skipped. -/
theorem skip_front {p : Bytes} (hp : p <+: head.bytes) :
    p.dropWhile (fun c => !isalpha c) = p := by
  obtain ⟨c, rest, hline, hc⟩ := head.requestLine_letter
  cases p with
  | nil => rfl
  | cons d p =>
    unfold bytes at hp
    rw [hline] at hp
    have hd : d = c := (List.cons_prefix_cons.mp hp).1
    rw [hd, List.dropWhile_cons_of_neg (by simp [hc])]

theorem cutAt_bytes : cutAt 13 10 head.bytes = some (head.requestLine, headBytes head.fields) :=
  (cutAt_eq_some_iff (by decide)).mpr
    ⟨rfl, head.opening.unbroken_requestLine head.target_unbroken⟩

/-- One call on a front part of a head gives the code of its position. -/
theorem parseHeaders_code {c : ℕ} (hc : c ≤ head.bytes.length)
    (hcount : head.requestLine.length + 2 ≤ c → head.requestLine.length ≤ BUFFER_SIZE →
      (c : ℤ) ≤ 2147483647) :
    ∃ r rest, Request.parseHeaders {} (head.bytes.take c) = .ok (headCode head c, r, rest) := by
  have hp : head.bytes.take c <+: head.bytes := List.take_prefix _ _
  have hlength : (head.bytes.take c).length = c := List.length_take_of_le hc
  have hstart : head.bytes.take c ≠ [] → Request.parseHeaders {} (head.bytes.take c) =
      Request.requestLine { status := .rline, header_size := toInt c } (head.bytes.take c) := by
    intro hne
    rw [parseHeaders_start {} rfl (head.skip_front hp) hne, hlength]
  unfold headCode
  by_cases hfirst : c < head.requestLine.length + 2
  · rw [if_pos hfirst]
    by_cases hempty : head.bytes.take c = []
    · rw [hempty]
      exact ⟨_, _, rfl⟩
    · have hcut := cutAt_short_front head.cutAt_bytes hp (by omega)
      rw [hstart hempty, Request.requestLine_eq _ rfl, List.nil_append, hcut]
      exact ⟨_, _, rfl⟩
  · rw [if_neg hfirst]
    obtain ⟨p', hcut, hp', heq⟩ := cutAt_long_front (by decide) head.cutAt_bytes hp (by omega)
    have hrest : p'.length = c - (head.requestLine.length + 2) := by
      have hsplit := congrArg List.length heq
      rw [hlength] at hsplit
      simp only [List.length_append, List.length_cons, List.length_nil] at hsplit
      omega
    have hempty : head.bytes.take c ≠ [] := by
      rw [heq]
      simp
    rw [hstart hempty, Request.requestLine_eq _ rfl, List.nil_append, hcut]
    dsimp only
    by_cases hlong : BUFFER_SIZE < head.requestLine.length
    · rw [if_pos hlong, if_pos hlong]
      exact ⟨_, _, rfl⟩
    · have hrange := hcount (by omega) (by omega)
      rw [if_neg hlong, if_neg hlong, head.opening.parseRequestLine_requestLine head.target_nonempty
        _ rfl]
      dsimp only
      rw [if_neg (not_not_intro rfl), ← hrest]
      refine headerLoop_code head.fields_valid ?_ ?_ ?_ hrange hp'
      · rfl
      · rfl
      · exact toInt_of_range (by omega) hrange

end LongHead

end Parser

theorem bytes_length (head : LongHead) :
    head.bytes.length = head.requestLine.length + 2 + (headBytes head.fields).length := by
  unfold LongHead.bytes
  simp only [List.length_append, List.length_cons, List.length_nil]

theorem headCode_zero (head : LongHead) : headCode head 0 = 0 := by
  unfold headCode
  rw [if_pos (by omega)]

/-- Steps of one read stay where the count of bytes is that of the position. -/
theorem reachable_count {head : LongHead} {c d : ℕ} (hzero : headCode head c = 0)
    (hstep : d ≤ c + BUFFER_SIZE) (hpast : head.requestLine.length + 2 ≤ d)
    (hline : head.requestLine.length ≤ BUFFER_SIZE) : (d : ℤ) ≤ 2147483647 := by
  simp only [BUFFER_SIZE] at hstep hline
  by_cases hfirst : c < head.requestLine.length + 2
  · omega
  · unfold headCode at hzero
    rw [if_neg hfirst, if_neg (by simp only [BUFFER_SIZE]; omega)] at hzero
    have hsize := size_of_fieldCode_zero hzero
    simp only [HEADER_MAX_BUFFER, BUFFER_SIZE] at hsize
    omega

/-- The verdict on a cut of a head is that of the walk over the ends of its reads. -/
theorem head_verdict {head : LongHead} {reads : List Bytes}
    (hcut : IsCut BUFFER_SIZE head.bytes reads) :
    verdict Request.parseHeaders {} [] reads =
      .ok (walk (headCode head) 0 (reads.map List.length)) := by
  have hfresh : StandsFor Open Request.parseHeaders {} [] ({} : Request) :=
    standsFor_nil (by simp [Open])
  refine @verdict_eq_walk _ _ _ _ _ _ BUFFER_SIZE parseHeaders_incremental _ _ ?_ _ _ hfresh
    (headCode_zero head) _ hcut.1 fun read hread => (hcut.2 read hread).2
  intro c d hzero _ hstep hd
  exact head.parseHeaders_code hd (reachable_count hzero hstep)

/-- Every cut of the head gets this verdict. -/
def SettledBy (head : LongHead) (v : ℤ) : Prop :=
  ∀ reads, IsCut BUFFER_SIZE head.bytes reads →
    verdict Request.parseHeaders {} [] reads = .ok (some v)

/-- All cuts of the head get one verdict, which refuses a head beyond the limit. -/
def CutIndependent (head : LongHead) : Prop :=
  ∃ v, (v = -1 ∨ v = 414 ∨ v = 431) ∧ SettledBy head v ∧
    (HEADER_MAX_BUFFER * BUFFER_SIZE < head.bytes.length → v ≠ -1)

variable {head : LongHead}

theorem headCode_after {c : ℕ} (hline : head.requestLine.length ≤ BUFFER_SIZE)
    (hc : head.requestLine.length + 2 ≤ c) :
    headCode head c = fieldCode c head.fields (c - (head.requestLine.length + 2)) := by
  unfold headCode
  rw [if_neg (by omega), if_neg (by omega)]

theorem headCode_end (hline : head.requestLine.length ≤ BUFFER_SIZE) :
    headCode head head.bytes.length =
      fieldCode head.bytes.length head.fields (headBytes head.fields).length := by
  rw [headCode_after hline (by rw [bytes_length]; omega)]
  congr 1
  rw [bytes_length]
  omega

theorem headCode_before (hline : head.requestLine.length ≤ BUFFER_SIZE) {c : ℕ}
    (hc : c < head.bytes.length) : headCode head c = 0 ∨ headCode head c = 431 := by
  rw [bytes_length] at hc
  by_cases hfirst : c < head.requestLine.length + 2
  · unfold headCode
    rw [if_pos hfirst]
    exact Or.inl rfl
  · rw [headCode_after hline (by omega)]
    exact fieldCode_before (by omega)

theorem headCode_ne_zero_iff (hshort : ¬ LongText head) {c : ℕ} (hc : c < head.bytes.length) :
    headCode head c ≠ 0 ↔ Overfull head c := by
  obtain ⟨hline, hvalues⟩ := not_or.mp hshort
  have hvalues' : ∀ line ∈ head.fields, (valueText line).length ≤ BUFFER_SIZE :=
    fun line hl => Nat.le_of_not_lt fun hlong => hvalues ⟨line, hl, hlong⟩
  have hlength := bytes_length head
  unfold Overfull
  by_cases hfirst : c < head.requestLine.length + 2
  · unfold headCode
    rw [if_pos hfirst]
    exact iff_of_false (not_not_intro rfl) fun hover => by omega
  · rw [headCode_after (by omega) (by omega), and_iff_right (by omega), and_iff_right hc, Ne,
      fieldCode_eq_zero_iff (by omega) hvalues', not_not]

/-- A request line that is too long is refused on every cut. -/
theorem settledBy_longLine (hline : BUFFER_SIZE < head.requestLine.length) :
    SettledBy head 414 := by
  intro reads hcut
  obtain ⟨hstrides, hsum⟩ := hcut.strides
  have hlength := bytes_length head
  have hcode : ∀ c, headCode head c = 0 ∨ headCode head c = 414 := by
    intro c
    unfold headCode
    split
    · exact Or.inl rfl
    · exact Or.inr rfl
  rw [head_verdict hcut,
    walk_uniform (v := 414) (by decide) 0 hstrides ?_ ?_ fun c _ _ => hcode c]
  · intro hnone
    rw [hnone, List.sum_nil] at hsum
    omega
  · rw [Nat.zero_add, hsum]
    unfold headCode
    rw [if_neg (by omega), if_pos hline]

/-- A value that is too long is refused on every cut. -/
theorem settledBy_longValue (hline : head.requestLine.length ≤ BUFFER_SIZE)
    (hvalue : ∃ line ∈ head.fields, BUFFER_SIZE < (valueText line).length) :
    SettledBy head 431 := by
  intro reads hcut
  obtain ⟨hstrides, hsum⟩ := hcut.strides
  have hlength := bytes_length head
  rw [head_verdict hcut, walk_uniform (v := 431) (by decide) 0 hstrides ?_ ?_ ?_]
  · intro hnone
    rw [hnone, List.sum_nil] at hsum
    omega
  · rw [Nat.zero_add, hsum, headCode_end hline]
    exact fieldCode_whole_long hvalue
  · intro c _ hc
    rw [Nat.zero_add, hsum] at hc
    exact headCode_before hline hc

/-- Where no read can pass over the places where the test fails, every cut is refused. -/
theorem settledBy_blocked (hshort : ¬ LongText head) {r : ℕ}
    (hrun : ∀ c, r < c → c ≤ r + BUFFER_SIZE → Overfull head c) : SettledBy head 431 := by
  intro reads hcut
  obtain ⟨hstrides, hsum⟩ := hcut.strides
  have hlast := hrun (r + BUFFER_SIZE) (by simp only [BUFFER_SIZE]; omega) le_rfl
  rw [head_verdict hcut, walk_blocked (v := 431) (by decide) 0 hstrides (Nat.zero_le r) ?_ ?_ ?_]
  · rw [Nat.zero_add, hsum]
    exact hlast.2.1
  · intro c hlow hhigh
    have hover := hrun c hlow hhigh
    exact (headCode_ne_zero_iff hshort hover.2.1).mpr hover
  · intro c _ hc
    rw [Nat.zero_add, hsum] at hc
    exact headCode_before (Nat.le_of_not_lt (not_or.mp hshort).1) hc

theorem headCode_accepts (hshort : ¬ LongText head) : headCode head head.bytes.length = -1 := by
  obtain ⟨hline, hvalues⟩ := not_or.mp hshort
  rw [headCode_end (Nat.le_of_not_lt hline)]
  exact fieldCode_whole fun line hl => Nat.le_of_not_lt fun hlong => hvalues ⟨line, hl, hlong⟩

/-- Without such places every cut is accepted. -/
theorem settledBy_accepted (hshort : ¬ LongText head) (hnone : ∀ c, ¬ Overfull head c) :
    SettledBy head (-1) := by
  intro reads hcut
  obtain ⟨hstrides, hsum⟩ := hcut.strides
  have hlength := bytes_length head
  rw [head_verdict hcut, walk_uniform (v := -1) (by decide) 0 hstrides ?_ ?_ ?_]
  · intro hempty
    rw [hempty, List.sum_nil] at hsum
    omega
  · rw [Nat.zero_add, hsum]
    exact headCode_accepts hshort
  · intro c _ hc
    rw [Nat.zero_add, hsum] at hc
    refine Or.inl ?_
    by_contra hcode
    exact hnone c ((headCode_ne_zero_iff hshort hc).mp hcode)

/-- When some read can pass over all such places, some cut is accepted. -/
theorem exists_accepted_cut (hshort : ¬ LongText head)
    (hpass : ∀ r, ∃ c, r < c ∧ c ≤ r + BUFFER_SIZE ∧ ¬ Overfull head c) :
    ∃ reads, IsCut BUFFER_SIZE head.bytes reads ∧
      verdict Request.parseHeaders {} [] reads = .ok (some (-1)) := by
  have haccepts := headCode_accepts hshort
  have hlength := bytes_length head
  have hgap : ∀ r, 0 ≤ r → r + BUFFER_SIZE < head.bytes.length →
      ∃ c, r < c ∧ c ≤ r + BUFFER_SIZE ∧ headCode head c = 0 := by
    intro r _ hr
    obtain ⟨c, hlow, hhigh, hfine⟩ := hpass r
    refine ⟨c, hlow, hhigh, ?_⟩
    by_contra hcode
    exact hfine ((headCode_ne_zero_iff hshort (by omega)).mp hcode)
  have hstop : headCode head head.bytes.length ≠ 0 := by
    rw [haccepts]
    decide
  obtain ⟨steps, hstrides, hsum, hwalk⟩ :=
    exists_passing_walk 0 head.bytes.length (by omega) hstop hgap
  rw [Nat.zero_add] at hsum
  obtain ⟨reads, hcut, hlengths⟩ := exists_cut hstrides hsum
  refine ⟨reads, hcut, ?_⟩
  rw [head_verdict hcut, hlengths, hwalk, haccepts]

/-- A cut into single bytes stops at such a place. -/
theorem exists_refused_cut (hshort : ¬ LongText head) {c : ℕ} (hover : Overfull head c) :
    ∃ reads, IsCut BUFFER_SIZE head.bytes reads ∧
      verdict Request.parseHeaders {} [] reads = .ok (some 431) := by
  have hsingle : Strides 1 (List.replicate head.bytes.length 1) := by
    intro n hn
    rw [List.eq_of_mem_replicate hn]
    exact ⟨Nat.one_pos, le_rfl⟩
  have hsum : (List.replicate head.bytes.length 1).sum = head.bytes.length := by
    rw [List.sum_replicate_nat, Nat.mul_one]
  have hstrides : Strides BUFFER_SIZE (List.replicate head.bytes.length 1) := by
    intro n hn
    obtain ⟨hpos, hle⟩ := hsingle n hn
    exact ⟨hpos, hle.trans (by decide)⟩
  obtain ⟨reads, hcut, hlengths⟩ := exists_cut hstrides hsum
  refine ⟨reads, hcut, ?_⟩
  rw [head_verdict hcut, hlengths,
    @walk_blocked _ 1 431 (by decide) 0 _ hsingle (c - 1) (Nat.zero_le _) ?_ ?_ ?_]
  · have hpos := hover.1
    rw [Nat.zero_add, hsum]
    have hend := hover.2.1
    omega
  · intro d hlow hhigh
    have hsame : d = c := by
      have hpos := hover.1
      omega
    rw [hsame]
    exact (headCode_ne_zero_iff hshort hover.2.1).mpr hover
  · intro d _ hd
    rw [Nat.zero_add, hsum] at hd
    exact headCode_before (Nat.le_of_not_lt (not_or.mp hshort).1) hd

/-- A head has one verdict on all its cuts exactly when a text in it is too long, when no
read can pass over the places where the size test fails, or when it is within the limit and
has no such places. -/
theorem cutIndependent_iff (head : LongHead) :
    CutIndependent head ↔ LongText head ∨
      (∃ r, ∀ c, r < c → c ≤ r + BUFFER_SIZE → Overfull head c) ∨
      head.bytes.length ≤ HEADER_MAX_BUFFER * BUFFER_SIZE ∧ ∀ c, ¬ Overfull head c := by
  by_cases hlong : LongText head
  · refine iff_of_true ?_ (Or.inl hlong)
    by_cases hline : BUFFER_SIZE < head.requestLine.length
    · exact ⟨414, Or.inr (Or.inl rfl), settledBy_longLine hline, fun _ => by decide⟩
    · exact ⟨431, Or.inr (Or.inr rfl),
        settledBy_longValue (Nat.le_of_not_lt hline) (hlong.resolve_left hline),
        fun _ => by decide⟩
  · rw [or_iff_right hlong]
    by_cases hblocked : ∃ r, ∀ c, r < c → c ≤ r + BUFFER_SIZE → Overfull head c
    · refine iff_of_true ?_ (Or.inl hblocked)
      obtain ⟨r, hrun⟩ := hblocked
      exact ⟨431, Or.inr (Or.inr rfl), settledBy_blocked hlong hrun, fun _ => by decide⟩
    · rw [or_iff_right hblocked]
      have hpass : ∀ r, ∃ c, r < c ∧ c ≤ r + BUFFER_SIZE ∧ ¬ Overfull head c := by
        intro r
        by_contra hnone
        refine hblocked ⟨r, ?_⟩
        intro c hlow hhigh
        by_contra hfine
        exact hnone ⟨c, hlow, hhigh, hfine⟩
      constructor
      · intro ⟨v, _, hsettled, hbeyond⟩
        obtain ⟨reads, hcut, haccepted⟩ := exists_accepted_cut hlong hpass
        have hv : v = -1 :=
          Option.some.inj (Except.ok.inj ((hsettled reads hcut).symm.trans haccepted))
        constructor
        · by_contra hlimit
          exact hbeyond (by omega) hv
        · intro c hover
          obtain ⟨reads', hcut', hrefused⟩ := exists_refused_cut hlong hover
          have hv' : v = 431 :=
            Option.some.inj (Except.ok.inj ((hsettled reads' hcut').symm.trans hrefused))
          omega
      · intro ⟨hlimit, hnone⟩
        exact ⟨-1, Or.inl rfl, settledBy_accepted hlong hnone, fun hbeyond => by omega⟩

theorem get_known : (ascii "GET", Method.GET) ∈ METHOD_STR := by decide

theorem root_unblanked : ∀ c ∈ ascii "/", isBlank c = false := by decide +kernel

theorem root_nonempty : ascii "/" ≠ [] := by decide

theorem root_unbroken : ¬ [13, 10] <:+: ascii "/" := by decide

theorem http11_supported : ascii "HTTP/1.1" = ascii "HTTP/1.0" ∨
    ascii "HTTP/1.1" = ascii "HTTP/1.1" := Or.inr rfl

/-- The field of the following head is one. -/
theorem name_valid (n : ℕ) : ∀ line ∈ [List.replicate n 97 ++ [(58 : UInt8)]],
    ¬ [13, 10] <:+: line ∧ 58 ∈ line := by
  intro line hline
  rw [List.mem_singleton.mp hline]
  constructor
  · intro hbroken
    rcases List.mem_append.mp (hbroken.subset (List.mem_cons_self ..)) with hletter | hcolon
    · exact absurd (List.eq_of_mem_replicate hletter) (by decide)
    · exact absurd (List.mem_singleton.mp hcolon) (by decide)
  · exact List.mem_append_right _ (List.mem_singleton_self _)

/-- A head with one field, whose name has `n` letters and whose value is empty. -/
def namedHead (n : ℕ) : LongHead where
  methodName := ascii "GET"
  method := .GET
  method_known := get_known
  target := ascii "/"
  target_unblanked := root_unblanked
  target_nonempty := root_nonempty
  target_unbroken := root_unbroken
  version := ascii "HTTP/1.1"
  version_supported := http11_supported
  fields := [List.replicate n 97 ++ [58]]
  fields_valid := name_valid n

theorem namedHead_line (n : ℕ) : (namedHead n).requestLine.length = 14 := rfl

theorem namedHead_overfull (n c : ℕ) (hn : n ≤ 4000) :
    Overfull (namedHead n) c ↔ 4016 < c ∧ c < n + 19 := by
  have hlength : (namedHead n).bytes.length = n + 21 := by
    rw [bytes_length, namedHead_line]
    show 14 + 2 + (headBytes [List.replicate n 97 ++ [58]]).length = n + 21
    rw [headBytes_cons_length]
    simp only [List.length_append, List.length_replicate, List.length_cons, List.length_nil]
    show 14 + 2 + (n + 1 + 2 + 2) = n + 21
    omega
  have hunfinished : unfinished (namedHead n).fields (c - 16) =
      if c - 16 < n + 3 then c - 16 else c - 16 - (n + 3) := by
    show unfinished [List.replicate n 97 ++ [58]] (c - 16) = _
    unfold unfinished
    rw [List.length_append, List.length_replicate, List.length_singleton]
    rfl
  unfold Overfull
  rw [hlength, namedHead_line, hunfinished]
  simp only [HEADER_MAX_BUFFER, BUFFER_SIZE]
  split
  · omega
  · omega

theorem namedHead_short (n : ℕ) : ¬ LongText (namedHead n) := by
  rintro (hline | ⟨line, hmem, hlong⟩)
  · rw [namedHead_line] at hline
    exact absurd hline (by decide)
  · obtain rfl := List.mem_singleton.mp hmem
    have hvalue : valueText (List.replicate n 97 ++ [58]) = [] := by
      unfold valueText
      cases n with
      | zero => rfl
      | succ n =>
        have hname : ∀ c ∈ List.replicate (n + 1) (97 : UInt8), (decide (c ≠ 58)) = true := by
          intro c hc
          rw [List.eq_of_mem_replicate hc]
          rfl
        show ((List.replicate (n + 1) (97 : UInt8) ++ [58]).dropWhile (· ≠ 58)).tail = []
        rw [List.dropWhile_append_of_pos hname]
        rfl
    rw [hvalue] at hlong
    exact absurd hlong (by decide)

/-- A field line of 4001 bytes passes when its CRLF comes in the same read as its end. -/
theorem not_all_cutIndependent : ¬ ∀ head : LongHead, CutIndependent head := by
  intro h
  obtain ⟨v, -, hsettled, -⟩ := h (namedHead 4000)
  have hover : Overfull (namedHead 4000) 4017 := (namedHead_overfull 4000 4017 le_rfl).mpr (by omega)
  have hpass : ∀ r, ∃ c, r < c ∧ c ≤ r + BUFFER_SIZE ∧ ¬ Overfull (namedHead 4000) c := by
    intro r
    simp only [namedHead_overfull 4000 _ le_rfl, BUFFER_SIZE]
    by_cases hr : r + 1 ≤ 4016
    · exact ⟨r + 1, by omega, by omega, by omega⟩
    · exact ⟨r + 4000, by omega, by omega, by omega⟩
  obtain ⟨reads, hcut, haccepted⟩ := exists_accepted_cut (namedHead_short 4000) hpass
  obtain ⟨reads', hcut', hrefused⟩ := exists_refused_cut (namedHead_short 4000) hover
  have hv := (hsettled reads hcut).symm.trans haccepted
  have hv' := (hsettled reads' hcut').symm.trans hrefused
  rw [Option.some.inj (Except.ok.inj hv)] at hv'
  exact absurd (Option.some.inj (Except.ok.inj hv')) (by decide)

end Webserveau.HeadLimits
