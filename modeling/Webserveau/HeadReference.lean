import Webserveau.HeadSafety

/-!
A reference reading of well-formed request heads.
The reference takes the head as a request line and a list of field lines; a field name
stands for the values of all its lines. However the stream is cut, the parser waits
until the blank line is complete and then holds what the reference says, provided the
target is a nonempty text within its line.
-/
namespace Webserveau.HeadReference

open ByteStrings OrderedMaps Formats Requests Segmentation HeadSegmentation HeadSafety

/-- The name of a field line; blanks in front of the line are not part of it. -/
def fieldName (line : Bytes) : Bytes := (line.dropWhile isBlank).takeWhile (· ≠ 58)

def fieldValue (line : Bytes) : Bytes :=
  ((line.dropWhile isBlank).dropWhile (· ≠ 58)).tail.dropWhile isBlank

/-- Two names up to letter case. -/
def SameName (a b : Bytes) : Prop := a.map lowercase = b.map lowercase

instance (a b : Bytes) : Decidable (SameName a b) := by
  unfold SameName
  infer_instance

/-- The values given under a name, in the order of their lines. -/
def valuesUnder (name : Bytes) (lines : List Bytes) : List Bytes :=
  (lines.filter fun line => SameName (fieldName line) name).map fieldValue

/-- Values are joined from left to right, and an empty value is replaced. -/
def combine : List Bytes → Option Bytes
  | [] => none
  | value :: values => some (values.foldl joinValue value)

def withCRLF (line : Bytes) : Bytes := line ++ [13, 10]

/-- The lines of a head and the blank line behind them. -/
def headBytes (lines : List Bytes) : Bytes := lines.flatMap withCRLF ++ [13, 10]

/-- A field line: it has a colon, no CRLF and no NUL, and fits into the buffer. -/
structure IsField (line : Bytes) : Prop where
  unbroken : ¬ [13, 10] <:+: line
  colon : 58 ∈ line
  nul_free : 0 ∉ line
  size : (withCRLF line).length ≤ BUFFER_SIZE

structure Head where
  methodName : Bytes
  method : Method
  method_known : (methodName, method) ∈ METHOD_STR
  target : Bytes
  target_unblanked : ∀ c ∈ target, isBlank c = false
  version : Bytes
  version_supported : version = ascii "HTTP/1.0" ∨ version = ascii "HTTP/1.1"
  fields : List Bytes
  fields_valid : ∀ line ∈ fields, IsField line

namespace Head

def requestLine (head : Head) : Bytes :=
  head.methodName ++ 32 :: (head.target ++ 32 :: head.version)

def bytes (head : Head) : Bytes := headBytes (head.requestLine :: head.fields)

/-- The size limits of a head. -/
structure Fits (head : Head) : Prop where
  line : (withCRLF head.requestLine).length ≤ BUFFER_SIZE
  total : head.bytes.length ≤ HEADER_MAX_BUFFER * BUFFER_SIZE

end Head

/-- Every read before the one that completes the head is answered 0; that one is answered
-1, the request is what the reference says and the bytes behind the head are left. -/
def ReadAsReference (head : Head) (tail : Bytes) (reads : List Bytes) : Prop :=
  ∃ before read after r rest, reads = before ++ read :: after ∧
    before.flatten.length < head.bytes.length ∧
    head.bytes.length ≤ (before ++ [read]).flatten.length ∧
    callAll Request.parseHeaders {} [] (before ++ [read]) =
      .ok (List.replicate before.length 0 ++ [-1], r, rest) ∧
    r.method = some head.method ∧ r.uri = head.target ∧
    (∀ name, 0 ∉ name → r.headers.find? name = combine (valuesUnder name head.fields)) ∧
    rest ++ after.flatten = tail

theorem takeWhile_of_nul_free {s : Bytes} (h : 0 ∉ s) : s.takeWhile (· ≠ 0) = s := by
  rw [List.takeWhile_eq_self_iff]
  intro c hc
  have hne : c ≠ 0 := fun h0 => h (h0 ▸ hc)
  simpa using hne

/-- Without NUL bytes the map identifies names exactly up to letter case. -/
theorem same_iff_sameName {a b : Bytes} (ha : 0 ∉ a) (hb : 0 ∉ b) :
    Same iLess a b = true ↔ SameName a b := by
  have hinj : Function.Injective fun c : UInt8 => c.toNat := fun x y h => UInt8.toNat_inj.mp h
  rw [same_iLess_iff, folded, folded, takeWhile_of_nul_free ha, takeWhile_of_nul_free hb, SameName]
  have hmap : ∀ s : Bytes, s.map (fun c => (lowercase c).toNat) =
      (s.map lowercase).map fun c => c.toNat := by simp
  rw [hmap a, hmap b]
  exact List.map_injective_iff.mpr hinj |>.eq_iff

theorem mem_fieldName {line : Bytes} {c : UInt8} (h : c ∈ fieldName line) : c ∈ line :=
  (List.dropWhile_sublist _).subset ((List.takeWhile_sublist _).subset h)

theorem IsField.fieldName_nul_free {line : Bytes} (h : IsField line) : 0 ∉ fieldName line :=
  fun h0 => h.nul_free (mem_fieldName h0)

theorem IsField.splitColon_eq {line : Bytes} (h : IsField line) :
    ∃ value, splitColon (line.dropWhile isBlank) = some (fieldName line, value) ∧
      value.length ≤ BUFFER_SIZE ∧ value.dropWhile isBlank = fieldValue line := by
  have hcolon : 58 ∈ line.dropWhile isBlank := by
    have hsplit := h.colon
    rw [← List.takeWhile_append_dropWhile (p := isBlank) (l := line), List.mem_append] at hsplit
    rcases hsplit with hblank | hrest
    · have := List.mem_takeWhile_imp hblank
      simp [isBlank] at this
    · exact hrest
  refine ⟨((line.dropWhile isBlank).dropWhile (· ≠ 58)).tail, ?_, ?_, rfl⟩
  · rw [splitColon, if_pos hcolon]
    rfl
  · have hlen : ((line.dropWhile isBlank).dropWhile (· ≠ 58)).tail.length ≤ line.length :=
      ((List.tail_sublist _).trans
        ((List.dropWhile_sublist _).trans (List.dropWhile_sublist _))).length_le
    have hsize := h.size
    simp only [withCRLF, List.length_append] at hsize
    omega

/-- The effect of one field line on the request. -/
def storeField (r : Request) (line : Bytes) : Request :=
  { r.storeHeader (fieldName line) (fieldValue line) with line := [] }

/-- The field lines and the blank line are read to the end. -/
theorem headerLoop_fields (fields : List Bytes) (hfields : ∀ line ∈ fields, IsField line)
    (r : Request) (hline : r.line = []) (tail : Bytes) :
    r.headerLoop (headBytes fields ++ tail) =
      .ok (-1, { fields.foldl storeField r with
        status := .term, final_status := .host, line := [] }, tail) := by
  induction fields generalizing r with
  | nil =>
    have hcut : cutAt 13 10 (r.line ++ ([13, 10] ++ tail)) = some ([], tail) := by
      rw [hline, cutAt_eq_some_iff (by decide)]
      exact ⟨rfl, by simp⟩
    rw [Request.headerLoop_eq]
    simp only [headBytes, List.flatMap_nil, List.nil_append, hcut]
    simp
  | cons line fields ih =>
    have hfield := hfields line (List.mem_cons_self ..)
    obtain ⟨value, hsplit, hsize, hvalue⟩ := hfield.splitColon_eq
    have hne : line ≠ [] := by
      rintro rfl
      simpa using hfield.colon
    have hcut : cutAt 13 10 (r.line ++ (headBytes (line :: fields) ++ tail)) =
        some (line, headBytes fields ++ tail) := by
      rw [hline, cutAt_eq_some_iff (by decide)]
      exact ⟨by simp [headBytes, withCRLF], hfield.unbroken⟩
    have hbuffer : headBytes (line :: fields) ++ tail ≠ [] := by simp [headBytes]
    rw [Request.headerLoop_eq, if_neg hbuffer]
    simp only [hcut, hne, if_false, hsplit, hvalue, Nat.not_lt.mpr hsize]
    exact ih (fun l hl => hfields l (List.mem_cons_of_mem _ hl)) _ rfl

theorem checkSizes_in_bounds {r : Request} (hr : r.status = .ongoing)
    (hsize : r.header_size ≤ HEADER_MAX_BUFFER * BUFFER_SIZE) (hline : r.line.length ≤ BUFFER_SIZE) :
    r.checkSizes = (0, r) := by
  have hin : ¬ (r.header_size > HEADER_MAX_BUFFER * BUFFER_SIZE ∨ r.line.length > BUFFER_SIZE) := by
    omega
  rw [Request.checkSizes, if_pos (Or.inl hr), if_neg hin]

/-- Without a complete line the loop asks for more as long as the sizes are in bounds. -/
theorem headerLoop_no_line {r : Request} (hr : r.status = .ongoing) (hline : r.line = [])
    (hlow : 0 ≤ r.header_size) (hhigh : r.header_size ≤ HEADER_MAX_BUFFER * BUFFER_SIZE)
    {p : Bytes} (hcut : cutAt 13 10 p = none) (hp : p.length ≤ BUFFER_SIZE) :
    ∃ r' rest, r.headerLoop p = .ok (0, r', rest) := by
  have hint : toInt r.header_size = r.header_size := by
    apply toInt_of_range
    · omega
    · simp only [HEADER_MAX_BUFFER, BUFFER_SIZE] at hhigh
      omega
  rw [Request.headerLoop_eq]
  split
  · simp only [hint]
    rw [checkSizes_in_bounds hr hhigh (by simp [hline])]
    exact ⟨_, _, rfl⟩
  · rw [hline, List.nil_append, hcut]
    simp only
    rw [checkSizes_in_bounds (r := { r with line := p }) hr hhigh hp]
    exact ⟨_, _, rfl⟩

/-- A proper front part of the field lines asks for more. -/
theorem headerLoop_waits (fields : List Bytes) (hfields : ∀ line ∈ fields, IsField line)
    (r : Request) (hr : r.status = .ongoing) (hline : r.line = [])
    (hlow : 0 ≤ r.header_size) (hhigh : r.header_size ≤ HEADER_MAX_BUFFER * BUFFER_SIZE)
    (p : Bytes) (hp : p <+: headBytes fields) (hne : p ≠ headBytes fields) :
    ∃ r' rest, r.headerLoop p = .ok (0, r', rest) := by
  induction fields generalizing r p with
  | nil =>
    have hlen := hp.length_le
    have hshort : p.length < 2 := by
      refine lt_of_le_of_ne hlen ?_
      intro heq
      exact hne (hp.eq_of_length heq)
    have hcut : cutAt 13 10 (headBytes []) = some ([], []) := rfl
    apply headerLoop_no_line hr hline hlow hhigh (cutAt_short_front hcut hp hshort)
    unfold BUFFER_SIZE
    omega
  | cons line fields ih =>
    have hfield := hfields line (List.mem_cons_self ..)
    have hsize := hfield.size
    simp only [withCRLF, List.length_append, List.length_cons, List.length_nil] at hsize
    have hcut : cutAt 13 10 (headBytes (line :: fields)) = some (line, headBytes fields) := by
      rw [cutAt_eq_some_iff (by decide)]
      exact ⟨by simp [headBytes, withCRLF], hfield.unbroken⟩
    by_cases hlen : p.length < line.length + 2
    · exact headerLoop_no_line hr hline hlow hhigh (cutAt_short_front hcut hp hlen) (by omega)
    · obtain ⟨p', hpcut, hp', rfl⟩ := cutAt_long_front (by decide) hcut hp (by omega)
      obtain ⟨value, hsplit, hvsize, hvalue⟩ := hfield.splitColon_eq
      have hempty : line ≠ [] := by
        rintro rfl
        simpa using hfield.colon
      have hbuffer : line ++ [13, 10] ++ p' ≠ [] := by simp
      have hne' : p' ≠ headBytes fields := by
        rintro rfl
        exact hne (by simp [headBytes, withCRLF])
      rw [Request.headerLoop_eq, if_neg hbuffer, hline, List.nil_append, hpcut]
      simp only [hempty, if_false, hsplit, Nat.not_lt.mpr hvsize]
      exact ih (fun l hl => hfields l (List.mem_cons_of_mem _ hl)) _ (by exact hr) rfl
        (by exact hlow) (by exact hhigh) p' hp' hne'

theorem method_word_valid {name : Bytes} {method : Method} (h : (name, method) ∈ METHOD_STR) :
    (∀ c ∈ name, isBlank c = false ∧ c ≠ 13 ∧ c ≠ 10) ∧ (∃ c rest, name = c :: rest ∧ isalpha c) ∧
      getMethodIndex name = some method := by
  simp only [METHOD_STR, List.mem_cons, Prod.mk.injEq, List.not_mem_nil, or_false] at h
  rcases h with ⟨rfl, rfl⟩ | ⟨rfl, rfl⟩ | ⟨rfl, rfl⟩ | ⟨rfl, rfl⟩ | ⟨rfl, rfl⟩
  all_goals exact ⟨by decide +kernel, ⟨_, _, rfl, by decide⟩, by decide⟩

namespace Head

variable (head : Head)

theorem methodWord_requestLine (rest : Bytes) :
    methodWord (head.methodName ++ 32 :: rest) = head.methodName := by
  obtain ⟨hword, -, -⟩ := method_word_valid head.method_known
  rw [methodWord, List.takeWhile_append_of_pos (fun c hc => by simp [(hword c hc).1])]
  simp [isBlank]

theorem targetPart_requestLine (rest : Bytes) :
    targetPart (head.methodName ++ 32 :: rest) = rest.dropWhile isBlank := by
  obtain ⟨hword, -, -⟩ := method_word_valid head.method_known
  rw [targetPart, List.dropWhile_append_of_pos (fun c hc => by simp [(hword c hc).1])]
  simp [isBlank]

theorem version_unblanked : ∀ c ∈ head.version, isBlank c = false := by
  rcases head.version_supported with h | h <;> rw [h] <;> decide +kernel

theorem versionCode_version : versionCode head.version = 0 := by
  rcases head.version_supported with h | h <;> rw [h] <;> decide

/-- The target is a text of its own within the first line. -/
def TargetStands : Prop := head.target ≠ [] ∧ ¬ [13, 10] <:+: head.target

/-- A request line with a standing target is cut into its three words. -/
theorem parseRequestLine_requestLine (h : head.target ≠ []) (r : Request)
    (hr : r.line = head.requestLine) :
    r.parseRequestLine = .ok (0, { r with method := some head.method, uri := head.target }) := by
  obtain ⟨-, -, hmethod⟩ := method_word_valid head.method_known
  have htarget : targetPart r.line = head.target ++ 32 :: head.version := by
    rw [hr, requestLine, targetPart_requestLine]
    cases htext : head.target with
    | nil => exact absurd htext h
    | cons c rest =>
      have hc := head.target_unblanked c (by simp [htext])
      rw [List.cons_append, List.dropWhile_cons_of_neg (by simp [hc])]
  have hword : ∀ c ∈ head.target, (!isBlank c) = true :=
    fun c hc => by simp [head.target_unblanked c hc]
  rw [Request.parseRequestLine_eq, htarget, hr, requestLine, methodWord_requestLine, hmethod]
  rw [List.dropWhile_append_of_pos hword, List.takeWhile_append_of_pos hword]
  simp [isBlank, versionCode_version]

theorem bytes_eq : head.bytes = head.requestLine ++ [13, 10] ++ headBytes head.fields := by
  simp [bytes, headBytes, withCRLF]

/-- A head begins with a letter, so nothing of it is skipped. -/
theorem skip_front {p tail : Bytes} (hp : p <+: head.bytes ++ tail) (hne : p ≠ []) :
    p.dropWhile (fun c => !isalpha c) = p := by
  obtain ⟨-, ⟨c, rest, hname, hc⟩, -⟩ := method_word_valid head.method_known
  cases p with
  | nil => exact absurd rfl hne
  | cons d p =>
    have hd : d = c := by
      rw [bytes_eq, requestLine, hname] at hp
      exact (List.cons_prefix_cons.mp hp).1
    rw [hd, List.dropWhile_cons_of_neg (by simp [hc])]

theorem unbroken_methodName : ¬ [13, 10] <:+: head.methodName := by
  obtain ⟨hword, -, -⟩ := method_word_valid head.method_known
  intro hin
  exact (hword 13 (hin.subset (by simp))).2.1 rfl

theorem unbroken_requestLine (h : ¬ [13, 10] <:+: head.target) :
    ¬ [13, 10] <:+: head.requestLine := by
  have hversion : ¬ [13, 10] <:+: head.version := by
    rcases head.version_supported with hv | hv <;> rw [hv] <;> decide
  rw [requestLine, delimiter_infix_around (by decide) (by decide),
    delimiter_infix_around (by decide) (by decide)]
  rintro (hin | hin | hin)
  · exact head.unbroken_methodName hin
  · exact h hin
  · exact hversion hin

theorem cutAt_bytes (h : ¬ [13, 10] <:+: head.target) :
    cutAt 13 10 head.bytes = some (head.requestLine, headBytes head.fields) :=
  (cutAt_eq_some_iff (by decide)).mpr ⟨head.bytes_eq, head.unbroken_requestLine h⟩

/-- A head whose target does not stand has a first line that ends with its target. -/
theorem cutsShort_of_not_stands (hfits : head.Fits) (h : ¬ head.TargetStands) (tail : Bytes) :
    CutsShort {} (head.bytes ++ tail) := by
  obtain ⟨-, -, hmethod⟩ := method_word_valid head.method_known
  have hsize := hfits.line
  simp only [withCRLF, requestLine, List.length_append, List.length_cons, List.length_nil] at hsize
  have hshort : ∃ line rest, cutAt 13 10 head.bytes = some (line, rest) ∧ ShortLine line := by
    by_cases hbroken : [13, 10] <:+: head.target
    · obtain ⟨⟨front, back⟩, hcut⟩ : ∃ cut, cutAt 13 10 head.target = some cut := by
        apply Option.ne_none_iff_exists'.mp
        rw [ne_eq, cutAt_eq_none_iff, not_not]
        exact hbroken
      obtain ⟨htext, hfree⟩ := (cutAt_eq_some_iff (by decide)).mp hcut
      have hlen := congrArg List.length htext
      simp only [List.length_append, List.length_cons, List.length_nil] at hlen
      refine ⟨head.methodName ++ 32 :: front,
        back ++ 32 :: head.version ++ [13, 10] ++ headBytes head.fields, ?_, ?_, ?_, ?_⟩
      · rw [cutAt_eq_some_iff (by decide), delimiter_infix_around (by decide) (by decide)]
        refine ⟨by simp [bytes_eq, requestLine, htext], ?_⟩
        rintro (hin | hin)
        · exact head.unbroken_methodName hin
        · exact hfree hin
      · simp only [List.length_append, List.length_cons]
        omega
      · rw [methodWord_requestLine, hmethod]
        simp
      · intro c hc
        rw [targetPart_requestLine] at hc
        apply head.target_unblanked
        rw [htext]
        exact List.mem_append_left _ (List.mem_append_left _ ((List.dropWhile_sublist _).subset hc))
    · have hempty : head.target = [] := by
        by_contra hne
        exact h ⟨hne, hbroken⟩
      refine ⟨_, _, head.cutAt_bytes hbroken, ?_, ?_, ?_⟩
      · simp only [requestLine, List.length_append, List.length_cons]
        omega
      · rw [requestLine, methodWord_requestLine, hmethod]
        simp
      · intro c hc
        rw [requestLine, targetPart_requestLine, hempty] at hc
        have hblank : isBlank 32 = true := rfl
        rw [List.nil_append, List.dropWhile_cons_of_pos hblank] at hc
        exact head.version_unblanked c ((List.dropWhile_sublist _).subset hc)
  obtain ⟨line, rest, hcut, hline⟩ := hshort
  refine ⟨line, ?_, hline⟩
  have hne : head.bytes ++ tail ≠ [] := by simp [bytes_eq]
  have hskip := head.skip_front (List.prefix_refl (head.bytes ++ tail)) hne
  rw [completedLine]
  simp only [hskip]
  cases hbytes : head.bytes ++ tail with
  | nil => exact absurd hbytes hne
  | cons c text =>
    simp only [List.nil_append, ← hbytes, cutAt_append hcut tail, Option.map_some]

/-- The request after its request line. -/
def opened (size : ℤ) : Request :=
  { method := some head.method, uri := head.target, status := .ongoing, header_size := size }

/-- The request after the whole head. -/
def parsed (size : ℤ) : Request :=
  { head.fields.foldl storeField (head.opened size) with
    status := .term, final_status := .host, line := [] }

/-- A call that completes the request line goes on with the field lines. -/
theorem parseHeaders_cut (hfits : head.Fits) (h : head.target ≠ []) {p tail rest : Bytes}
    (hp : p <+: head.bytes ++ tail) (hcut : cutAt 13 10 p = some (head.requestLine, rest)) :
    Request.parseHeaders {} p = (head.opened (toInt p.length)).headerLoop rest := by
  have hsize := hfits.line
  simp only [withCRLF, List.length_append, List.length_cons, List.length_nil] at hsize
  have hne : p ≠ [] := by
    rintro rfl
    simp [cutAt, find] at hcut
  have hskip := head.skip_front hp hne
  have hlong : ¬ head.requestLine.length > BUFFER_SIZE := by omega
  rw [parseHeaders_start {} rfl hskip hne, Request.requestLine_eq _ rfl, List.nil_append, hcut]
  dsimp only
  rw [if_neg hlong]
  rw [head.parseRequestLine_requestLine h _ rfl]
  dsimp only
  rw [if_neg (not_not.mpr rfl)]
  rfl

/-- A call inside the request line waits. -/
theorem parseHeaders_uncut {p tail : Bytes} (hp : p <+: head.bytes ++ tail)
    (hcut : cutAt 13 10 p = none) : ∃ r' rest, Request.parseHeaders {} p = .ok (0, r', rest) := by
  by_cases hne : p = []
  · subst hne
    exact ⟨_, _, rfl⟩
  · rw [parseHeaders_start {} rfl (head.skip_front hp hne) hne, Request.requestLine_eq _ rfl,
      List.nil_append, hcut]
    exact ⟨_, _, rfl⟩

theorem parseHeaders_complete (hfits : head.Fits) (h : head.TargetStands) (tail : Bytes) :
    Request.parseHeaders {} (head.bytes ++ tail) =
      .ok (-1, head.parsed (toInt (head.bytes ++ tail).length), tail) := by
  have hcut := cutAt_append (head.cutAt_bytes h.2) tail
  rw [head.parseHeaders_cut hfits h.1 (List.prefix_refl _) hcut]
  exact headerLoop_fields head.fields head.fields_valid _ rfl tail

theorem parseHeaders_waits (hfits : head.Fits) (h : head.TargetStands) (p : Bytes)
    (hp : p <+: head.bytes) (hne : p ≠ head.bytes) :
    ∃ r' rest, Request.parseHeaders {} p = .ok (0, r', rest) := by
  have hp' : p <+: head.bytes ++ [] := by rwa [List.append_nil]
  by_cases hlen : p.length < head.requestLine.length + 2
  · exact head.parseHeaders_uncut hp' (cutAt_short_front (head.cutAt_bytes h.2) hp hlen)
  · obtain ⟨p', hcut, hfields, rfl⟩ :=
      cutAt_long_front (by decide) (head.cutAt_bytes h.2) hp (by omega)
    have htotal := hfits.total
    have hbound := hp.length_le
    have hint : toInt (head.requestLine ++ [13, 10] ++ p').length =
        (head.requestLine ++ [13, 10] ++ p').length := by
      apply toInt_of_range
      · omega
      · simp only [HEADER_MAX_BUFFER, BUFFER_SIZE] at htotal
        omega
    rw [head.parseHeaders_cut hfits h.1 hp' hcut, hint]
    refine headerLoop_waits head.fields head.fields_valid _ rfl rfl ?_ ?_ p' hfields ?_
    · exact Int.natCast_nonneg _
    · have hle := hbound.trans htotal
      change ((_ : ℕ) : ℤ) ≤ _
      exact_mod_cast hle
    · rintro rfl
      exact hne head.bytes_eq.symm

end Head

/-- The value stored so far under a name, after one more value. -/
def addValue (stored : Option Bytes) (value : Bytes) : Option Bytes :=
  some (joinValue (stored.getD []) value)

theorem combine_eq_foldl (values : List Bytes) : combine values = values.foldl addValue none := by
  cases values with
  | nil => rfl
  | cons value values =>
    have hfold : ∀ (stored : Bytes) (values : List Bytes),
        values.foldl addValue (some stored) = some (values.foldl joinValue stored) := by
      intro stored values
      induction values generalizing stored with
      | nil => rfl
      | cons v values ih => exact ih (joinValue stored v)
    exact (hfold value values).symm

/-- The fields of a head are stored under their names up to letter case. -/
theorem find?_foldl_storeField (fields : List Bytes) (hfields : ∀ line ∈ fields, IsField line)
    (r : Request) (name : Bytes) (hname : 0 ∉ name) :
    (fields.foldl storeField r).headers.find? name =
      (valuesUnder name fields).foldl addValue (r.headers.find? name) := by
  induction fields generalizing r with
  | nil => rfl
  | cons line fields ih =>
    have hfield := hfields line (List.mem_cons_self ..)
    have hsame := same_iff_sameName hfield.fieldName_nul_free hname
    rw [List.foldl_cons, ih (fun l hl => hfields l (List.mem_cons_of_mem _ hl))]
    by_cases hline : SameName (fieldName line) name
    · have hvalues : valuesUnder name (line :: fields) =
          fieldValue line :: valuesUnder name fields := by simp [valuesUnder, hline]
      rw [hvalues, List.foldl_cons]
      congr 1
      rw [addValue, ← OrderedMap.find?_congr r.headers (hsame.mpr hline)]
      exact OrderedMap.find?_insert_same _ _ (hsame.mpr hline)
    · have hvalues : valuesUnder name (line :: fields) = valuesUnder name fields := by
        simp [valuesUnder, hline]
      rw [hvalues]
      congr 1
      apply OrderedMap.find?_insert_of_not_same
      simpa using fun hs => hline (hsame.mp hs)

theorem foldl_storeField_method (fields : List Bytes) (r : Request) :
    (fields.foldl storeField r).method = r.method ∧ (fields.foldl storeField r).uri = r.uri := by
  induction fields generalizing r with
  | nil => exact ⟨rfl, rfl⟩
  | cons line fields ih => exact ih (storeField r line)

/-- The piece that completes a head holds a first part of what follows it. -/
theorem flatten_reaching {head tail read : Bytes} {before after reads : List Bytes}
    (hcut : reads.flatten = head ++ tail) (hreads : reads = before ++ read :: after)
    (hreach : head.length ≤ (before ++ [read]).flatten.length) :
    ∃ t, (before ++ [read]).flatten = head ++ t ∧ t ++ after.flatten = tail := by
  have hstream : (before ++ [read]).flatten ++ after.flatten = head ++ tail := by
    rw [← hcut, hreads]
    simp
  have hpre : head <+: (before ++ [read]).flatten := by
    refine List.prefix_of_prefix_length_le (List.prefix_append _ tail) ?_ hreach
    rw [← hstream]
    exact List.prefix_append _ _
  obtain ⟨t, ht⟩ := hpre
  refine ⟨t, ht.symm, ?_⟩
  rw [← ht, List.append_assoc] at hstream
  exact List.append_cancel_left hstream

theorem targetStands_of_readAsReference {head : Head} (hfits : head.Fits) {tail : Bytes}
    {reads : List Bytes} (hcut : reads.flatten = head.bytes ++ tail)
    (h : ReadAsReference head tail reads) : head.TargetStands := by
  obtain ⟨before, read, after, r, rest, hreads, -, hreach, hrun, -⟩ := h
  by_contra hstands
  obtain ⟨t, hflat, -⟩ := flatten_reaching hcut hreads hreach
  have hthrow := (parseHeaders_error_iff _ _).mpr (head.cutsShort_of_not_stands hfits hstands t)
  obtain ⟨s, left, hbefore, hlast⟩ := callAll_last hrun
  obtain ⟨rfl, hstand⟩ := callAll_zeros parseHeaders_incremental []
    (standsFor_nil (by simp [Open])) before hbefore
    (fun code hcode => (List.mem_replicate.mp hcode).2)
  have hflat' : before.flatten ++ read = head.bytes ++ t := by
    rw [← hflat]
    simp
  rw [List.nil_append, hstand.2 read, List.nil_append, hflat', hthrow] at hlast
  simp at hlast

theorem readAsReference_of_targetStands {head : Head} (hfits : head.Fits) {tail : Bytes}
    {reads : List Bytes} (hcut : reads.flatten = head.bytes ++ tail) (h : head.TargetStands) :
    ReadAsReference head tail reads := by
  have hne : head.bytes ≠ [] := by simp [Head.bytes_eq]
  obtain ⟨before, read, after, hreads, hlt, hreach, hrun⟩ :=
    callAll_message parseHeaders_incremental (s := {}) (by simp [Open]) head.bytes hne tail
      (head.parseHeaders_waits hfits h) reads hcut
  obtain ⟨t, hflat, hrest⟩ := flatten_reaching hcut hreads hreach
  rw [hflat, head.parseHeaders_complete hfits h] at hrun
  obtain ⟨hmethod, huri⟩ := foldl_storeField_method head.fields
    (head.opened (toInt (head.bytes ++ t).length))
  refine ⟨before, read, after, _, t, hreads, hlt, hreach, hrun, hmethod, huri, ?_, hrest⟩
  intro name hname
  rw [combine_eq_foldl]
  exact find?_foldl_storeField head.fields head.fields_valid _ name hname

/-- A head is read as the reference says, on every cut of its stream, exactly when its
target is a nonempty text within the first line. -/
theorem readAsReference_iff (head : Head) (hfits : head.Fits) (tail : Bytes)
    (reads : List Bytes) (hcut : reads.flatten = head.bytes ++ tail) :
    ReadAsReference head tail reads ↔ head.target ≠ [] ∧ ¬ [13, 10] <:+: head.target :=
  ⟨targetStands_of_readAsReference hfits hcut, readAsReference_of_targetStands hfits hcut⟩

/-- A head with one field. -/
def getHead (target : Bytes) (h : ∀ c ∈ target, isBlank c = false) : Head where
  methodName := ascii "GET"
  method := .GET
  method_known := by decide
  target := target
  target_unblanked := h
  version := ascii "HTTP/1.1"
  version_supported := Or.inr rfl
  fields := [ascii "Host: a"]
  fields_valid := by
    intro line hline
    rw [List.mem_singleton.mp hline]
    exact ⟨by decide, by decide, by decide, by decide⟩

theorem getHead_root_read :
    (getHead (ascii "/") (by decide +kernel)).Fits ∧
      ReadAsReference (getHead (ascii "/") (by decide +kernel)) (ascii "GET")
        [ascii "GET / HTTP/1.1\r", ascii "\nHost: a\r\n\r\nGET"] := by
  have hfits : (getHead (ascii "/") (by decide +kernel)).Fits := ⟨by decide, by decide⟩
  refine ⟨hfits, ?_⟩
  exact (readAsReference_iff _ hfits _ _ (by decide)).mpr ⟨by decide, by decide⟩

/-- A head with an empty target is not read: `GET  HTTP/1.1`. -/
theorem not_all_heads_read :
    ¬ ∀ (head : Head) (tail : Bytes) (reads : List Bytes), head.Fits →
      (∀ read ∈ reads, read ≠ []) → reads.flatten = head.bytes ++ tail →
        ReadAsReference head tail reads := by
  intro h
  have hfits : (getHead [] (by decide +kernel)).Fits := ⟨by decide, by decide⟩
  have hread := h (getHead [] (by decide +kernel)) [] [(getHead [] (by decide +kernel)).bytes]
    hfits (by decide) (by simp)
  have hstands := targetStands_of_readAsReference hfits (by simp) hread
  exact hstands.1 rfl

end Webserveau.HeadReference
