import Webserveau.HeadParsing
import Webserveau.Segmentation

/-!
The parser of request heads does not see how its input is cut.
A call that asks for more bytes leaves the buffer empty, and the next call continues as
one call on the joined bytes would. The running head size is the only field that counts
the bytes of a call, and it only counts their total.
-/
namespace Webserveau.HeadSegmentation

open ByteStrings OrderedMaps Formats Requests Segmentation

/-- The request with the size of the next bytes added to its head size. -/
def grow (r : Request) (n : ℕ) : Request := { r with header_size := toInt (r.header_size + n) }

@[simp] theorem grow_line (r : Request) (n : ℕ) : (grow r n).line = r.line := rfl

theorem grow_grow (r : Request) (m n : ℕ) : grow (grow r m) n = grow r (m + n) := by
  simp only [grow, toInt_add_toInt]
  rw [Int.add_assoc, Int.natCast_add]

theorem grow_toInt (r : Request) (n : ℕ) :
    grow { r with header_size := toInt r.header_size } n = grow r n := by
  simp only [grow, toInt_add_toInt]

theorem toInt_toInt (x : ℤ) : toInt (toInt x) = toInt x := by
  simpa using toInt_add_toInt x 0

/-- A size check passes and leaves the request alone, or raises an error. -/
theorem checkSizes_cases (r : Request) :
    r.checkSizes = (0, r) ∨
      ∃ error verbose, 400 ≤ error ∧ r.checkSizes = r.fillError error verbose := by
  unfold Request.checkSizes
  split
  · split
    · exact Or.inr ⟨431, _, by omega, rfl⟩
    · exact Or.inl rfl
  · split
    · split
      · exact Or.inr ⟨413, _, by omega, rfl⟩
      · exact Or.inl rfl
    · split
      · split
        · exact Or.inr ⟨400, _, by omega, rfl⟩
        · exact Or.inl rfl
      · exact Or.inl rfl

/-- A size check does not end a head. -/
theorem checkSizes_code (r : Request) : r.checkSizes.1 ≠ -1 := by
  rcases checkSizes_cases r with hpass | ⟨error, verbose, hcode, hfail⟩
  · rw [hpass]
    show (0 : ℤ) ≠ -1
    decide
  · rw [hfail]
    show error ≠ -1
    omega

theorem checkSizes_of_zero {r : Request} (h : r.checkSizes.1 = 0) : r.checkSizes = (0, r) := by
  rcases checkSizes_cases r with hpass | ⟨error, verbose, hcode, hfail⟩
  · exact hpass
  · rw [hfail] at h
    change error = 0 at h
    omega

/-- Between two calls the loop over header lines has not seen where its input was cut. -/
theorem headerLoop_append (r : Request) (hr : r.status = .ongoing) (x : Bytes) {r' : Request}
    {rest : Bytes} (h : r.headerLoop x = .ok (0, r', rest)) :
    r'.status = .ongoing ∧ rest = [] ∧
      ∀ y, (grow r' y.length).headerLoop y = (grow r y.length).headerLoop (x ++ y) := by
  induction hn : r.line.length + x.length using Nat.strong_induction_on generalizing r x with
  | h n ih =>
    rw [Request.headerLoop_eq] at h
    by_cases hx : x = []
    · subst hx
      simp only [if_true, Except.ok.injEq, Prod.mk.injEq] at h
      obtain ⟨hcode, hstate, rfl⟩ := h
      rw [checkSizes_of_zero hcode] at hstate
      subst hstate
      refine ⟨hr, rfl, ?_⟩
      intro y
      rw [grow_toInt, List.nil_append]
    · simp only [hx, if_false] at h
      cases hcut : cutAt 13 10 (r.line ++ x) with
      | none =>
        simp only [hcut, Except.ok.injEq, Prod.mk.injEq] at h
        obtain ⟨hcode, hstate, rfl⟩ := h
        rw [checkSizes_of_zero hcode] at hstate
        subst hstate
        refine ⟨hr, rfl, ?_⟩
        intro y
        by_cases hy : y = []
        · subst hy
          rw [Request.headerLoop_eq, Request.headerLoop_eq]
          simp [hx, hcut, grow, toInt_toInt]
        · rw [Request.headerLoop_eq, Request.headerLoop_eq (grow r y.length)]
          simp [hx, hy, grow, Request.storeHeader, Request.fillError, Request.getHeader]
      | some cut =>
        obtain ⟨line, rest'⟩ := cut
        have hlen := cutAt_length hcut
        rw [List.length_append] at hlen
        simp only [hcut] at h
        split at h
        · simp at h
        · rename_i hline
          cases hcolon : splitColon (line.dropWhile isBlank) with
          | none => simp [hcolon] at h
          | some header =>
            obtain ⟨name, value⟩ := header
            simp only [hcolon] at h
            split at h
            · simp at h
            · rename_i hsize
              obtain ⟨hstatus, hrest, hnext⟩ := ih (rest'.length) (by omega) _ (by exact hr)
                rest' h (by simp)
              refine ⟨hstatus, hrest, ?_⟩
              intro y
              have hjoined := cutAt_append hcut y
              rw [List.append_assoc] at hjoined
              rw [hnext y, Request.headerLoop_eq (grow r y.length)]
              simp only [List.append_eq_nil_iff, hx, false_and, if_false, grow_line, hjoined, hline,
                hcolon, hsize]
              rfl

/-- The end of a head is found alike whatever follows it. -/
theorem headerLoop_extend (r : Request) (x : Bytes) {r' : Request} {rest : Bytes}
    (h : r.headerLoop x = .ok (-1, r', rest)) (y : Bytes) :
    (grow r y.length).headerLoop (x ++ y) = .ok (-1, grow r' y.length, rest ++ y) := by
  induction hn : r.line.length + x.length using Nat.strong_induction_on generalizing r x with
  | h n ih =>
    rw [Request.headerLoop_eq] at h
    by_cases hx : x = []
    · rw [if_pos hx] at h
      exact absurd (congrArg Prod.fst (Except.ok.inj h)) (checkSizes_code _)
    · rw [if_neg hx] at h
      rw [Request.headerLoop_eq,
        if_neg (fun hnil => hx (List.append_eq_nil_iff.mp hnil).1), grow_line]
      cases hcut : cutAt 13 10 (r.line ++ x) with
      | none =>
        simp only [hcut] at h
        exact absurd (congrArg Prod.fst (Except.ok.inj h)) (checkSizes_code _)
      | some cut =>
        obtain ⟨line, rest'⟩ := cut
        have hjoined := cutAt_append hcut y
        rw [List.append_assoc] at hjoined
        have hlen := cutAt_length hcut
        rw [List.length_append] at hlen
        simp only [hcut] at h
        simp only [hjoined]
        by_cases hline : line = []
        · rw [if_pos hline] at h ⊢
          obtain ⟨-, hstate⟩ := Prod.mk.inj (Except.ok.inj h)
          obtain ⟨rfl, rfl⟩ := Prod.mk.inj hstate
          rfl
        · rw [if_neg hline] at h ⊢
          cases hcolon : splitColon (line.dropWhile isBlank) with
          | none => simp [hcolon] at h
          | some header =>
            obtain ⟨name, value⟩ := header
            simp only [hcolon] at h ⊢
            by_cases hsize : value.length > BUFFER_SIZE
            · simp [if_pos hsize] at h
            · rw [if_neg hsize] at h ⊢
              exact ih rest'.length (by omega) _ rest' h (by simp)

/-- Reading the request line does not look at the head size. -/
theorem parseRequestLine_grow (r : Request) (n : ℕ) :
    (grow r n).parseRequestLine =
      match r.parseRequestLine with
      | .error e => .error e
      | .ok (res, r') => .ok (res, grow r' n) := by
  rw [Request.parseRequestLine_eq, Request.parseRequestLine_eq]
  simp only [grow_line]
  by_cases hm : getMethodIndex (methodWord r.line) = none
  · simp only [hm, if_true]
    rfl
  · simp only [hm, if_false]
    cases (targetPart r.line).dropWhile fun c => !isBlank c with
    | nil => rfl
    | cons c version =>
      by_cases hv : versionCode version = 0
      · simp only [hv, ne_eq, not_true_eq_false, if_false]
        rfl
      · simp only [hv, ne_eq, not_false_eq_true, if_true]
        rfl

/-- The request line is accepted or answered with an error, in the same parser phase. -/
theorem parseRequestLine_cases {r r' : Request} {res : ℤ}
    (h : r.parseRequestLine = .ok (res, r')) :
    r'.status = r.status ∧ (res = 0 ∨ 400 ≤ res ∧ r'.getError = res) := by
  rw [Request.parseRequestLine_eq] at h
  split at h
  · simp only [Request.fillError, Except.ok.injEq, Prod.mk.injEq] at h
    obtain ⟨rfl, rfl⟩ := h
    exact ⟨rfl, Or.inr ⟨by decide, rfl⟩⟩
  · split at h
    · simp at h
    · simp only at h
      split at h
      · simp only [Request.fillError, Except.ok.injEq, Prod.mk.injEq] at h
        obtain ⟨rfl, rfl⟩ := h
        exact ⟨rfl, Or.inr ⟨by decide, rfl⟩⟩
      · simp only [Except.ok.injEq, Prod.mk.injEq] at h
        obtain ⟨rfl, rfl⟩ := h
        exact ⟨rfl, Or.inl rfl⟩

/-- The phases in which a request line or header lines are read. -/
def InHead (r : Request) : Prop := r.status = .rline ∨ r.status = .ongoing

theorem requestLine_ongoing {r : Request} (hr : r.status = .ongoing) (buffer : Bytes) :
    r.requestLine buffer = r.headerLoop buffer := by
  have hne : r.status ≠ .rline := by simp [hr]
  rw [Request.requestLine, if_neg hne]

/-- Between two calls the request line has not seen where its input was cut. -/
theorem requestLine_append (r : Request) (hr : InHead r) (x : Bytes) {r' : Request} {rest : Bytes}
    (h : r.requestLine x = .ok (0, r', rest)) :
    InHead r' ∧ rest = [] ∧
      ∀ y, (grow r' y.length).requestLine y = (grow r y.length).requestLine (x ++ y) := by
  rcases hr with hr | hr
  · rw [Request.requestLine_eq r hr] at h
    cases hcut : cutAt 13 10 (r.line ++ x) with
    | none =>
      simp only [hcut, Except.ok.injEq, Prod.mk.injEq] at h
      obtain ⟨hcode, hstate, rfl⟩ := h
      rw [checkSizes_of_zero hcode] at hstate
      subst hstate
      refine ⟨Or.inl hr, rfl, ?_⟩
      intro y
      rw [Request.requestLine_eq _ (by exact hr), Request.requestLine_eq (grow r y.length) hr]
      simp only [grow_line, List.append_assoc]
      rfl
    | some cut =>
      obtain ⟨line, rest'⟩ := cut
      simp only [hcut] at h
      split at h
      · simp at h
      · rename_i hsize
        cases hparse : ({ r with line := line } : Request).parseRequestLine with
        | error e => simp [hparse] at h
        | ok out =>
          obtain ⟨res, r₁⟩ := out
          simp only [hparse] at h
          split at h
          · rename_i hres
            obtain ⟨-, hcode⟩ := parseRequestLine_cases hparse
            simp only [Except.ok.injEq, Prod.mk.injEq] at h
            omega
          · rename_i hres
            obtain ⟨hstatus, hrest, hnext⟩ := headerLoop_append _ (by rfl) rest' h
            refine ⟨Or.inr hstatus, hrest, ?_⟩
            intro y
            have hjoined := cutAt_append hcut y
            rw [List.append_assoc] at hjoined
            have hgrow : ({ grow r y.length with line := line } : Request).parseRequestLine =
                .ok (res, grow r₁ y.length) := by
              have hg := parseRequestLine_grow { r with line := line } y.length
              rwa [hparse] at hg
            rw [requestLine_ongoing (r := grow r' y.length) hstatus,
              Request.requestLine_eq (grow r y.length) hr, hnext y]
            simp only [grow_line, hjoined, hsize, if_false, hgrow, hres]
            rfl
  · rw [requestLine_ongoing hr] at h
    obtain ⟨hstatus, hrest, hnext⟩ := headerLoop_append r hr x h
    refine ⟨Or.inr hstatus, hrest, ?_⟩
    intro y
    rw [requestLine_ongoing (r := grow r' y.length) hstatus,
      requestLine_ongoing (r := grow r y.length) hr, hnext y]

theorem requestLine_extend {r : Request} (hr : InHead r) {x : Bytes} {r' : Request} {rest : Bytes}
    (h : r.requestLine x = .ok (-1, r', rest)) (y : Bytes) :
    (grow r y.length).requestLine (x ++ y) = .ok (-1, grow r' y.length, rest ++ y) := by
  rcases hr with hr | hr
  · rw [Request.requestLine_eq r hr] at h
    rw [Request.requestLine_eq (grow r y.length) hr, grow_line]
    cases hcut : cutAt 13 10 (r.line ++ x) with
    | none =>
      simp only [hcut] at h
      exact absurd (congrArg Prod.fst (Except.ok.inj h)) (checkSizes_code _)
    | some cut =>
      obtain ⟨line, rest'⟩ := cut
      have hjoined := cutAt_append hcut y
      rw [List.append_assoc] at hjoined
      simp only [hcut] at h
      simp only [hjoined]
      by_cases hsize : line.length > BUFFER_SIZE
      · simp [if_pos hsize] at h
      · rw [if_neg hsize] at h ⊢
        have hgrow := parseRequestLine_grow { r with line := line } y.length
        have hsame : ({ grow r y.length with line := line } : Request) =
            grow { r with line := line } y.length := rfl
        rw [hsame, hgrow]
        cases hparse : ({ r with line := line } : Request).parseRequestLine with
        | error e => simp [hparse] at h
        | ok out =>
          obtain ⟨res, r₁⟩ := out
          simp only [hparse] at h ⊢
          by_cases hres : res = 0
          · rw [if_neg (not_not_intro hres)] at h ⊢
            exact headerLoop_extend _ rest' h y
          · obtain ⟨-, hcode⟩ := parseRequestLine_cases hparse
            rw [if_pos hres] at h
            have hminus : r₁.getError = -1 := congrArg Prod.fst (Except.ok.inj h)
            omega
  · rw [requestLine_ongoing hr] at h
    rw [requestLine_ongoing (r := grow r y.length) hr]
    exact headerLoop_extend r x h y

/-- What the first call of a connection or request does with its bytes. -/
theorem parseHeaders_new (r : Request) (hr : r.status = .new) (x : Bytes) :
    r.parseHeaders x =
      match x.dropWhile (fun c => !isalpha c) with
      | [] => .ok ((grow r x.length).checkSizes.1, (grow r x.length).checkSizes.2, [])
      | c :: rest =>
        Request.requestLine { r with status := .rline, header_size := toInt (c :: rest).length }
          (c :: rest) := by
  have hterm : r.status ≠ .term := by simp [hr]
  rw [Request.parseHeaders, if_neg hterm]
  dsimp only
  rw [if_pos hr]
  cases x.dropWhile fun c => !isalpha c with
  | nil => rw [if_pos rfl]; rfl
  | cons c rest => rw [if_neg (List.cons_ne_nil c rest)]

theorem parseHeaders_start (r : Request) (hr : r.status = .new) {x text : Bytes}
    (hskip : x.dropWhile (fun c => !isalpha c) = text) (hne : text ≠ []) :
    r.parseHeaders x =
      Request.requestLine { r with status := .rline, header_size := toInt text.length } text := by
  rw [parseHeaders_new r hr, hskip]
  cases text with
  | nil => exact absurd rfl hne
  | cons c text => rfl

theorem parseHeaders_inHead {r : Request} (hr : InHead r) (x : Bytes) :
    r.parseHeaders x = (grow r x.length).requestLine x := by
  have hterm : r.status ≠ .term := by rcases hr with hr | hr <;> simp [hr]
  have hnew : r.status ≠ .new := by rcases hr with hr | hr <;> simp [hr]
  rw [Request.parseHeaders, if_neg hterm]
  simp only [hnew, if_false]
  rfl

/-- A phase of the head: a request that has been parsed is not read again. -/
def Open (r : Request) : Prop := r.status ≠ .term

theorem open_iff (r : Request) : Open r ↔ r.status = .new ∨ InHead r := by
  unfold Open InHead
  cases r.status <;> simp

/-- Head parsing is incremental. -/
theorem parseHeaders_incremental : Incremental Open Request.parseHeaders := by
  intro r x r' rest hr h
  rcases (open_iff r).mp hr with hnew | hhead
  · rw [parseHeaders_new r hnew] at h
    cases hjunk : x.dropWhile (fun c => !isalpha c) with
    | nil =>
      simp only [hjunk, Except.ok.injEq, Prod.mk.injEq] at h
      obtain ⟨hcode, hstate, rfl⟩ := h
      rw [checkSizes_of_zero hcode] at hstate
      subst hstate
      refine ⟨by exact hr, rfl, ?_⟩
      intro y
      have hskip : (x ++ y).dropWhile (fun c => !isalpha c) = y.dropWhile fun c => !isalpha c := by
        rw [List.dropWhile_append, hjunk]
        rfl
      rw [parseHeaders_new (grow r x.length) hnew, parseHeaders_new r hnew, hskip, grow_grow,
        List.length_append]
      rfl
    | cons c tail =>
      simp only [hjunk] at h
      obtain ⟨hhead, hrest, hnext⟩ := requestLine_append _ (Or.inl rfl) _ h
      refine ⟨(open_iff r').mpr (Or.inr hhead), hrest, ?_⟩
      intro y
      have hskip : (x ++ y).dropWhile (fun c => !isalpha c) = c :: (tail ++ y) := by
        rw [List.dropWhile_append, hjunk]
        rfl
      rw [parseHeaders_inHead hhead, hnext y, parseHeaders_new r hnew, hskip]
      simp only [grow, toInt_add_toInt, List.length_cons, List.length_append, Int.natCast_add,
        List.cons_append]
      congr 3
      omega
  · rw [parseHeaders_inHead hhead] at h
    have hgrown : InHead (grow r x.length) := hhead
    obtain ⟨hhead', hrest, hnext⟩ := requestLine_append _ hgrown x h
    refine ⟨(open_iff r').mpr (Or.inr hhead'), hrest, ?_⟩
    intro y
    rw [parseHeaders_inHead hhead', parseHeaders_inHead hhead, hnext y, grow_grow,
      List.length_append]

/-- What follows a head stays behind it, and only the head size has seen it. -/
theorem parseHeaders_extend {r : Request} (hr : Open r) {x : Bytes} {r' : Request} {rest : Bytes}
    (h : r.parseHeaders x = .ok (-1, r', rest)) (y : Bytes) :
    r.parseHeaders (x ++ y) = .ok (-1, grow r' y.length, rest ++ y) := by
  rcases (open_iff r).mp hr with hnew | hhead
  · rw [parseHeaders_new r hnew] at h
    cases hjunk : x.dropWhile (fun c => !isalpha c) with
    | nil =>
      simp only [hjunk] at h
      exact absurd (congrArg Prod.fst (Except.ok.inj h)) (checkSizes_code _)
    | cons c tail =>
      simp only [hjunk] at h
      have hskip : (x ++ y).dropWhile (fun c => !isalpha c) = c :: tail ++ y := by
        rw [List.dropWhile_append, hjunk]
        rfl
      have hnext := requestLine_extend (Or.inl rfl) h y
      rw [parseHeaders_start r hnew hskip (List.cons_ne_nil c _), ← hnext]
      simp only [grow, toInt_add_toInt, List.length_cons, List.length_append, Int.natCast_add]
  · rw [parseHeaders_inHead hhead] at h
    have hnext := requestLine_extend (r := grow r x.length) hhead h y
    rw [grow_grow] at hnext
    rw [parseHeaders_inHead hhead, List.length_append, hnext]

end Webserveau.HeadSegmentation
