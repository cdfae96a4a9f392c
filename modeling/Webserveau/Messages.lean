import Webserveau.Framings
import Webserveau.UploadIntake

/-!
Requests on a connection as messages.
A message is a head that the parser completes without a byte to spare, with the body that its
fields announce: a number of bytes, or chunks up to the line of the last one. Both parts are
delimited, so the bytes of a connection can be read as messages in one way only.
-/
namespace Webserveau.Messages

open ByteStrings OrderedMaps Formats Requests EventLoop HeadSegmentation ContentLength
  ChunkedDecoding ChunkedMessages Framings

section Heads

/-- What the loop leaves over has not been looked at. -/
theorem headerLoop_shrink {rest : Bytes} {r' : Request} (x : Bytes) (s : Request)
    (hline : s.line = []) (h : (grow s rest.length).headerLoop x = .ok (-1, r', rest)) :
    ∃ x' s', x = x' ++ rest ∧ s.headerLoop x' = .ok (-1, s', []) ∧ r' = grow s' rest.length := by
  induction hn : x.length using Nat.strong_induction_on generalizing s x with
  | h n ih =>
    rw [Request.headerLoop_eq] at h
    by_cases hx : x = []
    · rw [if_pos hx] at h
      exact absurd (congrArg Prod.fst (Except.ok.inj h)) (checkSizes_code _)
    · rw [if_neg hx, grow_line, hline, List.nil_append] at h
      cases hcut : cutAt 13 10 x with
      | none =>
        simp only [hcut] at h
        exact absurd (congrArg Prod.fst (Except.ok.inj h)) (checkSizes_code _)
      | some cut =>
        obtain ⟨line, behind⟩ := cut
        obtain ⟨hsplit, hfree⟩ := (cutAt_eq_some_iff (by decide)).mp hcut
        have hlen := cutAt_length hcut
        simp only [hcut] at h
        by_cases hempty : line = []
        · rw [if_pos hempty] at h
          obtain ⟨-, hstate⟩ := Prod.mk.inj (Except.ok.inj h)
          obtain ⟨rfl, rfl⟩ := Prod.mk.inj hstate
          refine ⟨[13, 10], { s with status := .term, final_status := .host, line := [] }, ?_, ?_,
            rfl⟩
          · rw [hsplit, hempty, List.nil_append]
          · have hend : cutAt 13 10 (s.line ++ [13, 10]) = some ([], []) := by
              rw [hline]
              rfl
            rw [Request.headerLoop_eq, if_neg (List.cons_ne_nil _ _), hend]
            rfl
        · rw [if_neg hempty] at h
          cases hcolon : splitColon (line.dropWhile isBlank) with
          | none => simp [hcolon] at h
          | some header =>
            obtain ⟨name, value⟩ := header
            simp only [hcolon] at h
            by_cases hsize : value.length > BUFFER_SIZE
            · simp [if_pos hsize] at h
            · rw [if_neg hsize] at h
              obtain ⟨x', s', rfl, hloop, hr'⟩ := ih behind.length (by omega) behind
                { s.storeHeader name (value.dropWhile isBlank) with line := [] } rfl h rfl
              refine ⟨line ++ [13, 10] ++ x', s', ?_, ?_, hr'⟩
              · rw [hsplit, List.append_assoc _ x']
              · have hfront : cutAt 13 10 (s.line ++ (line ++ [13, 10] ++ x')) =
                    some (line, x') := by
                  rw [hline, List.nil_append]
                  exact (cutAt_eq_some_iff (by decide)).mpr ⟨rfl, hfree⟩
                have hne : line ++ [13, 10] ++ x' ≠ [] := by simp
                rw [Request.headerLoop_eq, if_neg hne, hfront]
                dsimp only
                rw [if_neg hempty, hcolon]
                dsimp only
                rw [if_neg hsize, hloop]

theorem requestLine_shrink {rest : Bytes} {r' : Request} {x : Bytes} {s : Request}
    (hstatus : s.status = .rline) (hline : s.line = [])
    (h : (grow s rest.length).requestLine x = .ok (-1, r', rest)) :
    ∃ x' s', x = x' ++ rest ∧ x' ≠ [] ∧ s.requestLine x' = .ok (-1, s', []) ∧
      r' = grow s' rest.length := by
  rw [Request.requestLine_eq _ (by exact hstatus), grow_line, hline, List.nil_append] at h
  cases hcut : cutAt 13 10 x with
  | none =>
    simp only [hcut] at h
    exact absurd (congrArg Prod.fst (Except.ok.inj h)) (checkSizes_code _)
  | some cut =>
    obtain ⟨line, behind⟩ := cut
    obtain ⟨hsplit, hfree⟩ := (cutAt_eq_some_iff (by decide)).mp hcut
    simp only [hcut] at h
    by_cases hsize : line.length > BUFFER_SIZE
    · simp [if_pos hsize] at h
    · rw [if_neg hsize] at h
      have hgrow := parseRequestLine_grow { s with line := line } rest.length
      have hsame : ({ grow s rest.length with line := line } : Request) =
          grow { s with line := line } rest.length := rfl
      rw [hsame, hgrow] at h
      cases hparse : ({ s with line := line } : Request).parseRequestLine with
      | error e => simp [hparse] at h
      | ok out =>
        obtain ⟨res, s₁⟩ := out
        simp only [hparse] at h
        by_cases hres : res = 0
        · rw [if_neg (not_not_intro hres)] at h
          obtain ⟨x', s', rfl, hloop, hr'⟩ := headerLoop_shrink behind
            { s₁ with line := [], status := .ongoing } rfl h
          refine ⟨line ++ [13, 10] ++ x', s', ?_, by simp, ?_, hr'⟩
          · rw [hsplit, List.append_assoc _ x']
          · have hfront : cutAt 13 10 (s.line ++ (line ++ [13, 10] ++ x')) = some (line, x') := by
              rw [hline, List.nil_append]
              exact (cutAt_eq_some_iff (by decide)).mpr ⟨rfl, hfree⟩
            rw [Request.requestLine_eq _ hstatus, hfront]
            dsimp only
            rw [if_neg hsize, hparse]
            dsimp only
            rw [if_neg (not_not_intro hres), hloop]
        · obtain ⟨-, hcode⟩ := parseRequestLine_cases hparse
          rw [if_pos hres] at h
          have hminus : (grow s₁ rest.length).getError = -1 := congrArg Prod.fst (Except.ok.inj h)
          change s₁.getError = -1 at hminus
          omega

/-- A text that is the head of a request, to its last byte. -/
def HeadOf (text : Bytes) (r : Request) : Prop := Request.parseHeaders {} text = .ok (-1, r, [])

/-- What the parser leaves over stands behind the head. -/
theorem parseHeaders_shrink {text rest : Bytes} {r : Request}
    (h : Request.parseHeaders {} text = .ok (-1, r, rest)) :
    ∃ head s, text = head ++ rest ∧ HeadOf head s ∧ r = grow s rest.length := by
  rw [parseHeaders_new {} rfl] at h
  cases hjunk : text.dropWhile (fun c => !isalpha c) with
  | nil =>
    simp only [hjunk, Except.ok.injEq, Prod.mk.injEq] at h
    exact absurd h.1 (checkSizes_code _)
  | cons c tail =>
    simp only [hjunk] at h
    -- the head alone starts with a size that is smaller by what follows it
    have hsize : ({ status := .rline, header_size := toInt (c :: tail).length } : Request) =
        grow { status := .rline, header_size := toInt ((c :: tail).length - rest.length : ℤ) }
          rest.length := by
      simp only [grow, toInt_add_toInt]
      congr 2
      omega
    rw [hsize] at h
    obtain ⟨front, s, hfront, hne, hparse, hr⟩ := requestLine_shrink (by rfl) (by rfl) h
    have hlength : ((c :: tail).length - rest.length : ℤ) = front.length := by
      rw [hfront, List.length_append]
      omega
    rw [hlength] at hparse
    have halpha : front.dropWhile (fun c => !isalpha c) = front := by
      cases front with
      | nil => exact absurd rfl hne
      | cons d front =>
        rw [List.cons_append, List.cons.injEq] at hfront
        have hsome : text.dropWhile (fun c => !isalpha c) ≠ [] := by simp [hjunk]
        have hfirst := List.head_dropWhile_not (fun c => !isalpha c) hsome
        simp only [hjunk, List.head_cons] at hfirst
        rw [← hfront.1, List.dropWhile_cons_of_neg (by simp [hfirst])]
    refine ⟨text.takeWhile (fun c => !isalpha c) ++ front, s, ?_, ?_, hr⟩
    · rw [List.append_assoc, ← hfront, ← hjunk, List.takeWhile_append_dropWhile]
    · have hskip : (text.takeWhile (fun c => !isalpha c) ++ front).dropWhile
          (fun c => !isalpha c) = front := by
        rw [List.dropWhile_append_of_pos, halpha]
        intro d hd
        exact List.mem_takeWhile_imp (p := fun c => !isalpha c) hd
      unfold HeadOf
      rw [parseHeaders_start {} rfl hskip hne, ← hparse]

/-- No head is the beginning of another. -/
theorem heads_delimited : Delimited HeadOf := by
  rintro s r s' r' hs hs' ⟨more, rfl⟩
  have hopen : Open {} := by
    show Status.new ≠ .term
    decide
  have hmore := parseHeaders_extend hopen hs more
  rw [List.nil_append] at hmore
  have hend : more = [] := by
    rw [show Request.parseHeaders {} (s ++ more) = _ from hs', Except.ok.injEq] at hmore
    simp only [Prod.mk.injEq] at hmore
    exact hmore.2.2.symm
  subst hend
  rw [List.append_nil] at hs' ⊢
  rw [HeadOf, show Request.parseHeaders {} s = _ from hs, Except.ok.injEq] at hs'
  simp only [Prod.mk.injEq, and_true, true_and] at hs'
  exact ⟨rfl, hs'⟩

end Heads

section Bodies

/-- A text that is the body a head announces, with what it carries. -/
inductive BodyOf (r : Request) : Bytes → Bytes → Prop
  | measured {text : Bytes} : isChunked r = false → text.length = (bodyLength r).toNat →
      BodyOf r text text
  | chunked (b : ChunkedBody) : isChunked r = true → BodyOf r b.bytes b.payload

/-- A size line ends at the first CRLF, and gives one length. -/
theorem sizeLine_agree {line line' x y : Bytes} {n n' : ℕ} (h : SizeLine line n)
    (h' : SizeLine line' n') (heq : line ++ [13, 10] ++ x = line' ++ [13, 10] ++ y) :
    line = line' ∧ n = n' ∧ x = y := by
  have hcut : cutAt 13 10 (line ++ [13, 10] ++ x) = some (line, x) :=
    (cutAt_eq_some_iff (by decide)).mpr ⟨rfl, h.unbroken⟩
  have hcut' : cutAt 13 10 (line ++ [13, 10] ++ x) = some (line', y) :=
    (cutAt_eq_some_iff (by decide)).mpr ⟨heq, h'.unbroken⟩
  rw [hcut, Option.some.injEq, Prod.mk.injEq] at hcut'
  obtain ⟨rfl, rfl⟩ := hcut'
  have hsize := h.size
  rw [h'.size, Prod.mk.injEq] at hsize
  exact ⟨rfl, by omega, rfl⟩

theorem wire_agree {last last' x : Bytes} (hlast : SizeLine last 0) (hlast' : SizeLine last' 0)
    (cs cs' : List Chunk) (h : wire last cs ++ x = wire last' cs') :
    x = [] ∧ payload cs = payload cs' := by
  induction cs generalizing cs' with
  | nil =>
    cases cs' with
    | nil =>
      have hline := sizeLine_agree hlast hlast' (x := x) (y := []) (by simpa [wire] using h)
      exact ⟨hline.2.2, rfl⟩
    | cons c' cs' =>
      have hline := sizeLine_agree hlast c'.size (x := x)
        (y := c'.data ++ [13, 10] ++ wire last' cs') (by simpa [wire, Chunk.bytes] using h)
      exact absurd (List.length_eq_zero_iff.mp hline.2.1.symm) c'.nonempty
  | cons c cs ih =>
    cases cs' with
    | nil =>
      have hline := sizeLine_agree c.size hlast' (x := c.data ++ [13, 10] ++ wire last cs ++ x)
        (y := []) (by simpa [wire, Chunk.bytes] using h)
      exact absurd (List.length_eq_zero_iff.mp hline.2.1) c.nonempty
    | cons c' cs' =>
      obtain ⟨-, hlength, hrest⟩ := sizeLine_agree c.size c'.size
        (x := c.data ++ ([13, 10] ++ (wire last cs ++ x)))
        (y := c'.data ++ ([13, 10] ++ wire last' cs')) (by simpa [wire, Chunk.bytes] using h)
      obtain ⟨hdata, hbehind⟩ := List.append_inj hrest hlength
      obtain ⟨hx, hpayload⟩ := ih cs' (List.append_cancel_left hbehind)
      refine ⟨hx, ?_⟩
      show c.data ++ payload cs = c'.data ++ payload cs'
      rw [hdata, hpayload]

/-- No body that a head announces is the beginning of another. -/
theorem bodies_delimited (r : Request) : Delimited (BodyOf r) := by
  rintro s m s' m' hs hs' ⟨more, hmore⟩
  cases hs with
  | measured hplain hlength =>
    cases hs' with
    | measured _ hlength' =>
      have hend : more = [] := by
        rw [← hmore, List.length_append] at hlength'
        exact List.length_eq_zero_iff.mp (by omega)
      rw [hend, List.append_nil] at hmore
      exact ⟨hmore, hmore⟩
    | chunked _ hchunked =>
      rw [hplain] at hchunked
      cases hchunked
  | chunked b hchunked =>
    cases hs' with
    | measured hplain _ =>
      rw [hchunked] at hplain
      cases hplain
    | chunked b' _ =>
      obtain ⟨hend, hpayload⟩ := wire_agree b.zero b'.zero b.chunks b'.chunks hmore
      rw [hend, List.append_nil] at hmore
      exact ⟨hmore, hpayload⟩

end Bodies

/-- The head of a message and what its body carries. -/
abbrev Message := Request × Bytes

abbrev Spells : Bytes → Message → Prop := Sequence HeadOf BodyOf

theorem messages_delimited : Delimited Spells := heads_delimited.sequence bodies_delimited

end Webserveau.Messages
