import Mathlib
import Webserveau.BodySegmentation
import Webserveau.Checks
import Webserveau.DelimitedTexts

/-!
The bytes that the parsers hold between two calls.
No call leaves more than it found and was given. Header lines leave at most a line of the
buffer size or less than they were given, and so does a request line that is complete; the
data of a chunk is held as long as the count of the body is within its limit.
-/
namespace Webserveau.HeldBytes

open ByteStrings OrderedMaps Formats Requests Checks DelimitedTexts HeadSegmentation
  BodySegmentation

/-- A call leaves no more than it found and was given. -/
structure Drains (r : Request) (buffer : Bytes) (r' : Request) (rest : Bytes) : Prop where
  held : r'.line.length + rest.length ≤ r.line.length + buffer.length
  unbroken : Unbroken 13 10 r.line → Unbroken 13 10 r'.line
  limit : r'.body_max_size = r.body_max_size

theorem Drains.refl (r : Request) (buffer : Bytes) : Drains r buffer r buffer :=
  ⟨le_rfl, fun h => h, rfl⟩

theorem Drains.trans {r s t : Request} {buffer buffer' rest : Bytes}
    (h : Drains r buffer s buffer') (h' : Drains s buffer' t rest) : Drains r buffer t rest :=
  ⟨h'.held.trans h.held, fun hline => h'.unbroken (h.unbroken hline), h'.limit.trans h.limit⟩

/-- Only the line and the limit of a request matter. -/
theorem Drains.congr {r s t u : Request} {buffer rest : Bytes} (h : Drains r buffer s rest)
    (hline : t.line = r.line) (hlimit : t.body_max_size = r.body_max_size)
    (hline' : u.line = s.line) (hlimit' : u.body_max_size = s.body_max_size) :
    Drains t buffer u rest where
  held := by
    rw [hline, hline']
    exact h.held
  unbroken := by
    rw [hline, hline']
    exact h.unbroken
  limit := by
    rw [hlimit, hlimit']
    exact h.limit

theorem Drains.emptied {r r' : Request} {buffer rest : Bytes} (hline : r'.line = [])
    (hlimit : r'.body_max_size = r.body_max_size)
    (hrest : rest.length ≤ r.line.length + buffer.length) : Drains r buffer r' rest where
  held := by
    rw [hline, List.length_nil, Nat.zero_add]
    exact hrest
  unbroken _ := by
    rw [hline]
    exact unbroken_nil
  limit := hlimit

/-- What is left behind a complete line. -/
theorem Drains.cut {r r' : Request} {buffer line rest : Bytes}
    (hcut : cutAt 13 10 (r.line ++ buffer) = some (line, rest)) (hline : r'.line = [])
    (hlimit : r'.body_max_size = r.body_max_size) : Drains r buffer r' rest := by
  have hlen := cutAt_length hcut
  rw [List.length_append] at hlen
  exact .emptied hline hlimit (by omega)

theorem Drains.after_cut {r s t : Request} {buffer line rest rest' : Bytes}
    (h : Drains s rest t rest') (hcut : cutAt 13 10 (r.line ++ buffer) = some (line, rest))
    (hline : s.line = []) (hlimit : s.body_max_size = r.body_max_size) :
    Drains r buffer t rest' :=
  (Drains.cut hcut hline hlimit).trans h

theorem checkSizes_line (r : Request) :
    (r.checkSizes.2.line = r.line ∨ r.checkSizes.2.line = []) ∧
      r.checkSizes.2.body_max_size = r.body_max_size := by
  rcases checkSizes_cases r with hpass | ⟨error, verbose, -, hfail⟩
  · rw [hpass]
    exact ⟨Or.inl rfl, rfl⟩
  · rw [hfail]
    exact ⟨Or.inr rfl, rfl⟩

theorem checkSizes_drains (r : Request) (buffer : Bytes) :
    Drains r buffer r.checkSizes.2 buffer := by
  obtain ⟨hline | hline, hlimit⟩ := checkSizes_line r
  · exact (Drains.refl r buffer).congr rfl rfl hline hlimit
  · exact .emptied hline hlimit (Nat.le_add_left _ _)

/-- The size checks do not read the fields of a request that changed before. -/
theorem checkSizes_congr {r s : Request} (hline : s.line = r.line)
    (hlimit : s.body_max_size = r.body_max_size) (buffer : Bytes) :
    Drains r buffer s.checkSizes.2 buffer :=
  (checkSizes_drains s buffer).congr hline.symm hlimit.symm rfl rfl

/-- The joined line, when it has no end yet. -/
theorem Drains.joined {r r' : Request} {buffer : Bytes}
    (hcut : cutAt 13 10 (r.line ++ buffer) = none) (hline : r'.line = r.line ++ buffer)
    (hlimit : r'.body_max_size = r.body_max_size) : Drains r buffer r'.checkSizes.2 [] := by
  refine @Drains.trans _ r' _ _ [] _ ⟨?_, fun _ => ?_, hlimit⟩ (checkSizes_drains r' [])
  · rw [hline, List.length_append]
    exact le_rfl
  · rw [hline]
    exact cutAt_eq_none_iff.mp hcut

theorem headerLines_drains (fuel : ℕ) (r : Request) (buffer : Bytes) :
    Ends (r.headerLines fuel buffer) fun out => Drains r buffer out.2.1 out.2.2 := by
  induction fuel generalizing r buffer with
  | zero => exact ends_pure.mpr (Drains.refl r buffer)
  | succ fuel ih =>
    rw [Request.headerLines_succ]
    split
    · rename_i hempty
      rw [hempty]
      have hsizes := checkSizes_congr (r := r) (s := { r with header_size := toInt r.header_size })
        rfl rfl []
      exact ends_ok.mpr hsizes
    · split
      · rename_i hcut
        exact ends_ok.mpr (.joined hcut rfl rfl)
      · rename_i line rest hcut
        split
        · exact ends_ok.mpr (.cut hcut rfl rfl)
        · split
          · exact ends_ok.mpr (.cut hcut rfl rfl)
          · split
            · exact ends_ok.mpr (.cut hcut rfl rfl)
            · exact (ih _ rest).mono fun out hout => hout.after_cut hcut rfl rfl

theorem parseRequestLine_line (r : Request) :
    Ends r.parseRequestLine fun out =>
      (out.2.line = r.line ∨ out.2.line = []) ∧ (out.1 ≠ 0 → out.2.line = []) ∧
        out.2.body_max_size = r.body_max_size := by
  rw [Request.parseRequestLine_eq]
  split
  · exact ends_ok.mpr ⟨Or.inr rfl, fun _ => rfl, rfl⟩
  · split
    · exact ends_error
    · dsimp only
      split
      · exact ends_ok.mpr ⟨Or.inr rfl, fun _ => rfl, rfl⟩
      · exact ends_ok.mpr ⟨Or.inl rfl, fun h => absurd rfl h, rfl⟩

/-- A request line that is complete is not held any longer. -/
theorem requestLine_cut {r : Request} (hr : r.status = .rline) {buffer line rest : Bytes}
    (hcut : cutAt 13 10 (r.line ++ buffer) = some (line, rest)) :
    Ends (r.requestLine buffer) fun out => out.2.1.line.length + out.2.2.length ≤ rest.length ∧
      Drains r buffer out.2.1 out.2.2 := by
  have hemptied : ∀ r' : Request, r'.line = [] → r'.body_max_size = r.body_max_size →
      r'.line.length + rest.length ≤ rest.length ∧ Drains r buffer r' rest := by
    intro r' hline hlimit
    refine ⟨?_, .cut hcut hline hlimit⟩
    rw [hline, List.length_nil, Nat.zero_add]
  rw [Request.requestLine_eq r hr, hcut]
  dsimp only
  split
  · exact ends_ok.mpr (hemptied _ rfl rfl)
  · split
    · exact ends_error
    · rename_i res s hparse
      obtain ⟨-, herror, hlimit⟩ := parseRequestLine_line _ _ hparse
      split
      · rename_i hres
        exact ends_ok.mpr (hemptied s (herror hres) hlimit)
      · unfold Request.headerLoop
        refine (headerLines_drains _ _ rest).mono ?_
        intro out hout
        refine ⟨?_, hout.after_cut hcut rfl hlimit⟩
        have hheld := hout.held
        rwa [List.length_nil, Nat.zero_add] at hheld

theorem requestLine_drains {r : Request} (buffer : Bytes) :
    Ends (r.requestLine buffer) fun out => Drains r buffer out.2.1 out.2.2 := by
  by_cases hr : r.status = .rline
  · cases hcut : cutAt 13 10 (r.line ++ buffer) with
    | none =>
      rw [Request.requestLine_eq r hr, hcut]
      exact ends_ok.mpr (.joined hcut rfl rfl)
    | some cut =>
      obtain ⟨line, rest⟩ := cut
      exact (requestLine_cut hr hcut).mono fun out hout => hout.2
  · unfold Request.requestLine
    rw [if_neg hr]
    exact headerLines_drains _ r buffer

theorem parseHeaders_drains (r : Request) (buffer : Bytes) :
    Ends (r.parseHeaders buffer) fun out => Drains r buffer out.2.1 out.2.2 := by
  have hskip : (buffer.dropWhile fun c => !isalpha c).length ≤ buffer.length :=
    (List.dropWhile_sublist _).length_le
  have hshorter : ∀ {r' : Request} {rest : Bytes},
      Drains r (buffer.dropWhile fun c => !isalpha c) r' rest → Drains r buffer r' rest := by
    intro r' rest h
    exact ⟨h.held.trans (Nat.add_le_add_left hskip _), h.unbroken, h.limit⟩
  unfold Request.parseHeaders
  dsimp only
  split
  · exact ends_pure.mpr (Drains.refl r buffer)
  · split
    · split
      · have hsizes := checkSizes_congr (r := r)
          (s := { r with header_size := toInt (r.header_size + buffer.length) }) rfl rfl
          (buffer.dropWhile fun c => !isalpha c)
        exact ends_pure.mpr (hshorter hsizes)
      · refine (requestLine_drains _).mono ?_
        intro out hout
        exact hshorter (hout.congr rfl rfl rfl rfl)
    · exact (requestLine_drains buffer).mono fun out hout => hout.congr rfl rfl rfl rfl

section Bodies

variable {next : Body → Bytes → Checked (ℤ × Body × Bytes)}

theorem chunkData_drains
    (h : ∀ b rest, Ends (next b rest) fun out => Drains b.1 rest out.2.1.1 out.2.2) (b : Body)
    (buffer : Bytes) :
    Ends (Request.chunkData next b buffer) fun out => Drains b.1 buffer out.2.1.1 out.2.2 := by
  obtain ⟨r, stream⟩ := b
  unfold Request.chunkData
  dsimp only
  split
  · exact ends_ok.mpr (.emptied rfl rfl (Nat.le_add_left _ _))
  · split
    · rename_i hcut
      exact ends_ok.mpr (.joined hcut rfl rfl)
    · rename_i line rest hcut
      split
      · exact ends_ok.mpr (.cut hcut rfl rfl)
      · exact (h _ rest).mono fun out hout => hout.after_cut hcut rfl rfl

theorem chunkSize_drains
    (h : ∀ b rest, Ends (next b rest) fun out => Drains b.1 rest out.2.1.1 out.2.2) (b : Body)
    (buffer : Bytes) :
    Ends (Request.chunkSize next b buffer) fun out => Drains b.1 buffer out.2.1.1 out.2.2 := by
  obtain ⟨r, stream⟩ := b
  unfold Request.chunkSize
  dsimp only
  split
  · rename_i hcut
    split
    · exact ends_ok.mpr (.emptied rfl rfl (Nat.zero_le _))
    · exact ends_ok.mpr (.joined hcut rfl rfl)
  · rename_i line rest hcut
    split
    · exact ends_ok.mpr (.cut hcut rfl rfl)
    · exact (chunkData_drains h _ rest).mono fun out hout => hout.after_cut hcut rfl rfl

theorem chunkLines_drains (fuel : ℕ) (b : Body) (buffer : Bytes) :
    Ends (Request.chunkLines fuel b buffer) fun out => Drains b.1 buffer out.2.1.1 out.2.2 := by
  induction fuel generalizing b buffer with
  | zero => exact ends_pure.mpr (Drains.refl b.1 buffer)
  | succ fuel ih =>
    obtain ⟨r, stream⟩ := b
    rw [Request.chunkLines_succ]
    split
    · rename_i hempty
      rw [hempty]
      split
      · exact ends_ok.mpr (.emptied rfl rfl (Nat.zero_le _))
      · exact ends_ok.mpr (Drains.refl r [])
    · split
      · exact chunkData_drains ih _ buffer
      · exact chunkSize_drains ih _ buffer

theorem parseMesured_drains (b : Body) (buffer : Bytes) :
    Ends (Request.parseMesured b buffer) fun out => Drains b.1 buffer out.2.1.1 out.2.2 := by
  obtain ⟨r, stream⟩ := b
  unfold Request.parseMesured
  dsimp only
  generalize hcut : (if toSize (toInt (r.content_length - r.len)) > buffer.length then buffer.length
    else toSize (toInt (r.content_length - r.len))) = cut
  refine Ends.bind_any ?_
  intro extract
  refine Ends.bind (P := fun rest : Bytes => rest.length ≤ buffer.length) ?_ ?_
  · intro rest hrest
    unfold substrFrom at hrest
    split at hrest
    · rw [← Except.ok.inj hrest, List.length_drop]
      exact Nat.sub_le _ _
    · cases hrest
  · intro rest hrest
    have hdrains : ∀ r' : Request, r'.line = r.line → r'.body_max_size = r.body_max_size →
        Drains r buffer r' rest := by
      intro r' hline hlimit
      refine ⟨?_, ?_, hlimit⟩
      · rw [hline]
        omega
      · rw [hline]
        exact fun h => h
    split
    · exact ends_pure.mpr (hdrains _ rfl rfl)
    · exact ends_pure.mpr (hdrains _ rfl rfl)

theorem parseChunked_drains (b : Body) (buffer : Bytes) :
    Ends (Request.parseChunked b buffer) fun out => Drains b.1 buffer out.2.1.1 out.2.2 := by
  obtain ⟨r, stream⟩ := b
  unfold Request.parseChunked
  dsimp only
  split
  · exact ends_pure.mpr (Drains.refl r buffer)
  · exact (chunkLines_drains _ _ buffer).mono fun out hout => hout.congr rfl rfl rfl rfl

theorem parseBody_drains (b : Body) (buffer : Bytes) :
    Ends (Request.parseBody b buffer) fun out => Drains b.1 buffer out.2.1.1 out.2.2 := by
  obtain ⟨r, stream⟩ := b
  unfold Request.parseBody
  dsimp only
  split
  · exact ends_pure.mpr (Drains.refl r buffer)
  · generalize hs : (if r.b_status = .new then { r with b_status := .ongoing } else r) = s
    have hentered : r.line = s.line ∧ r.body_max_size = s.body_max_size := by
      rw [← hs]
      split
      · exact ⟨rfl, rfl⟩
      · exact ⟨rfl, rfl⟩
    split
    · exact (parseChunked_drains (s, stream) buffer).mono fun out hout =>
        hout.congr hentered.1 hentered.2 rfl rfl
    · exact (parseMesured_drains (s, stream) buffer).mono fun out hout =>
        hout.congr hentered.1 hentered.2 rfl rfl

theorem trailerLines_drains (fuel : ℕ) (r : Request) (buffer : Bytes) :
    Ends (r.trailerLines fuel buffer) fun out => Drains r buffer out.2.1 out.2.2 := by
  induction fuel generalizing r buffer with
  | zero => exact ends_pure.mpr (Drains.refl r buffer)
  | succ fuel ih =>
    unfold Request.trailerLines
    split
    · exact ends_pure.mpr (checkSizes_drains r buffer)
    · rw [Request.getLine_eq]
      dsimp only [bind, Except.bind]
      cases hcut : cutAt 13 10 (r.line ++ buffer) with
      | none => exact ends_pure.mpr (.joined hcut rfl rfl)
      | some cut =>
        obtain ⟨line, rest⟩ := cut
        dsimp only
        rw [if_neg (fun h => h rfl)]
        split
        · exact ends_pure.mpr (.cut hcut rfl rfl)
        · rw [getHeaderName_eq]
          dsimp only [bind, Except.bind]
          split
          · exact ends_pure.mpr (.cut hcut rfl rfl)
          · split
            · exact ends_pure.mpr (.cut hcut rfl rfl)
            · split
              · exact ends_pure.mpr (.cut hcut rfl rfl)
              · exact (ih _ rest).mono fun out hout => hout.after_cut hcut rfl rfl

theorem parseTrailerHeaders_drains (r : Request) (buffer : Bytes) :
    Ends (r.parseTrailerHeaders buffer) fun out => Drains r buffer out.2.1 out.2.2 := by
  unfold Request.parseTrailerHeaders
  dsimp only
  split
  · exact ends_pure.mpr (Drains.refl r buffer)
  · split
    · exact ends_pure.mpr ((Drains.refl r buffer).congr rfl rfl rfl rfl)
    · exact (trailerLines_drains _ _ buffer).mono fun out hout => hout.congr rfl rfl rfl rfl

theorem parseInput_drains (b : Body) (buffer : Bytes) :
    Ends (Request.parseInput b buffer) fun out => Drains b.1 buffer out.2.1.1 out.2.2 := by
  obtain ⟨r, stream⟩ := b
  unfold Request.parseInput
  dsimp only
  split
  · exact ends_pure.mpr (Drains.refl r buffer)
  · refine Ends.bind (parseBody_drains _ buffer) ?_
    intro out hout
    obtain ⟨res, ⟨r', stream'⟩, rest⟩ := out
    dsimp only
    split
    · exact ends_pure.mpr hout
    · refine Ends.bind (parseTrailerHeaders_drains r' rest) ?_
      intro out' hout'
      exact ends_pure.mpr (hout.trans hout')

end Bodies

/-- The head parser sees the end of a line, or is at a place where it tests the size of the
line. -/
def HeadTested (r : Request) (bytes : Bytes) : Prop :=
  match r.status with
  | .new =>
    let start := bytes.dropWhile fun c => !isalpha c
    start = [] ∨ ¬ Unbroken 13 10 (r.line ++ start)
  | .rline => ¬ Unbroken 13 10 (r.line ++ bytes)
  | .ongoing => True
  | .term => False

theorem checkSizes_head {r : Request} (h : r.status = .ongoing ∨ r.status = .new) :
    r.checkSizes.2.line.length ≤ BUFFER_SIZE := by
  unfold Request.checkSizes
  rw [if_pos h]
  split
  · exact Nat.zero_le _
  · rename_i hfits
    exact not_lt.mp (not_or.mp hfits).2

/-- Between the lines of a head no more than a line is held. -/
theorem headerLoop_tested {r : Request} (hr : r.status = .ongoing)
    (hline : Unbroken 13 10 r.line) (buffer : Bytes) :
    Ends (r.headerLoop buffer) fun out =>
      out.2.1.line.length + out.2.2.length ≤ max BUFFER_SIZE buffer.length := by
  induction hn : r.line.length + buffer.length using Nat.strong_induction_on
    generalizing r buffer with
  | h n ih =>
    have hemptied : ∀ (code : ℤ) (r' : Request) (rest : Bytes), r'.line = [] →
        rest.length ≤ buffer.length →
          Ends (.ok (code, r', rest) : Checked (ℤ × Request × Bytes)) fun out =>
            out.2.1.line.length + out.2.2.length ≤ max BUFFER_SIZE buffer.length := by
      intro code r' rest hempty hrest
      refine ends_ok.mpr ?_
      show r'.line.length + rest.length ≤ _
      rw [hempty, List.length_nil, Nat.zero_add]
      exact le_max_of_le_right hrest
    rw [Request.headerLoop_eq]
    split
    · have hsizes := checkSizes_head (r := { r with header_size := toInt r.header_size })
        (Or.inl hr)
      exact ends_ok.mpr (le_max_of_le_left hsizes)
    · cases hcut : cutAt 13 10 (r.line ++ buffer) with
      | none =>
        have hsizes := checkSizes_head (r := { r with line := r.line ++ buffer }) (Or.inl hr)
        exact ends_ok.mpr (le_max_of_le_left hsizes)
      | some cut =>
        obtain ⟨line, rest⟩ := cut
        have hlen := cutAt_length hcut
        rw [List.length_append] at hlen
        have hrest := cutAt_rest_le (by decide) hline hcut
        dsimp only
        split
        · exact hemptied _ _ _ rfl hrest
        · split
          · exact hemptied _ _ _ rfl hrest
          · split
            · exact hemptied _ _ _ rfl hrest
            · refine (ih rest.length (by omega) (by exact hr) unbroken_nil rest
                (Nat.zero_add _)).mono ?_
              intro out hout
              exact hout.trans (max_le_max le_rfl hrest)

theorem requestLine_tested {r : Request} (hr : r.status = .rline) (hline : Unbroken 13 10 r.line)
    {buffer : Bytes} (hend : ¬ Unbroken 13 10 (r.line ++ buffer)) :
    Ends (r.requestLine buffer) fun out =>
      out.2.1.line.length + out.2.2.length ≤ max BUFFER_SIZE buffer.length := by
  cases hcut : cutAt 13 10 (r.line ++ buffer) with
  | none => exact absurd (cutAt_eq_none_iff.mp hcut) hend
  | some cut =>
    obtain ⟨line, rest⟩ := cut
    refine (requestLine_cut hr hcut).mono ?_
    intro out hout
    exact le_max_of_le_right (hout.1.trans (cutAt_rest_le (by decide) hline hcut))

theorem parseHeaders_tested {r : Request} (hline : Unbroken 13 10 r.line) {buffer : Bytes}
    (h : HeadTested r buffer) :
    Ends (r.parseHeaders buffer) fun out =>
      out.2.1.line.length + out.2.2.length ≤ max BUFFER_SIZE buffer.length := by
  have hcases : r.status = .term ∨ r.status = .ongoing ∨ r.status = .rline ∨ r.status = .new := by
    cases r.status <;> simp
  unfold HeadTested at h
  rcases hcases with hr | hr | hr | hr
  · rw [hr] at h
    exact h.elim
  · rw [parseHeaders_inHead (Or.inr hr), requestLine_ongoing (by exact hr)]
    exact headerLoop_tested (r := grow r buffer.length) hr hline buffer
  · rw [hr] at h
    rw [parseHeaders_inHead (Or.inl hr)]
    exact requestLine_tested (r := grow r buffer.length) hr hline h
  · rw [hr] at h
    have hskip : (buffer.dropWhile fun c => !isalpha c).length ≤ buffer.length :=
      (List.dropWhile_sublist _).length_le
    rw [parseHeaders_new r hr]
    dsimp only at h
    cases hstart : buffer.dropWhile fun c => !isalpha c with
    | nil =>
      refine ends_ok.mpr (le_max_of_le_left ?_)
      exact checkSizes_head (r := grow r buffer.length) (Or.inr hr)
    | cons c rest =>
      rw [hstart] at h hskip
      have hrline : ({ r with status := .rline, header_size := toInt (c :: rest).length } :
        Request).status = .rline := rfl
      refine (requestLine_tested hrline hline (h.resolve_left (List.cons_ne_nil c rest))).mono ?_
      intro out hout
      exact hout.trans (max_le_max le_rfl hskip)

/-- A chunked body in which the bytes of the line and those at hand have been counted. -/
structure Counting (r : Request) (n : ℕ) : Prop where
  status : r.status = .term
  body : r.b_status = .ongoing
  chunked : r.chunked = true
  unbroken : Unbroken 13 10 r.line
  counted : (r.line.length + n : ℕ) ≤ r.chunked_body_size
  range : r.chunked_body_size ≤ INT32_MAX

/-- What the parser of a body may hold. -/
def bodyLimit (r : Request) (n : ℕ) : ℕ := max n r.body_max_size.toNat

theorem checkSizes_body {r : Request} (hr : r.status = .term) (hb : r.b_status = .ongoing)
    (hc : r.chunked = true) (hcount : (r.line.length : ℤ) ≤ r.chunked_body_size) (n : ℕ) :
    r.checkSizes.2.line.length ≤ bodyLimit r n := by
  have hhead : ¬ (r.status = .ongoing ∨ r.status = .new) := by
    rw [hr]
    decide
  unfold Request.checkSizes bodyLimit
  rw [if_neg hhead, if_pos ⟨hr, hb⟩]
  split
  · exact Nat.zero_le _
  · rename_i hfits
    have hsize : ¬ r.chunked_body_size > r.body_max_size := fun h => hfits ⟨hc, h⟩
    refine le_max_of_le_right ?_
    show r.line.length ≤ r.body_max_size.toNat
    omega

/-- What a call of the body parser leaves is within the limit of the body. -/
def Within (r : Request) (n : ℕ) (out : ℤ × Body × Bytes) : Prop :=
  out.2.1.1.line.length + out.2.2.length ≤ bodyLimit r n

theorem Within.emptied {r r' : Request} {stream : Option BodyStream} {rest : Bytes} {n : ℕ}
    (code : ℤ) (hline : r'.line = []) (hrest : rest.length ≤ n) :
    Within r n (code, (r', stream), rest) := by
  unfold Within bodyLimit
  dsimp only
  rw [hline, List.length_nil, Nat.zero_add]
  exact le_max_of_le_left hrest

theorem Within.mono {r r' : Request} {m n : ℕ} {out : ℤ × Body × Bytes} (h : Within r' m out)
    (hlimit : r'.body_max_size = r.body_max_size) (hle : m ≤ n) : Within r n out := by
  unfold Within bodyLimit at *
  rw [hlimit] at h
  exact h.trans (max_le_max hle le_rfl)

theorem chunkData_tested {r : Request} (stream : Option BodyStream) {buffer : Bytes}
    (h : Counting r buffer.length)
    (ih : ∀ b rest, Counting b.1 rest.length → b.1.line.length + rest.length <
      r.line.length + buffer.length → Ends (Request.chunkLoop b rest) (Within b.1 rest.length)) :
    Ends (Request.chunkData Request.chunkLoop (r, stream) buffer) (Within r buffer.length) := by
  have hcounted := h.counted
  unfold Request.chunkData
  dsimp only
  split
  · exact ends_ok.mpr (.emptied _ rfl le_rfl)
  · cases hcut : cutAt 13 10 (r.line ++ buffer) with
    | none =>
      have hsizes := checkSizes_body (r := { r with line := r.line ++ buffer }) h.status h.body
        h.chunked (by rw [List.length_append]; exact hcounted) buffer.length
      exact ends_ok.mpr hsizes
    | some cut =>
      obtain ⟨line, rest⟩ := cut
      have hlen := cutAt_length hcut
      rw [List.length_append] at hlen
      have hrest := cutAt_rest_le (by decide) h.unbroken hcut
      dsimp only
      split
      · exact ends_ok.mpr (.emptied _ rfl hrest)
      · refine (ih _ rest ?_ ?_).mono fun out hout => hout.mono (by rfl) hrest
        · refine ⟨h.status, h.body, h.chunked, unbroken_nil, ?_, h.range⟩
          show ((0 + rest.length : ℕ) : ℤ) ≤ r.chunked_body_size
          omega
        · show 0 + rest.length < _
          omega

theorem chunkSize_tested {r : Request} (stream : Option BodyStream) {buffer : Bytes}
    (h : Counting r buffer.length)
    (ih : ∀ b rest, Counting b.1 rest.length → b.1.line.length + rest.length <
      r.line.length + buffer.length → Ends (Request.chunkLoop b rest) (Within b.1 rest.length)) :
    Ends (Request.chunkSize Request.chunkLoop (r, stream) buffer) (Within r buffer.length) := by
  have hcounted := h.counted
  unfold Request.chunkSize
  dsimp only
  cases hcut : cutAt 13 10 (r.line ++ buffer) with
  | none =>
    dsimp only
    split
    · exact ends_ok.mpr (.emptied _ rfl (Nat.zero_le _))
    · have hsizes := checkSizes_body (r := { r with line := r.line ++ buffer }) h.status h.body
        h.chunked (by rw [List.length_append]; exact hcounted) buffer.length
      exact ends_ok.mpr hsizes
  | some cut =>
    obtain ⟨line, rest⟩ := cut
    have hlen := cutAt_length hcut
    rw [List.length_append] at hlen
    have hrest := cutAt_rest_le (by decide) h.unbroken hcut
    have hrange := h.range
    unfold INT32_MAX at hrange
    have hsize : toInt (r.chunked_body_size - (line.length + 2)) =
        r.chunked_body_size - (line.length + 2) := toInt_of_range (by omega) (by omega)
    dsimp only
    split
    · exact ends_ok.mpr (.emptied _ rfl hrest)
    · refine (chunkData_tested stream ?_ ?_).mono fun out hout => hout.mono (by rfl) hrest
      · refine ⟨h.status, h.body, h.chunked, unbroken_nil, ?_, ?_⟩
        · show ((0 + rest.length : ℕ) : ℤ) ≤ toInt (r.chunked_body_size - (line.length + 2))
          rw [hsize]
          omega
        · exact (toInt_range _).2
      · intro b rest' hb hlt
        refine ih b rest' hb ?_
        have hlt' : b.1.line.length + rest'.length < 0 + rest.length := hlt
        omega

theorem chunkLoop_tested (b : Body) (buffer : Bytes) (h : Counting b.1 buffer.length) :
    Ends (Request.chunkLoop b buffer) (Within b.1 buffer.length) := by
  induction hn : b.1.line.length + buffer.length using Nat.strong_induction_on
    generalizing b buffer with
  | h n ih =>
    obtain ⟨r, stream⟩ := b
    have ih' : ∀ b rest, Counting b.1 rest.length → b.1.line.length + rest.length <
        r.line.length + buffer.length → Ends (Request.chunkLoop b rest) (Within b.1 rest.length) := by
      intro b rest hb hlt
      exact ih _ (by rw [← hn]; exact hlt) b rest hb rfl
    rw [Request.chunkLoop_eq]
    split
    · split
      · exact ends_ok.mpr (.emptied _ rfl (Nat.zero_le _))
      · rename_i hempty hfits
        have hcounted := h.counted
        refine ends_ok.mpr ?_
        unfold Within bodyLimit
        dsimp only at hcounted ⊢
        rw [List.length_nil, Nat.add_zero]
        omega
    · split
      · exact chunkData_tested stream h ih'
      · exact chunkSize_tested stream h ih'

/-- A body is open and tested: a chunked one has counted its line and what follows, and a
measured one keeps no line. -/
structure BodyTested (r : Request) (bytes : Bytes) : Prop where
  receiving : Receiving r
  counted : r.chunked = true → (r.line.length : ℤ) ≤ r.chunked_body_size ∧
    r.chunked_body_size + bytes.length ≤ INT32_MAX
  empty : r.chunked = false → r.line = []

theorem parseInput_tested {r : Request} (stream : Option BodyStream) {buffer : Bytes}
    (hne : buffer ≠ []) (hline : Unbroken 13 10 r.line) (h : BodyTested r buffer) :
    Ends (Request.parseInput (r, stream) buffer) (Within r buffer.length) := by
  cases hchunked : r.chunked with
  | true =>
    obtain ⟨hcounted, hrange⟩ := h.counted hchunked
    have hgrown : toInt (r.chunked_body_size + buffer.length) =
        r.chunked_body_size + buffer.length := by
      unfold INT32_MAX at hrange
      exact toInt_of_range (by omega) (by omega)
    rw [parseInput_chunked h.receiving hchunked stream hne]
    refine (chunkLoop_tested _ buffer ?_).mono fun out hout => hout.mono (by rfl) le_rfl
    refine ⟨h.receiving.head_done, rfl, hchunked, hline, ?_, ?_⟩
    · show ((r.line.length + buffer.length : ℕ) : ℤ) ≤ toInt (r.chunked_body_size + buffer.length)
      rw [hgrown]
      omega
    · show toInt (r.chunked_body_size + buffer.length) ≤ _
      rw [hgrown]
      exact hrange
  | false =>
    refine (parseInput_drains (r, stream) buffer).mono ?_
    intro out hout
    have hheld := hout.held
    dsimp only at hheld
    rw [h.empty hchunked, List.length_nil, Nat.zero_add] at hheld
    exact le_max_of_le_left hheld

end Webserveau.HeldBytes
