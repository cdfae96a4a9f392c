import Webserveau.BodyParsing
import Webserveau.HeadSegmentation

/-!
The parser of request bodies does not see how its input is cut.
A measured body counts the bytes that are still missing. In a chunked body the size of
the bytes read enters one running counter, and everything else is kept in `line` until
the next CRLF.
-/
namespace Webserveau.BodySegmentation

open ByteStrings OrderedMaps Formats Requests Segmentation HeadSegmentation

@[simp] theorem write_nil (stream : Option BodyStream) : BodyStream.write stream [] = stream := by
  cases stream with
  | none => rfl
  | some s => simp [BodyStream.write]

theorem write_write (stream : Option BodyStream) (x y : Bytes) :
    BodyStream.write (BodyStream.write stream x) y = BodyStream.write stream (x ++ y) := by
  cases stream with
  | none => rfl
  | some s => simp [BodyStream.write]

/-- The request with more bytes counted in its chunked body. -/
def growBody (r : Request) (n : ℕ) : Request :=
  { r with chunked_body_size := toInt (r.chunked_body_size + n) }

theorem growBody_growBody (r : Request) (m n : ℕ) :
    growBody (growBody r m) n = growBody r (m + n) := by
  simp only [growBody, toInt_add_toInt]
  rw [Int.add_assoc, Int.natCast_add]

theorem toInt_grow_sub (x k : ℤ) (n : ℕ) :
    toInt (toInt (x + n) - k) = toInt (toInt (x - k) + n) := by
  unfold toInt
  omega

/-- The fields that tell in which part of a message the parser is. -/
def SamePhase (r r' : Request) : Prop :=
  r'.status = r.status ∧ r'.b_status = r.b_status ∧ r'.final_status = r.final_status ∧
    r'.chunked = r.chunked ∧ r'.trailer_status = r.trailer_status

theorem SamePhase.refl (r : Request) : SamePhase r r := ⟨rfl, rfl, rfl, rfl, rfl⟩

/-- Between two calls the loop over chunks has not seen where its input was cut. -/
def LoopAppends (b : Body) (x : Bytes) (n : ℕ) : Prop :=
  b.1.line.length + x.length = n → ∀ r' stream' rest,
    Request.chunkLoop b x = .ok (0, (r', stream'), rest) →
    SamePhase b.1 r' ∧ rest = [] ∧
      ∀ y, y ≠ [] → Request.chunkLoop (growBody r' y.length, stream') y =
        Request.chunkLoop (growBody b.1 y.length, b.2) (x ++ y)

theorem chunkData_append (r : Request) (hs : r.chunked_status = true)
    (stream : Option BodyStream) (x : Bytes)
    (ih : ∀ m < r.line.length + x.length, ∀ b x, LoopAppends b x m) {r' : Request}
    {stream' : Option BodyStream} {rest : Bytes}
    (h : Request.chunkData Request.chunkLoop (r, stream) x = .ok (0, (r', stream'), rest)) :
    SamePhase r r' ∧ rest = [] ∧
      ∀ y, y ≠ [] → Request.chunkLoop (growBody r' y.length, stream') y =
        Request.chunkData Request.chunkLoop (growBody r y.length, stream) (x ++ y) := by
  unfold Request.chunkData at h
  simp only at h
  split at h
  · simp at h
  · rename_i hlen0
    cases hcut : cutAt 13 10 (r.line ++ x) with
    | none =>
      simp only [hcut, Except.ok.injEq, Prod.mk.injEq] at h
      obtain ⟨hcode, ⟨hstate, rfl⟩, rfl⟩ := h
      rw [checkSizes_of_zero hcode] at hstate
      subst hstate
      refine ⟨SamePhase.refl r, rfl, ?_⟩
      intro y hy
      change Request.chunkLoop (growBody { r with line := r.line ++ x } y.length, stream) y = _
      rw [Request.chunkLoop_data (by exact hs) stream hy]
      simp only [Request.chunkData, growBody, hlen0, if_false, List.append_assoc]
      rfl
    | some cut =>
      obtain ⟨line, rest'⟩ := cut
      have hlen := cutAt_length hcut
      rw [List.length_append] at hlen
      simp only [hcut] at h
      split at h
      · simp at h
      · rename_i hsize
        obtain ⟨hphase, hrest, hnext⟩ := ih rest'.length (by omega) _ rest' (by simp) _ _ _ h
        refine ⟨hphase, hrest, ?_⟩
        intro y hy
        have hjoined := cutAt_append hcut y
        rw [List.append_assoc] at hjoined
        rw [hnext y hy]
        simp only [Request.chunkData, growBody, hlen0, if_false, hjoined, hsize]

theorem chunkLoop_append (n : ℕ) (b : Body) (x : Bytes) : LoopAppends b x n := by
  induction n using Nat.strong_induction_on generalizing b x with
  | h n ih =>
    obtain ⟨r, stream⟩ := b
    rintro rfl r' stream' rest h
    simp only at ih
    by_cases hx : x = []
    · subst hx
      rw [Request.chunkLoop_eq, if_pos rfl] at h
      split at h
      · simp at h
      · simp only [Except.ok.injEq, Prod.mk.injEq, true_and] at h
        obtain ⟨⟨rfl, rfl⟩, rfl⟩ := h
        exact ⟨SamePhase.refl r, rfl, fun y _ => by rw [List.nil_append]⟩
    · by_cases hs : r.chunked_status = true
      · rw [Request.chunkLoop_data hs stream hx] at h
        obtain ⟨hphase, hrest, hnext⟩ := chunkData_append r hs stream x ih h
        refine ⟨hphase, hrest, ?_⟩
        intro y hy
        rw [hnext y hy, Request.chunkLoop_data (r := growBody r y.length) hs stream (by simp [hx])]
      · have hsize : r.chunked_status = false := by simpa using hs
        rw [Request.chunkLoop_size hsize stream hx] at h
        unfold Request.chunkSize at h
        cases hcut : cutAt 13 10 (r.line ++ x) with
        | none =>
          simp only [hcut] at h
          split at h
          · simp at h
          · simp only [Except.ok.injEq, Prod.mk.injEq] at h
            obtain ⟨hcode, ⟨hstate, rfl⟩, rfl⟩ := h
            rw [checkSizes_of_zero hcode] at hstate
            subst hstate
            refine ⟨SamePhase.refl r, rfl, ?_⟩
            intro y hy
            show Request.chunkLoop (growBody { r with line := r.line ++ x } y.length, stream) y = _
            rw [Request.chunkLoop_size (by exact hsize) stream hy,
              Request.chunkLoop_size (r := growBody r y.length) hsize stream (by simp [hx])]
            simp only [Request.chunkSize, growBody, List.append_assoc]
            rfl
        | some cut =>
          obtain ⟨line, rest'⟩ := cut
          have hlen := cutAt_length hcut
          rw [List.length_append] at hlen
          simp only [hcut] at h
          split at h
          · simp at h
          · rename_i hgood
            obtain ⟨hphase, hrest, hnext⟩ := chunkData_append _ rfl stream rest'
              (fun m hm => ih m (by simp only [List.length_nil] at hm; omega)) h
            refine ⟨hphase, hrest, ?_⟩
            intro y hy
            have hjoined := cutAt_append hcut y
            rw [List.append_assoc] at hjoined
            rw [hnext y hy,
              Request.chunkLoop_size (r := growBody r y.length) hsize stream (by simp [hx])]
            simp only [Request.chunkSize, growBody, hjoined, hgood, if_false, toInt_grow_sub]

/-- A request whose body is being read. -/
structure Receiving (r : Request) : Prop where
  head_done : r.status = .term
  body_open : r.b_status = .new ∨ r.b_status = .ongoing
  unfinished : r.final_status.index ≤ FinalStatus.trailer.index
  framed : r.chunked = true ∨ 0 ≤ r.len ∧ r.len < r.content_length ∧ r.content_length ≤ INT32_MAX

/-- The request after its body has been entered. -/
def entered (r : Request) : Request := { r with b_status := .ongoing }

theorem Receiving.entered {r : Request} (h : Receiving r) : Receiving (entered r) :=
  ⟨h.head_done, Or.inr rfl, h.unfinished, h.framed⟩

theorem Receiving.enter {r : Request} (h : Receiving r) :
    (if r.b_status = .new then { r with b_status := .ongoing } else r) =
      BodySegmentation.entered r := by
  rcases h.body_open with hb | hb
  · rw [if_pos hb]
    rfl
  · rw [if_neg (by simp [hb]), BodySegmentation.entered, ← hb]

theorem Receiving.not_term {r : Request} (h : Receiving r) : r.b_status ≠ .term := by
  rcases h.body_open with hb | hb <;> simp [hb]

theorem parseTrailerHeaders_open {r : Request} (h : r.b_status = .ongoing) (buffer : Bytes) :
    r.parseTrailerHeaders buffer = .ok (0, r, buffer) := by
  rw [Request.parseTrailerHeaders, if_pos (by simp [h])]
  rfl

/-- A call in the middle of a body, up to the body parser in charge. -/
theorem parseInput_eq {r : Request} (h : Receiving r) (stream : Option BodyStream) {x : Bytes}
    (hx : x ≠ []) :
    Request.parseInput (r, stream) x =
      match (if r.chunked then Request.parseChunked (entered r, stream) x
        else Request.parseMesured (entered r, stream) x) with
      | .error e => .error e
      | .ok (res, (r', stream'), rest) =>
        if res ≠ 0 then .ok (res, (r', stream'), rest)
        else match r'.parseTrailerHeaders rest with
          | .error e => .error e
          | .ok (res, r', rest) => .ok (res, (r', stream'), rest) := by
  have hopen : ¬ (r.final_status.index > FinalStatus.trailer.index ∨ x = []) := by
    have := h.unfinished
    simp only [hx, or_false]
    omega
  have hbody : ¬ (r.b_status = .term ∨ x = []) := by simp [hx, h.not_term]
  rw [Request.parseInput]
  simp only [hopen, if_false, Request.parseBody, hbody, h.enter]
  have hchunked : (entered r).chunked = r.chunked := rfl
  simp only [hchunked, bind, Except.bind]
  generalize (if r.chunked = true then Request.parseChunked (entered r, stream) x
    else Request.parseMesured (entered r, stream) x) = out
  cases out with
  | error e => rfl
  | ok out =>
    simp only
    split
    · rfl
    · cases out.2.1.1.parseTrailerHeaders out.2.2 with
      | error e => rfl
      | ok out' => rfl

theorem parseInput_chunked {r : Request} (h : Receiving r) (hc : r.chunked = true)
    (stream : Option BodyStream) {x : Bytes} (hx : x ≠ []) :
    Request.parseInput (r, stream) x =
      Request.chunkLoop (growBody (entered r) x.length, stream) x := by
  have hopen : (entered r).b_status ≠ .term := by simp [entered]
  have hparse : Request.parseChunked (entered r, stream) x =
      Request.chunkLoop (growBody (entered r) x.length, stream) x := by
    rw [Request.parseChunked]
    simp only [hopen, if_false]
    rfl
  rw [parseInput_eq h stream hx, if_pos hc, hparse]
  cases hloop : Request.chunkLoop (growBody (entered r) x.length, stream) x with
  | error e => rfl
  | ok out =>
    obtain ⟨res, ⟨r', stream'⟩, rest⟩ := out
    simp only
    split
    · rfl
    · rename_i hres
      obtain rfl : res = 0 := by simpa using hres
      obtain ⟨hphase, -, -⟩ := chunkLoop_append _ _ x rfl _ _ _ hloop
      rw [parseTrailerHeaders_open hphase.2.1]

/-- A measured body takes the bytes that are missing and leaves the rest. -/
theorem parseMesured_eq (r : Request) (stream : Option BodyStream) (x : Bytes) (hlow : 0 ≤ r.len)
    (hlt : r.len < r.content_length) (hhigh : r.content_length ≤ INT32_MAX) :
    Request.parseMesured (r, stream) x = .ok (
      if (x.length : ℤ) < r.content_length - r.len then
        (0, ({ r with len := r.len + x.length }, BodyStream.write stream x), [])
      else
        let missing := (r.content_length - r.len).toNat
        (-1, ({ r with len := r.content_length, b_status := .term, final_status := .complete },
          BodyStream.close (BodyStream.write stream (x.take missing))), x.drop missing)) := by
  unfold INT32_MAX at hhigh
  have hmissing : toSize (toInt (r.content_length - r.len)) = (r.content_length - r.len).toNat := by
    rw [toInt_of_range (by omega) (by omega)]
    unfold toSize
    omega
  rw [Request.parseMesured]
  simp only [hmissing, substr_zero, bind, Except.bind, pure, Except.pure]
  by_cases hfull : (x.length : ℤ) < r.content_length - r.len
  · have hcut : (r.content_length - r.len).toNat > x.length := by omega
    have hlen : toInt (r.len + x.length) = r.len + x.length :=
      toInt_of_range (by omega) (by omega)
    have hne : r.len + (x.length : ℤ) ≠ r.content_length := by omega
    simp only [hcut, if_true, List.take_length, hlen, hne, if_false, hfull,
      substrFrom_of_le (Nat.le_refl x.length), List.drop_length]
  · have hcut : ¬ (r.content_length - r.len).toNat > x.length := by omega
    have hle : (r.content_length - r.len).toNat ≤ x.length := by omega
    have hlen : toInt (r.len + (x.take (r.content_length - r.len).toNat).length) =
        r.content_length := by
      rw [List.length_take, Nat.min_eq_left hle, toInt_of_range (by omega) (by omega)]
      omega
    simp only [hcut, if_false, hlen, if_true, hfull, substrFrom_of_le hle]

theorem parseInput_mesured {r : Request} (h : Receiving r) (hc : r.chunked = false)
    (stream : Option BodyStream) {x : Bytes} (hx : x ≠ []) :
    Request.parseInput (r, stream) x = Request.parseMesured (entered r, stream) x := by
  obtain ⟨hlow, hlt, hhigh⟩ := h.framed.resolve_left (by simp [hc])
  rw [parseInput_eq h stream hx, if_neg (by simp [hc]),
    parseMesured_eq (entered r) stream x hlow hlt hhigh]
  by_cases hfull : (x.length : ℤ) < (entered r).content_length - (entered r).len
  · simp only [hfull, if_true]
    rw [parseTrailerHeaders_open (by rfl)]
    rfl
  · simp only [hfull, if_false]
    rfl

theorem parseInput_nil (b : Body) : Request.parseInput b [] = .ok (0, b, []) := by
  obtain ⟨r, stream⟩ := b
  rw [Request.parseInput]
  simp [pure, Except.pure]

theorem Receiving.of_samePhase {r r' : Request} (h : Receiving r) (hphase : SamePhase r r')
    (hc : r.chunked = true) : Receiving r' := by
  obtain ⟨hstatus, hb, hfinal, hchunked, -⟩ := hphase
  exact ⟨by rw [hstatus, h.head_done], by rw [hb]; exact h.body_open,
    by rw [hfinal]; exact h.unfinished, Or.inl (by rw [hchunked, hc])⟩

/-- Body parsing is incremental. -/
theorem parseInput_incremental :
    Incremental (fun b : Body => Receiving b.1) Request.parseInput := by
  rintro ⟨r, stream⟩ x ⟨r', stream'⟩ rest hr h
  simp only at hr
  by_cases hx : x = []
  · subst hx
    rw [parseInput_nil] at h
    simp only [Except.ok.injEq, Prod.mk.injEq, true_and] at h
    obtain ⟨⟨rfl, rfl⟩, rfl⟩ := h
    exact ⟨hr, rfl, fun y => by rw [List.nil_append]⟩
  · by_cases hc : r.chunked = true
    · have hcall := h
      rw [parseInput_chunked hr hc stream hx] at h
      obtain ⟨hphase, hrest, hnext⟩ := chunkLoop_append _ _ x rfl _ _ _ h
      have hphase' : SamePhase (entered r) r' := hphase
      have hr' : Receiving r' := hr.entered.of_samePhase hphase' hc
      refine ⟨hr', hrest, ?_⟩
      intro y
      by_cases hy : y = []
      · subst hy
        rw [parseInput_nil, List.append_nil, hcall, hrest]
      · have hentered : entered r' = r' := by
          have hb : r'.b_status = .ongoing := hphase'.2.1
          rw [entered, ← hb]
        have hc' : r'.chunked = true := by
          rw [hphase'.2.2.2.1]
          exact hc
        rw [parseInput_chunked hr' hc' stream' hy, hentered, hnext y hy,
          parseInput_chunked hr hc stream (by simp [hx]), growBody_growBody, List.length_append]
    · have hcall := h
      have hm : r.chunked = false := by simpa using hc
      obtain ⟨hlow, hlt, hhigh⟩ := hr.framed.resolve_left hc
      rw [parseInput_mesured hr hm stream hx,
        parseMesured_eq (entered r) stream x hlow hlt hhigh] at h
      by_cases hfull : (x.length : ℤ) < (entered r).content_length - (entered r).len
      · simp only [hfull, if_true, Except.ok.injEq, Prod.mk.injEq, true_and] at h
        obtain ⟨⟨rfl, rfl⟩, rfl⟩ := h
        have hleft : (x.length : ℤ) < r.content_length - r.len := hfull
        have hr' : Receiving { entered r with len := r.len + x.length } :=
          ⟨hr.head_done, Or.inr rfl, hr.unfinished, Or.inr ⟨by dsimp only; omega,
            by dsimp only [entered]; omega, hhigh⟩⟩
        refine ⟨hr', rfl, ?_⟩
        intro y
        by_cases hy : y = []
        · subst hy
          rw [parseInput_nil, List.append_nil, hcall]
        · have hxy : x ++ y ≠ [] := by simp [hx]
          have hrest := parseMesured_eq { entered r with len := r.len + x.length }
            (BodyStream.write stream x) y (by dsimp only; omega) (by dsimp only [entered]; omega) hhigh
          have hwhole := parseMesured_eq (entered r) stream (x ++ y) hlow hlt hhigh
          refine (parseInput_mesured hr' hm (BodyStream.write stream x) hy).trans ?_
          rw [parseInput_mesured hr hm stream hxy, hwhole]
          refine hrest.trans ?_
          simp only [entered, List.length_append, Int.natCast_add] at hleft ⊢
          by_cases hshort : (y.length : ℤ) < r.content_length - (r.len + x.length)
          · have hshort' : (x.length : ℤ) + y.length < r.content_length - r.len := by omega
            simp only [hshort, hshort', if_true, write_write, Int.add_assoc]
          · have hshort' : ¬ (x.length : ℤ) + y.length < r.content_length - r.len := by omega
            have hcut : (r.content_length - r.len).toNat =
                x.length + (r.content_length - (r.len + x.length)).toNat := by omega
            simp only [hshort, hshort', if_false, write_write, hcut, List.take_length_add_append,
              List.drop_length_add_append]
      · simp [hfull] at h

end Webserveau.BodySegmentation
