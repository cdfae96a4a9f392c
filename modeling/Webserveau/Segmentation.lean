import Mathlib

/-!
Consumers of a byte stream that arrives in pieces.
A consumer is called on the bytes left over plus the next piece and answers with a code:
0 asks for more input. An incremental consumer cannot tell where the stream was cut as
long as it answers 0, so its behaviour on any cut follows from single calls on prefixes.
-/
namespace Webserveau.Segmentation

variable {σ ε α : Type*}

/-- A call returns a code, the next state and the bytes it did not take. -/
abbrev Feed (σ ε α : Type*) := σ → List α → Except ε (ℤ × σ × List α)

/-- One call for each piece, with the codes in order. -/
def callAll (feed : Feed σ ε α) : σ → List α → List (List α) → Except ε (List ℤ × σ × List α)
  | s, buffer, [] => .ok ([], s, buffer)
  | s, buffer, piece :: pieces =>
    match feed s (buffer ++ piece) with
    | .error e => .error e
    | .ok (res, s', buffer') =>
      match callAll feed s' buffer' pieces with
      | .error e => .error e
      | .ok (codes, t) => .ok (res :: codes, t)

/-- A property of the state and the bytes that each call of a run is given. -/
def Along (P : σ → List α → Prop) (feed : Feed σ ε α) : σ → List α → List (List α) → Prop
  | _, _, [] => True
  | s, buffer, piece :: pieces =>
    P s (buffer ++ piece) ∧ ∀ res s' buffer', feed s (buffer ++ piece) = .ok (res, s', buffer') →
      Along P feed s' buffer' pieces

/-- After the answer 0 nothing is left over, and the state stands for the bytes read. -/
def Incremental (Live : σ → Prop) (feed : Feed σ ε α) : Prop :=
  ∀ s x s' rest, Live s → feed s x = .ok (0, s', rest) →
    Live s' ∧ rest = [] ∧ ∀ y, feed s' y = feed s (x ++ y)

/-- The state a consumer has reached by reading `x` behaves as one call on `x` would. -/
def StandsFor (Live : σ → Prop) (feed : Feed σ ε α) (s : σ) (x : List α) (t : σ) : Prop :=
  Live t ∧ ∀ y, feed t y = feed s (x ++ y)

variable {Live : σ → Prop} {feed : Feed σ ε α}

/-- A run goes through exactly when each of its calls does. -/
theorem callAll_ok_iff {P : σ → List α → Prop}
    (hcall : ∀ s x, (∃ out, feed s x = .ok out) ↔ P s x) (s : σ) (buffer : List α)
    (pieces : List (List α)) :
    (∃ out, callAll feed s buffer pieces = .ok out) ↔ Along P feed s buffer pieces := by
  induction pieces generalizing s buffer with
  | nil => exact ⟨fun _ => trivial, fun _ => ⟨_, rfl⟩⟩
  | cons piece pieces ih =>
    constructor
    · rintro ⟨out, hout⟩
      simp only [callAll] at hout
      cases hfeed : feed s (buffer ++ piece) with
      | error e => simp [hfeed] at hout
      | ok first =>
        refine ⟨(hcall s _).mp ⟨first, hfeed⟩, ?_⟩
        intro res s' buffer' hnext
        rw [hfeed, Except.ok.injEq] at hnext
        subst hnext
        simp only [hfeed] at hout
        apply (ih s' buffer').mp
        cases hrest : callAll feed s' buffer' pieces with
        | error e => simp [hrest] at hout
        | ok out' => exact ⟨out', rfl⟩
    · rintro ⟨hfirst, hnext⟩
      obtain ⟨⟨res, s', buffer'⟩, hfeed⟩ := (hcall s _).mpr hfirst
      obtain ⟨⟨codes, t⟩, hrest⟩ := (ih s' buffer').mpr (hnext res s' buffer' hfeed)
      refine ⟨(res :: codes, t), ?_⟩
      simp only [callAll, hfeed, hrest]

/-- What holds of the code of every call holds of every code of a run. -/
theorem callAll_codes {Q : ℤ → Prop}
    (hcall : ∀ s x res s' rest, feed s x = .ok (res, s', rest) → Q res) {s t : σ}
    {buffer rest : List α} {pieces : List (List α)} {codes : List ℤ}
    (h : callAll feed s buffer pieces = .ok (codes, t, rest)) : ∀ code ∈ codes, Q code := by
  induction pieces generalizing s buffer codes with
  | nil =>
    simp only [callAll, Except.ok.injEq, Prod.mk.injEq] at h
    simp [← h.1]
  | cons piece pieces ih =>
    simp only [callAll] at h
    cases hfeed : feed s (buffer ++ piece) with
    | error e => simp [hfeed] at h
    | ok first =>
      obtain ⟨res, s', buffer'⟩ := first
      simp only [hfeed] at h
      cases hrest : callAll feed s' buffer' pieces with
      | error e => simp [hrest] at h
      | ok out =>
        obtain ⟨codes', t'⟩ := out
        simp only [hrest, Except.ok.injEq, Prod.mk.injEq] at h
        obtain ⟨rfl, rfl, rfl⟩ := h
        intro code hcode
        rcases List.mem_cons.mp hcode with rfl | hcode
        · exact hcall _ _ _ _ _ hfeed
        · exact ih hrest code hcode

theorem standsFor_nil {s : σ} (hs : Live s) : StandsFor Live feed s [] s :=
  ⟨hs, fun _ => rfl⟩

/-- A call that asks for more extends the bytes its state stands for. -/
theorem StandsFor.extend (hinc : Incremental Live feed) {s t t' : σ} {x y rest : List α}
    (h : StandsFor Live feed s x t) (hcall : feed t y = .ok (0, t', rest)) :
    rest = [] ∧ StandsFor Live feed s (x ++ y) t' := by
  obtain ⟨hlive, hrest, hmore⟩ := hinc t y t' rest h.1 hcall
  refine ⟨hrest, hlive, ?_⟩
  intro z
  rw [hmore z, h.2 (y ++ z), List.append_assoc]

/-- Pieces inside a stretch on which single calls answer 0 are all answered 0. -/
theorem callAll_waiting (hinc : Incremental Live feed) {s t : σ} (x : List α)
    (h : StandsFor Live feed s x t) (pieces : List (List α))
    (hwait : ∀ p, p <+: x ++ pieces.flatten → ∃ s' rest, feed s p = .ok (0, s', rest)) :
    ∃ t', callAll feed t [] pieces = .ok (List.replicate pieces.length 0, t', []) ∧
      StandsFor Live feed s (x ++ pieces.flatten) t' := by
  induction pieces generalizing x t with
  | nil => exact ⟨t, rfl, by simpa using h⟩
  | cons piece pieces ih =>
    have hpre : x ++ piece <+: x ++ (piece :: pieces).flatten := by simp
    obtain ⟨s', rest, hs'⟩ := hwait _ hpre
    have hcall : feed t piece = .ok (0, s', rest) := by rw [h.2 piece, hs']
    obtain ⟨rfl, hstand⟩ := h.extend hinc hcall
    obtain ⟨t', hrun, hfinal⟩ := ih (x ++ piece) hstand (by simpa using hwait)
    refine ⟨t', ?_, by simpa using hfinal⟩
    simp only [callAll, List.nil_append, hcall, hrun, List.length_cons, List.replicate_succ]

/-- A run whose calls were all answered 0 stands for the bytes read. -/
theorem callAll_zeros (hinc : Incremental Live feed) {s t : σ} (x : List α)
    (h : StandsFor Live feed s x t) (pieces : List (List α)) {codes : List ℤ} {t' : σ}
    {rest : List α} (hrun : callAll feed t [] pieces = .ok (codes, t', rest))
    (hcodes : ∀ code ∈ codes, code = 0) :
    rest = [] ∧ StandsFor Live feed s (x ++ pieces.flatten) t' := by
  induction pieces generalizing x t codes with
  | nil =>
    simp only [callAll, Except.ok.injEq, Prod.mk.injEq] at hrun
    obtain ⟨-, rfl, rfl⟩ := hrun
    exact ⟨rfl, by simpa using h⟩
  | cons piece pieces ih =>
    simp only [callAll, List.nil_append] at hrun
    cases hfeed : feed t piece with
    | error e => simp [hfeed] at hrun
    | ok first =>
      obtain ⟨res, s', buffer'⟩ := first
      simp only [hfeed] at hrun
      cases hnext : callAll feed s' buffer' pieces with
      | error e => simp [hnext] at hrun
      | ok out =>
        obtain ⟨codes', last⟩ := out
        simp only [hnext, Except.ok.injEq, Prod.mk.injEq] at hrun
        obtain ⟨rfl, rfl⟩ := hrun
        have hres : res = 0 := hcodes res (List.mem_cons_self ..)
        subst hres
        obtain ⟨rfl, hstand⟩ := h.extend hinc hfeed
        have hlast := ih (x ++ piece) hstand hnext
          (fun code hcode => hcodes code (List.mem_cons_of_mem _ hcode))
        simpa using hlast

/-- A cut of a stream has a piece that reaches any given position inside the stream. -/
theorem exists_piece_reaching (pieces : List (List α)) (n : ℕ) (hn : 0 < n)
    (hle : n ≤ pieces.flatten.length) :
    ∃ before piece after, pieces = before ++ piece :: after ∧
      before.flatten.length < n ∧ n ≤ (before ++ [piece]).flatten.length := by
  induction pieces generalizing n with
  | nil =>
    simp only [List.flatten_nil, List.length_nil] at hle
    omega
  | cons piece pieces ih =>
    by_cases hfirst : n ≤ piece.length
    · exact ⟨[], piece, pieces, rfl, hn, by simpa using hfirst⟩
    · simp only [List.flatten_cons, List.length_append] at hle
      obtain ⟨before, next, after, rfl, hlt, hreach⟩ := ih (n - piece.length) (by omega) (by omega)
      refine ⟨piece :: before, next, after, rfl, ?_, ?_⟩
      · simp only [List.flatten_cons, List.length_append]
        omega
      · simp only [List.cons_append, List.flatten_cons, List.length_append] at hreach ⊢
        omega

theorem callAll_append (s : σ) (buffer : List α) (before after : List (List α)) :
    callAll feed s buffer (before ++ after) =
      match callAll feed s buffer before with
      | .error e => .error e
      | .ok (codes, t, rest) =>
        match callAll feed t rest after with
        | .error e => .error e
        | .ok (codes', t') => .ok (codes ++ codes', t') := by
  induction before generalizing s buffer with
  | nil =>
    simp only [List.nil_append, callAll]
    cases callAll feed s buffer after <;> rfl
  | cons piece before ih =>
    simp only [List.cons_append, callAll]
    cases feed s (buffer ++ piece) with
    | error e => rfl
    | ok out =>
      obtain ⟨res, s', buffer'⟩ := out
      simp only [ih]
      cases callAll feed s' buffer' before with
      | error e => rfl
      | ok out' =>
        obtain ⟨codes, t, rest⟩ := out'
        simp only
        cases callAll feed t rest after <;> rfl

/-- The last call of a run, after the run up to it. -/
theorem callAll_last {s t : σ} {buffer rest piece : List α} {before : List (List α)}
    {codes : List ℤ} {res : ℤ}
    (h : callAll feed s buffer (before ++ [piece]) = .ok (codes ++ [res], t, rest)) :
    ∃ s' left, callAll feed s buffer before = .ok (codes, s', left) ∧
      feed s' (left ++ piece) = .ok (res, t, rest) := by
  rw [callAll_append] at h
  cases hbefore : callAll feed s buffer before with
  | error e => simp [hbefore] at h
  | ok out =>
    obtain ⟨codes', s', left⟩ := out
    simp only [hbefore, callAll] at h
    cases hlast : feed s' (left ++ piece) with
    | error e => simp [hlast] at h
    | ok out' =>
      obtain ⟨res', t', rest'⟩ := out'
      simp only [hlast, Except.ok.injEq, Prod.mk.injEq] at h
      obtain ⟨hcodes, rfl, rfl⟩ := h
      obtain ⟨rfl, hres⟩ := List.append_inj' hcodes rfl
      obtain rfl : res' = res := by simpa using hres
      exact ⟨s', left, rfl, hlast⟩

/-- However a message is cut, the calls answer 0 until the piece that completes it, and
that call answers as one call on all the bytes so far. -/
theorem callAll_message (hinc : Incremental Live feed) {s : σ} (hs : Live s)
    (message : List α) (hne : message ≠ []) (tail : List α)
    (hwait : ∀ p, p <+: message → p ≠ message → ∃ s' rest, feed s p = .ok (0, s', rest))
    (pieces : List (List α)) (hpieces : pieces.flatten = message ++ tail) :
    ∃ before piece after, pieces = before ++ piece :: after ∧
      before.flatten.length < message.length ∧
      message.length ≤ (before ++ [piece]).flatten.length ∧
      callAll feed s [] (before ++ [piece]) =
        match feed s (before ++ [piece]).flatten with
        | .error e => .error e
        | .ok (res, t, rest) => .ok (List.replicate before.length 0 ++ [res], t, rest) := by
  have hpos : 0 < message.length := List.length_pos_iff.mpr hne
  obtain ⟨before, piece, after, rfl, hlt, hreach⟩ :=
    exists_piece_reaching pieces message.length hpos
      (by rw [hpieces, List.length_append]; omega)
  have hbefore : before.flatten <+: message := by
    have hlong : before.flatten <+: message ++ tail := by
      rw [← hpieces]
      simp
    exact List.prefix_of_prefix_length_le hlong (List.prefix_append message tail) (by omega)
  obtain ⟨t, hrun, hstand⟩ := callAll_waiting hinc [] (standsFor_nil hs) before (by
    intro p hp
    have hp' : p <+: before.flatten := by simpa using hp
    apply hwait p (hp'.trans hbefore)
    rintro rfl
    have := hp'.length_le
    omega)
  refine ⟨before, piece, after, rfl, hlt, hreach, ?_⟩
  rw [callAll_append, hrun]
  simp only [callAll, List.nil_append, hstand.2 piece]
  have hflat : (before ++ [piece]).flatten = before.flatten ++ piece := by simp
  rw [hflat]
  cases feed s (before.flatten ++ piece) with
  | error e => rfl
  | ok out => rfl

end Webserveau.Segmentation
