import Mathlib
import Webserveau.Segmentation

/-!
Verdicts of a consumer on a stream that arrives in pieces.
The verdict is the first code that is not 0. An incremental consumer only looks at the
positions where pieces end, so its verdict is that of a walk over these positions. Steps of
at most `bound` cannot pass over `bound` positions in a row, and can pass over fewer.
-/
namespace Webserveau.Verdicts

open Segmentation

variable {σ ε α : Type*}

/-- The first code other than 0, with one call for each piece. -/
def verdict (feed : Feed σ ε α) : σ → List α → List (List α) → Except ε (Option ℤ)
  | _, _, [] => .ok none
  | s, buffer, piece :: pieces =>
    match feed s (buffer ++ piece) with
    | .error e => .error e
    | .ok (res, s', buffer') =>
      if res = 0 then verdict feed s' buffer' pieces else .ok (some res)

/-- The first code other than 0, in steps from a position on. -/
def walk (code : ℕ → ℤ) : ℕ → List ℕ → Option ℤ
  | _, [] => none
  | c, n :: ns => if code (c + n) = 0 then walk code (c + n) ns else some (code (c + n))

/-- Steps of a bounded length. -/
def Strides (bound : ℕ) (steps : List ℕ) : Prop := ∀ n ∈ steps, 0 < n ∧ n ≤ bound

/-- A stream cut into pieces of a bounded length. -/
def IsCut (bound : ℕ) (text : List α) (pieces : List (List α)) : Prop :=
  pieces.flatten = text ∧ ∀ piece ∈ pieces, piece ≠ [] ∧ piece.length ≤ bound

variable {Live : σ → Prop} {feed : Feed σ ε α} {code : ℕ → ℤ} {bound : ℕ} {v : ℤ}

theorem Strides.of_cons {n : ℕ} {steps : List ℕ} (h : Strides bound (n :: steps)) :
    (0 < n ∧ n ≤ bound) ∧ Strides bound steps :=
  ⟨h n (List.mem_cons_self ..), fun m hm => h m (List.mem_cons_of_mem _ hm)⟩

/-- A walk stops with the one code there is before the end, or with that of the end. -/
theorem walk_uniform (hv : v ≠ 0) (start : ℕ) {steps : List ℕ} (hsteps : Strides bound steps)
    (hne : steps ≠ []) (hend : code (start + steps.sum) = v)
    (hall : ∀ c, start < c → c < start + steps.sum → code c = 0 ∨ code c = v) :
    walk code start steps = some v := by
  induction steps generalizing start with
  | nil => exact absurd rfl hne
  | cons n steps ih =>
    obtain ⟨⟨hpos, -⟩, hrest⟩ := hsteps.of_cons
    rw [List.sum_cons, ← Nat.add_assoc] at hend hall
    unfold walk
    by_cases hlast : steps = []
    · rw [hlast, List.sum_nil, Nat.add_zero] at hend
      rw [hend, if_neg hv]
    · have hmore : 0 < steps.sum := by
        obtain ⟨m, rest, hm⟩ := List.exists_cons_of_ne_nil hlast
        have hfirst := hrest m (by rw [hm]; exact List.mem_cons_self ..)
        rw [hm, List.sum_cons]
        omega
      rcases hall (start + n) (by omega) (by omega) with hzero | hcode
      · rw [if_pos hzero]
        exact ih (start + n) hrest hlast hend fun c hlow hhigh => hall c (by omega) hhigh
      · rw [if_neg (by rw [hcode]; exact hv), hcode]

/-- A walk does not pass over a run as long as its longest step. -/
theorem walk_blocked (hv : v ≠ 0) (start : ℕ) {steps : List ℕ} (hsteps : Strides bound steps)
    {r : ℕ} (hlow : start ≤ r) (hhigh : r + bound < start + steps.sum)
    (hrun : ∀ c, r < c → c ≤ r + bound → code c ≠ 0)
    (hall : ∀ c, start < c → c < start + steps.sum → code c = 0 ∨ code c = v) :
    walk code start steps = some v := by
  induction steps generalizing start with
  | nil =>
    rw [List.sum_nil] at hhigh
    omega
  | cons n steps ih =>
    obtain ⟨⟨hpos, hle⟩, hrest⟩ := hsteps.of_cons
    rw [List.sum_cons, ← Nat.add_assoc] at hhigh hall
    unfold walk
    rcases hall (start + n) (by omega) (by omega) with hzero | hcode
    · have hbefore : start + n ≤ r := by
        by_contra hbeyond
        exact hrun (start + n) (by omega) (by omega) hzero
      rw [if_pos hzero]
      exact ih (start + n) hrest hbefore hhigh fun c hlow' hhigh' => hall c (by omega) hhigh'
    · rw [if_neg (by rw [hcode]; exact hv), hcode]

/-- When no run is that long, some walk passes over all of them. -/
theorem exists_passing_walk (start stop : ℕ) (hle : start < stop)
    (hend : code stop ≠ 0)
    (hgap : ∀ r, start ≤ r → r + bound < stop → ∃ c, r < c ∧ c ≤ r + bound ∧ code c = 0) :
    ∃ steps, Strides bound steps ∧ start + steps.sum = stop ∧
      walk code start steps = some (code stop) := by
  induction hn : stop - start using Nat.strong_induction_on generalizing start with
  | _ n ih =>
    by_cases hnear : stop ≤ start + bound
    · refine ⟨[stop - start], ?_, ?_, ?_⟩
      · intro m hm
        rw [List.mem_singleton.mp hm]
        omega
      · rw [List.sum_singleton]
        omega
      · unfold walk
        rw [show start + (stop - start) = stop by omega, if_neg hend]
    · obtain ⟨c, hlow, hhigh, hzero⟩ := hgap start le_rfl (by omega)
      have hgap' : ∀ r, c ≤ r → r + bound < stop → ∃ c, r < c ∧ c ≤ r + bound ∧ code c = 0 :=
        fun r hr => hgap r (by omega)
      obtain ⟨steps, hsteps, hsum, hwalk⟩ := ih (stop - c) (by omega) c (by omega) hgap' rfl
      refine ⟨(c - start) :: steps, ?_, ?_, ?_⟩
      · intro m hm
        rcases List.mem_cons.mp hm with rfl | hm
        · omega
        · exact hsteps m hm
      · rw [List.sum_cons]
        omega
      · unfold walk
        rw [show start + (c - start) = c by omega, if_pos hzero, hwalk]

/-- A cut has the steps of its lengths. -/
theorem IsCut.strides {text : List α} {pieces : List (List α)} (h : IsCut bound text pieces) :
    Strides bound (pieces.map List.length) ∧ (pieces.map List.length).sum = text.length := by
  constructor
  · intro n hn
    obtain ⟨piece, hpiece, rfl⟩ := List.mem_map.mp hn
    obtain ⟨hne, hle⟩ := h.2 piece hpiece
    exact ⟨List.length_pos_iff.mpr hne, hle⟩
  · rw [← List.length_flatten, h.1]

/-- Steps up to the end of a text are the lengths of a cut. -/
theorem exists_cut {text : List α} {steps : List ℕ} (h : Strides bound steps)
    (hsum : steps.sum = text.length) :
    ∃ pieces, IsCut bound text pieces ∧ pieces.map List.length = steps := by
  have hlengths := List.map_splitLengths_length text steps hsum.le
  refine ⟨steps.splitLengths text, ⟨List.flatten_splitLengths _ _ hsum.ge, ?_⟩, hlengths⟩
  intro piece hpiece
  have hlength : piece.length ∈ steps := by
    rw [← hlengths]
    exact List.mem_map_of_mem hpiece
  obtain ⟨hpos, hle⟩ := h _ hlength
  exact ⟨List.length_pos_iff.mp hpos, hle⟩

/-- The verdict on a cut is that of the walk over the ends of its pieces, as long as the
codes are those of single calls on the positions that can be reached. -/
theorem verdict_eq_walk (hinc : Incremental Live feed) {s : σ} {text : List α}
    (hcall : ∀ c d, code c = 0 → c ≤ d → d ≤ c + bound → d ≤ text.length →
      ∃ s' rest, feed s (text.take d) = .ok (code d, s', rest))
    {t : σ} {x : List α} (h : StandsFor Live feed s x t) (hx : code x.length = 0)
    {pieces : List (List α)} (htext : x ++ pieces.flatten = text)
    (hpieces : ∀ piece ∈ pieces, piece.length ≤ bound) :
    verdict feed t [] pieces = .ok (walk code x.length (pieces.map List.length)) := by
  induction pieces generalizing t x with
  | nil => rfl
  | cons piece pieces ih =>
    have hpiece := hpieces piece (List.mem_cons_self ..)
    rw [List.flatten_cons, ← List.append_assoc] at htext
    have hlength : (x ++ piece).length ≤ text.length := by
      rw [← htext, @List.length_append _ (x ++ piece)]
      omega
    have htake : text.take (x ++ piece).length = x ++ piece := by
      rw [← htext, List.take_left]
    rw [List.length_append] at hlength htake
    obtain ⟨s', rest, hfeed⟩ := hcall x.length (x.length + piece.length) hx (by omega) (by omega)
      hlength
    rw [htake, ← h.2] at hfeed
    unfold verdict
    rw [List.nil_append, hfeed, List.map_cons]
    unfold walk
    dsimp only
    by_cases hzero : code (x.length + piece.length) = 0
    · rw [hzero] at hfeed
      obtain ⟨rfl, hstand⟩ := h.extend hinc hfeed
      rw [if_pos hzero, if_pos hzero, ← List.length_append]
      refine ih hstand ?_ htext fun p hp => hpieces p (List.mem_cons_of_mem _ hp)
      rw [List.length_append]
      exact hzero
    · rw [if_neg hzero, if_neg hzero]

end Webserveau.Verdicts
