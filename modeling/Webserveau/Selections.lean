import Mathlib

/-!
Choosing the best member of a list.
Words are compared letter by letter, each letter by its rank in the state that the letters
before it lead to. Where ranks tell legal letters apart the comparison is a strict total
order on the legal words, and a scan that keeps the better of two finds the maximum, in
whatever order it meets the candidates.
-/
namespace Webserveau.Selections

variable {σ τ κ α : Type*}

section Words

variable [LinearOrder κ] (rank : σ → τ → κ) (next : σ → τ → σ) (legal : σ → τ → Prop)

/-- At the first letters of different rank the higher one wins; a word beats its front parts. -/
def beats : σ → List τ → List τ → Bool
  | _, [], _ => false
  | _, _ :: _, [] => true
  | s, a :: u, b :: v =>
    if rank s b < rank s a then true
    else if rank s a < rank s b then false
    else beats (next s a) u v

/-- Words in which every letter is legal where it is read. -/
def Legal : σ → List τ → Prop
  | _, [] => True
  | s, a :: u => legal s a ∧ Legal (next s a) u

variable {rank next legal}

theorem beats_irrefl (s : σ) (u : List τ) : beats rank next s u u = false := by
  induction u generalizing s with
  | nil => rfl
  | cons a u ih =>
    simp only [beats, lt_irrefl, if_false]
    exact ih _

/-- One turn of a comparison of legal words: the ranks decide, or the letters agree. -/
theorem beats_cons (hrank : ∀ s a b, legal s a → legal s b → rank s a = rank s b → a = b)
    {s : σ} {a b : τ} (ha : legal s a) (hb : legal s b) (u v : List τ) :
    beats rank next s (a :: u) (b :: v) = true ↔
      rank s b < rank s a ∨ a = b ∧ beats rank next (next s a) u v = true := by
  simp only [beats]
  constructor
  · intro h
    split at h
    · rename_i hlt
      exact Or.inl hlt
    · rename_i hge
      split at h
      · cases h
      · rename_i hle
        have hsame : rank s a = rank s b := le_antisymm (not_lt.mp hge) (not_lt.mp hle)
        exact Or.inr ⟨hrank s a b ha hb hsame, h⟩
  · intro h
    rcases h with hlt | ⟨rfl, hrest⟩
    · rw [if_pos hlt]
    · rw [if_neg (lt_irrefl _), if_neg (lt_irrefl _)]
      exact hrest

theorem beats_asymm (hrank : ∀ s a b, legal s a → legal s b → rank s a = rank s b → a = b)
    {s : σ} {u v : List τ} (hu : Legal next legal s u) (hv : Legal next legal s v)
    (h : beats rank next s u v = true) : beats rank next s v u = false := by
  induction u generalizing s v with
  | nil => cases h
  | cons a u ih =>
    cases v with
    | nil => rfl
    | cons b v =>
      rw [Bool.eq_false_iff]
      intro h'
      rw [beats_cons hrank hu.1 hv.1] at h
      rw [beats_cons hrank hv.1 hu.1] at h'
      rcases h with hlt | ⟨rfl, hrest⟩
      · rcases h' with hlt' | ⟨rfl, -⟩
        · exact lt_asymm hlt hlt'
        · exact lt_irrefl _ hlt
      · rcases h' with hlt' | ⟨-, hrest'⟩
        · exact lt_irrefl _ hlt'
        · rw [ih hu.2 hv.2 hrest] at hrest'
          cases hrest'

theorem beats_trans (hrank : ∀ s a b, legal s a → legal s b → rank s a = rank s b → a = b)
    {s : σ} {u v w : List τ} (hu : Legal next legal s u) (hv : Legal next legal s v)
    (hw : Legal next legal s w) (huv : beats rank next s u v = true)
    (hvw : beats rank next s v w = true) : beats rank next s u w = true := by
  induction u generalizing s v w with
  | nil => cases huv
  | cons a u ih =>
    cases v with
    | nil => cases hvw
    | cons b v =>
      cases w with
      | nil => rfl
      | cons c w =>
        rw [beats_cons hrank hu.1 hv.1] at huv
        rw [beats_cons hrank hv.1 hw.1] at hvw
        rw [beats_cons hrank hu.1 hw.1]
        rcases huv with hlt | ⟨rfl, hrest⟩
        · rcases hvw with hlt' | ⟨rfl, -⟩
          · exact Or.inl (lt_trans hlt' hlt)
          · exact Or.inl hlt
        · rcases hvw with hlt' | ⟨rfl, hrest'⟩
          · exact Or.inl hlt'
          · exact Or.inr ⟨rfl, ih hu.2 hv.2 hw.2 hrest hrest'⟩

theorem beats_total (hrank : ∀ s a b, legal s a → legal s b → rank s a = rank s b → a = b)
    {s : σ} {u v : List τ} (hu : Legal next legal s u) (hv : Legal next legal s v)
    (hne : u ≠ v) : beats rank next s u v = true ∨ beats rank next s v u = true := by
  induction u generalizing s v with
  | nil =>
    cases v with
    | nil => exact absurd rfl hne
    | cons b v => exact Or.inr rfl
  | cons a u ih =>
    cases v with
    | nil => exact Or.inl rfl
    | cons b v =>
      rw [beats_cons hrank hu.1 hv.1, beats_cons hrank hv.1 hu.1]
      rcases lt_trichotomy (rank s a) (rank s b) with hlt | hsame | hlt
      · exact Or.inr (Or.inl hlt)
      · have hletter := hrank s a b hu.1 hv.1 hsame
        subst hletter
        have hrest : u ≠ v := fun h => hne (by rw [h])
        rcases ih hu.2 hv.2 hrest with h | h
        · exact Or.inl (Or.inr ⟨rfl, h⟩)
        · exact Or.inr (Or.inr ⟨rfl, h⟩)
      · exact Or.inl (Or.inl hlt)

end Words

section Scans

variable (fits : α → Bool) (better : α → α → Bool)

/-- One turn of a scan for the best candidate. -/
def keep (best : Option α) (x : α) : Option α :=
  if fits x && best.all (better x) then some x else best

/-- The candidate that is better than every other one. -/
def Best (candidates : List α) (x : α) : Prop :=
  x ∈ candidates ∧ fits x = true ∧
    ∀ y ∈ candidates, fits y = true → y ≠ x → better x y = true ∧ better y x = false

/-- The comparison is a strict total order on the fitting candidates of a list. -/
structure Ranks (candidates : List α) : Prop where
  asymm : ∀ x ∈ candidates, ∀ y ∈ candidates, fits x = true → fits y = true →
    better x y = true → better y x = false
  trans : ∀ x ∈ candidates, ∀ y ∈ candidates, ∀ z ∈ candidates, fits x = true → fits y = true →
    fits z = true → better x y = true → better y z = true → better x z = true
  total : ∀ x ∈ candidates, ∀ y ∈ candidates, fits x = true → fits y = true → x ≠ y →
    better x y = true ∨ better y x = true

variable {fits better}

theorem Ranks.subset {candidates other : List α} (h : Ranks fits better candidates)
    (hsub : ∀ x ∈ other, x ∈ candidates) : Ranks fits better other where
  asymm := fun x hx y hy => h.asymm x (hsub x hx) y (hsub y hy)
  trans := fun x hx y hy z hz => h.trans x (hsub x hx) y (hsub y hy) z (hsub z hz)
  total := fun x hx y hy => h.total x (hsub x hx) y (hsub y hy)

/-- A scan ends with nothing when nothing fits, and with the best candidate otherwise. -/
theorem foldl_keep {candidates : List α} (h : Ranks fits better candidates) :
    match candidates.foldl (keep fits better) none with
    | none => ∀ x ∈ candidates, fits x = false
    | some x => Best fits better candidates x := by
  induction candidates using List.reverseRecOn with
  | nil =>
    intro x hx
    cases hx
  | append_singleton front x ih =>
    have hfront := ih (h.subset fun y hy => List.mem_append_left _ hy)
    have hlast : x ∈ front ++ [x] := List.mem_append_right _ (List.mem_singleton.mpr rfl)
    rw [List.foldl_append]
    cases hbest : front.foldl (keep fits better) none with
    | none =>
      rw [hbest] at hfront
      dsimp only at hfront
      simp only [List.foldl_cons, List.foldl_nil, keep, Option.all_none, Bool.and_true]
      by_cases hx : fits x = true
      · rw [if_pos hx]
        refine ⟨hlast, hx, ?_⟩
        intro y hy hfits hne
        rcases List.mem_append.mp hy with hy | hy
        · rw [hfront y hy] at hfits
          cases hfits
        · exact absurd (List.mem_singleton.mp hy) hne
      · rw [if_neg hx]
        intro y hy
        rcases List.mem_append.mp hy with hy | hy
        · exact hfront y hy
        · rw [List.mem_singleton.mp hy]
          simpa using hx
    | some b =>
      rw [hbest] at hfront
      obtain ⟨hb, hfitsb, hmax⟩ := hfront
      have hb' : b ∈ front ++ [x] := List.mem_append_left _ hb
      simp only [List.foldl_cons, List.foldl_nil, keep, Option.all_some]
      by_cases hx : fits x = true
      · by_cases hbetter : better x b = true
        · rw [if_pos (by rw [hx, hbetter]; rfl)]
          refine ⟨hlast, hx, ?_⟩
          intro y hy hfits hne
          rcases List.mem_append.mp hy with hyfront | hy'
          · have hxy : better x y = true := by
              by_cases hyb : y = b
              · rw [hyb]
                exact hbetter
              · exact h.trans x hlast b hb' y hy hx hfitsb hfits hbetter
                  (hmax y hyfront hfits hyb).1
            exact ⟨hxy, h.asymm x hlast y hy hx hfits hxy⟩
          · exact absurd (List.mem_singleton.mp hy') hne
        · rw [if_neg (by rw [hx]; exact hbetter)]
          refine ⟨hb', hfitsb, ?_⟩
          intro y hy hfits hne
          rcases List.mem_append.mp hy with hyfront | hy'
          · exact hmax y hyfront hfits hne
          · obtain rfl := List.mem_singleton.mp hy'
            rcases h.total b hb' y hlast hfitsb hx (Ne.symm hne) with hwin | hlose
            · exact ⟨hwin, by simpa using hbetter⟩
            · exact absurd hlose hbetter
      · rw [if_neg (by simp [hx])]
        refine ⟨hb', hfitsb, ?_⟩
        intro y hy hfits hne
        rcases List.mem_append.mp hy with hyfront | hy'
        · exact hmax y hyfront hfits hne
        · rw [List.mem_singleton.mp hy'] at hfits
          exact absurd hfits hx

theorem Best.unique {candidates : List α} {x y : α} (hx : Best fits better candidates x)
    (hy : Best fits better candidates y) : x = y := by
  by_contra hne
  have hxy := (hx.2.2 y hy.1 hy.2.1 (Ne.symm hne)).1
  have hyx := (hy.2.2 x hx.1 hx.2.1 hne).2
  rw [hxy] at hyx
  cases hyx

/-- The order in which the candidates are met does not matter. -/
theorem foldl_keep_perm {candidates other : List α} (h : Ranks fits better candidates)
    (hperm : other.Perm candidates) :
    other.foldl (keep fits better) none = candidates.foldl (keep fits better) none := by
  have hfirst := foldl_keep h
  have hsecond := foldl_keep (h.subset fun x hx => hperm.mem_iff.mp hx)
  cases hx : candidates.foldl (keep fits better) none with
  | none =>
    rw [hx] at hfirst
    cases hy : other.foldl (keep fits better) none with
    | none => rfl
    | some y =>
      rw [hy] at hsecond
      obtain ⟨hmem, hfits, -⟩ := hsecond
      rw [hfirst y (hperm.mem_iff.mp hmem)] at hfits
      cases hfits
  | some x =>
    rw [hx] at hfirst
    cases hy : other.foldl (keep fits better) none with
    | none =>
      rw [hy] at hsecond
      obtain ⟨hmem, hfits, -⟩ := hfirst
      rw [hsecond x (hperm.mem_iff.mpr hmem)] at hfits
      cases hfits
    | some y =>
      rw [hy] at hsecond
      obtain ⟨hmem, hfits, hmax⟩ := hsecond
      refine congrArg some (Best.unique ⟨hperm.mem_iff.mp hmem, hfits, ?_⟩ hfirst)
      intro z hz
      exact hmax z (hperm.mem_iff.mpr hz)

end Scans

end Webserveau.Selections
