import Mathlib

/-!
Computations that may fail, and what holds of the results they end with.
A check answers with a code next to a state: 0 lets the next check go on, any other
code ends the sequence. A run feeds inputs to a step function, each in a state that
allows it; what every step preserves holds in every state reached.
-/
namespace Webserveau.Checks

universe u

variable {ε σ ι : Type*} {α β : Type u}

/-- Whatever the computation ends with satisfies the condition. -/
def Ends (x : Except ε α) (P : α → Prop) : Prop := ∀ a, x = .ok a → P a

theorem ends_ok {a : α} {P : α → Prop} : Ends (.ok a : Except ε α) P ↔ P a := by
  constructor
  · intro h
    exact h a rfl
  · intro h b hb
    cases hb
    exact h

theorem ends_pure {a : α} {P : α → Prop} : Ends (pure a : Except ε α) P ↔ P a := ends_ok

theorem ends_error {e : ε} {P : α → Prop} : Ends (.error e : Except ε α) P := by
  intro a ha
  cases ha

theorem Ends.mono {x : Except ε α} {P Q : α → Prop} (h : Ends x P) (hPQ : ∀ a, P a → Q a) :
    Ends x Q := fun a ha => hPQ a (h a ha)

theorem Ends.bind {x : Except ε α} {f : α → Except ε β} {P : α → Prop} {Q : β → Prop}
    (hx : Ends x P) (hf : ∀ a, P a → Ends (f a) Q) : Ends (x >>= f) Q := by
  cases x with
  | error e => exact ends_error
  | ok a => exact hf a (hx a rfl)

/-- Nothing about the first result is needed. -/
theorem Ends.bind_any {x : Except ε α} {f : α → Except ε β} {Q : β → Prop}
    (hf : ∀ a, Ends (f a) Q) : Ends (x >>= f) Q :=
  Ends.bind (P := fun _ => True) (fun _ _ => trivial) fun a _ => hf a

/-- Two checks in a row: the second is made when the first answers 0. -/
def andThen (first : Except ε (ℤ × σ)) (next : σ → Except ε (ℤ × σ)) : Except ε (ℤ × σ) := do
  let (res, s) ← first
  if res ≠ 0 then return (res, s) else next s

/-- A sequence ends as its first check, or as its second after a first answer 0. -/
theorem Ends.andThen {first : Except ε (ℤ × σ)} {next : σ → Except ε (ℤ × σ)}
    {I : σ → Prop} {Q : ℤ × σ → Prop}
    (hfirst : Ends first fun out => (out.1 = 0 → I out.2) ∧ (out.1 ≠ 0 → Q out))
    (hnext : ∀ s, I s → Ends (next s) Q) : Ends (andThen first next) Q := by
  refine Ends.bind hfirst ?_
  intro out hout
  obtain ⟨res, s⟩ := out
  by_cases hres : res = 0
  · subst hres
    exact hnext s (hout.1 rfl)
  · simp only [ne_eq, hres, not_false_eq_true, if_true]
    exact ends_pure.mpr (hout.2 hres)

theorem andThen_assoc (x : Except ε (ℤ × σ)) (f g : σ → Except ε (ℤ × σ)) :
    andThen (andThen x f) g = andThen x fun s => andThen (f s) g := by
  cases x with
  | error e => rfl
  | ok out =>
    obtain ⟨res, s⟩ := out
    by_cases hres : res = 0
    · subst hres
      rfl
    · simp only [andThen, bind, Except.bind, ne_eq, hres, not_false_eq_true, if_true, pure,
        Except.pure]

theorem andThen_ok_iff {first : Except ε (ℤ × σ)} {next : σ → Except ε (ℤ × σ)} {res : ℤ}
    {t : σ} :
    andThen first next = .ok (res, t) ↔
      first = .ok (res, t) ∧ res ≠ 0 ∨ ∃ s, first = .ok (0, s) ∧ next s = .ok (res, t) := by
  cases first with
  | error e => simp [andThen, bind, Except.bind]
  | ok out =>
    obtain ⟨code, s⟩ := out
    by_cases hcode : code = 0
    · subst hcode
      simp only [andThen, bind, Except.bind, ne_eq, not_true_eq_false, if_false, Except.ok.injEq,
        Prod.mk.injEq, true_and, exists_eq_left']
      constructor
      · exact Or.inr
      · intro h
        rcases h with ⟨⟨hres, -⟩, hne⟩ | h
        · exact absurd hres.symm hne
        · exact h
    · simp only [andThen, bind, Except.bind, ne_eq, hcode, not_false_eq_true, if_true, pure,
        Except.pure, Except.ok.injEq, Prod.mk.injEq, false_and, exists_false, or_false]
      constructor
      · intro h
        exact ⟨h, h.1 ▸ hcode⟩
      · exact fun h => h.1

/-- The states reached from a start by inputs that each state on the way allows. -/
inductive Reaches (step : σ → ι → Except ε σ) (Allowed : σ → ι → Prop) (start : σ) :
    List ι → σ → Prop
  | nil : Reaches step Allowed start [] start
  | snoc {inputs : List ι} {s t : σ} {input : ι} : Reaches step Allowed start inputs s →
      Allowed s input → step s input = .ok t → Reaches step Allowed start (inputs ++ [input]) t

/-- What holds at the start and is preserved by every allowed step holds in every state
reached. -/
theorem Reaches.invariant {step : σ → ι → Except ε σ} {Allowed : σ → ι → Prop} {start s : σ}
    {inputs : List ι} {I : σ → Prop} (hstart : I start)
    (hstep : ∀ s input, I s → Allowed s input → Ends (step s input) I)
    (h : Reaches step Allowed start inputs s) : I s := by
  induction h with
  | nil => exact hstart
  | snoc _ hallowed hnext ih => exact hstep _ _ ih hallowed _ hnext

/-- A run in which every step is allowed. -/
theorem Reaches.of_foldlM {step : σ → ι → Except ε σ} {Allowed : σ → ι → Prop} {start s : σ}
    {inputs : List ι} (hall : ∀ s input, Allowed s input)
    (h : inputs.foldlM step start = .ok s) : Reaches step Allowed start inputs s := by
  induction inputs using List.reverseRecOn generalizing s with
  | nil =>
    cases h
    exact .nil
  | append_singleton inputs input ih =>
    rw [List.foldlM_append] at h
    cases hfront : inputs.foldlM step start with
    | error e =>
      rw [hfront] at h
      cases h
    | ok t =>
      rw [hfront] at h
      cases hlast : step t input with
      | error e =>
        simp only [List.foldlM_cons, bind, Except.bind, hlast] at h
        cases h
      | ok u =>
        simp only [List.foldlM_cons, List.foldlM_nil, bind, Except.bind, hlast, pure,
          Except.pure, Except.ok.injEq] at h
        subst h
        exact .snoc (ih hfront) (hall _ _) hlast

theorem exists_of_any {x : Except ε α} {p : α → Bool} (h : x.toOption.any p = true) :
    ∃ a, x = .ok a ∧ p a = true := by
  cases x with
  | error e => cases h
  | ok a => exact ⟨a, rfl, h⟩

end Webserveau.Checks
