import Mathlib

/-!
Texts in which messages stand one behind another.
A spelling tells which texts are which message. Where no message is the beginning of another,
a text shows by itself where its messages end, and two readings of it agree as far as both
of them go. A message of several parts is delimited when each part is, the later ones under
what the earlier ones say.
-/
namespace Webserveau.Framings

variable {α μ β : Type*}

/-- A text is the messages of a list, one behind another. -/
inductive Framed (Spells : List α → μ → Prop) : List α → List μ → Prop
  | nil : Framed Spells [] []
  | cons {first rest : List α} {m : μ} {ms : List μ} : Spells first m → Framed Spells rest ms →
      Framed Spells (first ++ rest) (m :: ms)

/-- No message is the beginning of another. -/
def Delimited (Spells : List α → μ → Prop) : Prop :=
  ∀ s m s' m', Spells s m → Spells s' m' → s <+: s' → s = s' ∧ m = m'

section Readings

variable {Spells : List α → μ → Prop} {text text' : List α} {ms ms' : List μ}

theorem Framed.snoc {last : List α} {m : μ} (h : Framed Spells text ms) (hlast : Spells last m) :
    Framed Spells (text ++ last) (ms ++ [m]) := by
  induction h with
  | nil =>
    have hone := Framed.cons hlast .nil
    rwa [List.append_nil] at hone
  | cons hfirst _ ih =>
    rw [List.append_assoc]
    exact .cons hfirst ih

/-- Two first messages of one text are the same. -/
theorem Delimited.first (hd : Delimited Spells) {s s' whole : List α} {m m' : μ}
    (h : Spells s m) (h' : Spells s' m') (hs : s <+: whole) (hs' : s' <+: whole) :
    s = s' ∧ m = m' := by
  rcases List.prefix_or_prefix_of_prefix hs hs' with hle | hle
  · exact hd s m s' m' h h' hle
  · obtain ⟨htext, hmessage⟩ := hd s' m' s m h' h hle
    exact ⟨htext.symm, hmessage.symm⟩

/-- Two readings of one text agree as far as both of them go. -/
theorem Framed.agree (hd : Delimited Spells) (h : Framed Spells text ms)
    (h' : Framed Spells text' ms') {whole : List α} (ht : text <+: whole) (ht' : text' <+: whole) :
    ms <+: ms' ∨ ms' <+: ms := by
  induction h generalizing text' ms' whole with
  | nil => exact Or.inl (List.nil_prefix)
  | @cons first rest m ms hfirst _ ih =>
    cases h' with
    | nil => exact Or.inr (List.nil_prefix)
    | @cons first' rest' m' ms' hfirst' hrest' =>
      have hle : first <+: whole := (List.prefix_append first rest).trans ht
      have hle' : first' <+: whole := (List.prefix_append first' rest').trans ht'
      obtain ⟨rfl, rfl⟩ := hd.first hfirst hfirst' hle hle'
      obtain ⟨behind, rfl⟩ := hle
      rw [List.prefix_append_right_inj] at ht ht'
      rcases ih hrest' ht ht' with hms | hms
      · exact Or.inl (List.cons_prefix_cons.mpr ⟨rfl, hms⟩)
      · exact Or.inr (List.cons_prefix_cons.mpr ⟨rfl, hms⟩)

end Readings

/-- A head, and a body under what the head says. -/
def Sequence (Heads : List α → μ → Prop) (Bodies : μ → List α → β → Prop) (text : List α)
    (m : μ × β) : Prop :=
  ∃ head body, text = head ++ body ∧ Heads head m.1 ∧ Bodies m.1 body m.2

theorem Delimited.sequence {Heads : List α → μ → Prop} {Bodies : μ → List α → β → Prop}
    (hheads : Delimited Heads) (hbodies : ∀ m, Delimited (Bodies m)) :
    Delimited (Sequence Heads Bodies) := by
  rintro s ⟨m, b⟩ s' ⟨m', b'⟩ ⟨head, body, rfl, hhead, hbody⟩ ⟨head', body', rfl, hhead', hbody'⟩
    hle
  have hfront : head <+: head' ++ body' := (List.prefix_append head body).trans hle
  obtain ⟨rfl, rfl⟩ := hheads.first hhead hhead' hfront (List.prefix_append head' body')
  rw [List.prefix_append_right_inj] at hle
  obtain ⟨rfl, rfl⟩ := hbodies m body b body' b' hbody hbody' hle
  exact ⟨rfl, rfl⟩

end Webserveau.Framings
