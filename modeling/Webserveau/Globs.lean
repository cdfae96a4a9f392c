import Mathlib

/-!
Expressions with stars, and their leftmost reading.
An expression stands for the texts that are had by replacing each of its stars by a text.
Read from the left, a star takes what comes before the first place of the token behind it,
and nothing is ever taken back. Where no star follows a star and the expression ends in a
literal, this finds the shortest prefix that the expression stands for.
-/
namespace Webserveau.Globs

variable {α : Type*} (star : α)

/-- The texts obtained from an expression by replacing each star by some text. -/
inductive Glob : List α → List α → Prop
  | nil : Glob [] []
  | star (x : List α) {e s : List α} : Glob e s → Glob (star :: e) (x ++ s)
  | char {c : α} {e s : List α} : c ≠ star → Glob e s → Glob (c :: e) (c :: s)

/-- No place of a token lies before the one behind `a`. -/
def FirstBehind (a token s : List α) : Prop :=
  ∀ a' b, s = a' ++ token ++ b → a.length ≤ a'.length

/-- The reading of a text from the left, token by token. -/
inductive Leftmost : List (List α) → List α → Prop
  | done : Leftmost [] []
  | all (s : List α) : Leftmost [[star]] s
  | skip {a next b : List α} {rest : List (List α)} : FirstBehind a next (a ++ next ++ b) →
      Leftmost rest b → Leftmost ([star] :: next :: rest) (a ++ next ++ b)
  | text {token b : List α} {rest : List (List α)} : token ≠ [star] → Leftmost rest b →
      Leftmost (token :: rest) (token ++ b)

/-- Stars, and literals that are as long as they can be. -/
inductive Tokens : List (List α) → Prop
  | nil : Tokens []
  | star {rest : List (List α)} : Tokens rest → Tokens ([star] :: rest)
  | literal {token : List α} {rest : List (List α)} : token ≠ [] → star ∉ token →
      rest = [] ∨ (∃ rest', rest = [star] :: rest') → Tokens rest → Tokens (token :: rest)

variable {star}

theorem glob_nil_iff {s : List α} : Glob star [] s ↔ s = [] := by
  constructor
  · intro h
    cases h
    rfl
  · intro h
    subst h
    exact .nil

theorem glob_star_iff {e s : List α} :
    Glob star (star :: e) s ↔ ∃ a b, s = a ++ b ∧ Glob star e b := by
  constructor
  · intro h
    cases h with
    | star x h => exact ⟨x, _, rfl, h⟩
    | char hne _ => exact absurd rfl hne
  · intro ⟨a, b, hs, h⟩
    subst hs
    exact .star a h

theorem leftmost_nil_iff {s : List α} : Leftmost star [] s ↔ s = [] := by
  constructor
  · intro h
    cases h
    rfl
  · intro h
    subst h
    exact .done

theorem leftmost_text_iff {token s : List α} {rest : List (List α)} (hne : token ≠ [star]) :
    Leftmost star (token :: rest) s ↔ ∃ b, s = token ++ b ∧ Leftmost star rest b := by
  constructor
  · intro h
    cases h with
    | all _ => exact absurd rfl hne
    | skip _ _ => exact absurd rfl hne
    | text _ h => exact ⟨_, rfl, h⟩
  · intro ⟨b, hs, h⟩
    subst hs
    exact .text hne h

theorem leftmost_skip_iff {next s : List α} {rest : List (List α)} :
    Leftmost star ([star] :: next :: rest) s ↔
      ∃ a b, s = a ++ next ++ b ∧ FirstBehind a next s ∧ Leftmost star rest b := by
  constructor
  · intro h
    cases h with
    | skip hfirst h => exact ⟨_, _, rfl, hfirst, h⟩
    | text hne _ => exact absurd rfl hne
  · intro ⟨a, b, hs, hfirst, h⟩
    subst hs
    exact .skip hfirst h

/-- A star takes more text in front. -/
theorem Glob.behind {e s : List α} (h : Glob star (star :: e) s) (x : List α) :
    Glob star (star :: e) (x ++ s) := by
  obtain ⟨a, b, rfl, hb⟩ := glob_star_iff.mp h
  rw [← List.append_assoc]
  exact .star (x ++ a) hb

theorem glob_literal_iff {token e s : List α} (hliteral : star ∉ token) :
    Glob star (token ++ e) s ↔ ∃ b, s = token ++ b ∧ Glob star e b := by
  induction token generalizing s with
  | nil =>
    constructor
    · intro h
      exact ⟨s, rfl, h⟩
    · intro ⟨b, hs, h⟩
      rwa [hs]
  | cons c token ih =>
    have hc : c ≠ star := fun h => hliteral (h ▸ List.mem_cons_self ..)
    have htoken : star ∉ token := fun h => hliteral (List.mem_cons_of_mem c h)
    constructor
    · intro h
      cases h with
      | star x _ => exact absurd rfl hc
      | char _ h =>
        obtain ⟨b, rfl, hb⟩ := (ih htoken).mp h
        exact ⟨b, rfl, hb⟩
    · intro ⟨b, hs, hb⟩
      subst hs
      exact .char hc ((ih htoken).mpr ⟨b, rfl, hb⟩)

/-- What is read from the left is a text of the expression, also where a star behind a star
has been read as itself. -/
theorem Leftmost.glob {tokens : List (List α)} {s : List α} (h : Leftmost star tokens s)
    (htokens : Tokens star tokens) : Glob star tokens.flatten s := by
  induction h with
  | done => exact .nil
  | all s =>
    have hall : Glob star [star] (s ++ []) := .star s .nil
    rwa [List.append_nil] at hall
  | text hne hrest ih =>
    cases htokens with
    | star htokens => exact absurd rfl hne
    | literal _ hliteral _ htokens =>
      rw [List.flatten_cons, glob_literal_iff hliteral]
      exact ⟨_, rfl, ih htokens⟩
  | @skip a next b rest _ hrest ih =>
    cases htokens with
    | literal _ hliteral _ _ => exact absurd (List.mem_singleton_self star) hliteral
    | star htokens =>
      rw [List.append_assoc]
      refine .star a ?_
      cases htokens with
      | star htokens => exact .star [star] (ih htokens)
      | literal _ hliteral _ htokens =>
        show Glob star (next ++ rest.flatten) (next ++ b)
        rw [glob_literal_iff hliteral]
        exact ⟨b, rfl, ih htokens⟩

/-- The expression ends in a star, or no shorter prefix of the text is one of its texts. -/
def Settled (star : α) (e s : List α) : Prop :=
  e.getLast? = some star ∨ ∀ w, w <+: s → Glob star e w → w = s

theorem tokens_flatten_ne_nil {tokens : List (List α)} (h : Tokens star tokens)
    (hne : tokens ≠ []) : tokens.flatten ≠ [] := by
  cases h with
  | nil => exact absurd rfl hne
  | star _ => exact List.cons_ne_nil _ _
  | literal htoken _ _ _ =>
    rw [List.flatten_cons]
    exact fun h => htoken (List.append_eq_nil_iff.mp h).1

/-- The literal in front of an expression takes no part in what settles a text. -/
theorem settled_literal_iff {token b : List α} {rest : List (List α)} (hliteral : star ∉ token)
    (hrest : Tokens star rest) :
    Settled star (token ++ rest.flatten) (token ++ b) ↔ Settled star rest.flatten b := by
  have hlast : (token ++ rest.flatten).getLast? = some star ↔
      rest.flatten.getLast? = some star := by
    by_cases hnil : rest = []
    · subst hnil
      rw [List.flatten_nil, List.append_nil, List.getLast?_nil]
      constructor
      · intro h
        exact absurd (List.mem_of_getLast? h) hliteral
      · intro h
        cases h
    · rw [List.getLast?_append_of_ne_nil _ (tokens_flatten_ne_nil hrest hnil)]
  unfold Settled
  rw [hlast]
  refine or_congr Iff.rfl ?_
  constructor
  · intro h w hw hglob
    have hsame := h (token ++ w) (List.prefix_append_right_inj token |>.mpr hw)
      ((glob_literal_iff hliteral).mpr ⟨w, rfl, hglob⟩)
    exact List.append_cancel_left hsame
  · intro h w hw hglob
    obtain ⟨w', rfl, hglob'⟩ := (glob_literal_iff hliteral).mp hglob
    rw [h w' ((List.prefix_append_right_inj token).mp hw) hglob']

theorem FirstBehind.of_prefix {a token s w : List α} (h : FirstBehind a token s) (hw : w <+: s) :
    FirstBehind a token w := by
  intro a' b hsplit
  obtain ⟨t, rfl⟩ := hw
  refine h a' (b ++ t) ?_
  rw [hsplit, List.append_assoc]

/-- A prefix of a text that an expression with a star and a literal in front stands for
goes past the first place of the literal. -/
theorem glob_past_first {a next e s w : List α} (hliteral : star ∉ next)
    (hfirst : FirstBehind a next s) (hplace : a ++ next <+: s) (hw : w <+: s)
    (h : Glob star (star :: (next ++ e)) w) :
    ∃ x b, w = a ++ next ++ (x ++ b) ∧ Glob star e b := by
  obtain ⟨a', c, rfl, hc⟩ := glob_star_iff.mp h
  obtain ⟨b, rfl, hb⟩ := (glob_literal_iff hliteral).mp hc
  have hle : a.length ≤ a'.length :=
    hfirst.of_prefix hw a' b (List.append_assoc a' next b).symm
  have hfront : a ++ next <+: a' ++ (next ++ b) := by
    refine List.prefix_of_prefix_length_le hplace hw ?_
    simp only [List.length_append]
    omega
  obtain ⟨v, hv⟩ := hfront
  have hsuffix : b <:+ v := by
    refine List.suffix_of_suffix_length_le ⟨a' ++ next, List.append_assoc _ _ _⟩ ⟨_, hv⟩ ?_
    have hlen := congrArg List.length hv
    simp only [List.length_append] at hlen
    omega
  obtain ⟨x, rfl⟩ := hsuffix
  exact ⟨x, b, hv.symm, hb⟩

/-- The token behind a star, and what settles a text after it. -/
theorem settled_skip_iff {a next b : List α} {rest : List (List α)} (hnext : next ≠ [])
    (hliteral : star ∉ next) (hend : rest = [] ∨ ∃ rest', rest = [star] :: rest')
    (hrest : Tokens star rest) (hfirst : FirstBehind a next (a ++ next ++ b)) :
    Glob star (star :: (next ++ rest.flatten)) (a ++ next ++ b) ∧
        Settled star (star :: (next ++ rest.flatten)) (a ++ next ++ b) ↔
      Glob star rest.flatten b ∧ Settled star rest.flatten b := by
  have hplace : a ++ next <+: a ++ next ++ b := List.prefix_append _ _
  have hglob : ∀ v, Glob star rest.flatten v →
      Glob star (star :: (next ++ rest.flatten)) (a ++ next ++ v) := by
    intro v hv
    rw [List.append_assoc]
    exact .star a ((glob_literal_iff hliteral).mpr ⟨v, rfl, hv⟩)
  have hlast : rest ≠ [] → ((star :: (next ++ rest.flatten)).getLast? = some star ↔
      rest.flatten.getLast? = some star) := by
    intro hne
    have hflat := tokens_flatten_ne_nil hrest hne
    rw [← List.cons_append, List.getLast?_append_of_ne_nil _ hflat]
  rcases hend with rfl | ⟨rest', rfl⟩
  · have hopen : (star :: (next ++ ([] : List (List α)).flatten)).getLast? ≠ some star := by
      rw [List.flatten_nil, List.append_nil, ← List.singleton_append,
        List.getLast?_append_of_ne_nil _ hnext]
      intro h
      exact hliteral (List.mem_of_getLast? h)
    constructor
    · intro ⟨h, hsettled⟩
      have hshort := hsettled.resolve_left hopen (a ++ next) hplace (by
        have hnil := hglob [] .nil
        rwa [List.append_nil] at hnil)
      have hnil : b = [] := List.append_right_eq_self.mp hshort.symm
      subst hnil
      exact ⟨.nil, Or.inr fun w hw _ => List.prefix_nil.mp hw⟩
    · intro ⟨h, _⟩
      refine ⟨hglob b h, Or.inr ?_⟩
      intro w hw hwhole
      obtain rfl := glob_nil_iff.mp h
      obtain ⟨x, b, rfl, -⟩ := glob_past_first hliteral hfirst hplace hw hwhole
      have hlen := hw.length_le
      simp only [List.length_append, List.length_nil] at hlen
      have hx : x = [] := List.eq_nil_of_length_eq_zero (by omega)
      have hb : b = [] := List.eq_nil_of_length_eq_zero (by omega)
      rw [hx, hb, List.nil_append]
  · have hback : ∀ w, w <+: a ++ next ++ b →
        Glob star (star :: (next ++ ([star] :: rest').flatten)) w →
        ∃ v, w = a ++ next ++ v ∧ Glob star ([star] :: rest').flatten v := by
      intro w hw h
      obtain ⟨x, c, hsplit, hc⟩ := glob_past_first hliteral hfirst hplace hw h
      exact ⟨x ++ c, hsplit, Glob.behind hc x⟩
    unfold Settled
    rw [hlast (List.cons_ne_nil _ _)]
    constructor
    · intro ⟨h, hsettled⟩
      obtain ⟨v, hv, hglobv⟩ := hback _ (List.prefix_refl _) h
      rw [← List.append_cancel_left hv] at hglobv
      refine ⟨hglobv, hsettled.imp id ?_⟩
      intro hmin w hw hglobw
      exact List.append_cancel_left (hmin (a ++ next ++ w)
        ((List.prefix_append_right_inj _).mpr hw) (hglob w hglobw))
    · intro ⟨h, hsettled⟩
      refine ⟨hglob b h, hsettled.imp id ?_⟩
      intro hmin w hw hglobw
      obtain ⟨v, rfl, hv⟩ := hback w hw hglobw
      rw [hmin v ((List.prefix_append_right_inj _).mp hw) hv]

/-- A token that occurs has a first place. -/
theorem exists_first {token s : List α} (h : ∃ a b, s = a ++ (token ++ b)) :
    ∃ a b, s = a ++ token ++ b ∧ FirstBehind a token (a ++ token ++ b) := by
  have hlengths : ∃ n, ∃ a b, s = a ++ token ++ b ∧ a.length = n := by
    obtain ⟨a, b, hs⟩ := h
    exact ⟨a.length, a, b, by rw [hs, List.append_assoc], rfl⟩
  classical
  obtain ⟨a, b, hs, hlen⟩ := Nat.find_spec hlengths
  refine ⟨a, b, hs, ?_⟩
  intro a' b' hs'
  rw [hlen]
  exact Nat.find_min' hlengths ⟨a', b', hs.trans hs', rfl⟩

/-- An expression with no star behind a star is read from the left exactly by the texts
that it stands for and that settle it. -/
theorem leftmost_iff {tokens : List (List α)} (htokens : Tokens star tokens)
    (hsingle : ¬ [star, star] <:+: tokens.flatten) (s : List α) :
    Leftmost star tokens s ↔ Glob star tokens.flatten s ∧ Settled star tokens.flatten s := by
  induction hn : tokens.length using Nat.strong_induction_on generalizing tokens s with
  | _ n ih =>
    have hnext : ∀ {rest}, Tokens star rest → rest.length < n →
        rest.flatten <:+: tokens.flatten → ∀ s, Leftmost star rest s ↔
          Glob star rest.flatten s ∧ Settled star rest.flatten s := by
      intro rest hrest hlt hinfix s
      exact ih _ hlt hrest (fun h => hsingle (h.trans hinfix)) s rfl
    cases htokens with
    | nil =>
      rw [List.flatten_nil, glob_nil_iff]
      constructor
      · intro h
        cases h
        exact ⟨rfl, Or.inr fun w hw _ => List.prefix_nil.mp hw⟩
      · intro ⟨h, _⟩
        subst h
        exact .done
    | @literal token rest htoken hliteral hend hrest =>
      have hne : token ≠ [star] := by
        intro h
        exact hliteral (h ▸ List.mem_singleton_self star)
      have hrest' := hnext hrest (by rw [← hn, List.length_cons]; omega)
        ⟨token, [], by rw [List.flatten_cons, List.append_nil]⟩
      rw [List.flatten_cons]
      rw [leftmost_text_iff hne]
      constructor
      · intro ⟨b, hs, h⟩
        subst hs
        obtain ⟨hglob, hsettled⟩ := (hrest' b).mp h
        exact ⟨(glob_literal_iff hliteral).mpr ⟨b, rfl, hglob⟩,
          (settled_literal_iff hliteral hrest).mpr hsettled⟩
      · intro ⟨hglob, hsettled⟩
        obtain ⟨b, rfl, hb⟩ := (glob_literal_iff hliteral).mp hglob
        exact ⟨b, rfl, (hrest' b).mpr ⟨hb, (settled_literal_iff hliteral hrest).mp hsettled⟩⟩
    | @star rest hrest =>
      cases hrest with
      | nil =>
        constructor
        · intro _
          refine ⟨?_, Or.inl rfl⟩
          have hall : Glob star [star] (s ++ []) := .star s .nil
          rwa [List.append_nil] at hall
        · intro _
          exact .all s
      | @star rest _ => exact absurd ⟨[], rest.flatten, rfl⟩ hsingle
      | @literal next rest hne hliteral hend hrest =>
        have hrest' := hnext hrest (by rw [← hn, List.length_cons, List.length_cons]; omega)
          ⟨star :: next, [], by simp⟩
        rw [leftmost_skip_iff]
        constructor
        · intro ⟨a, b, hs, hfirst, h⟩
          subst hs
          exact (settled_skip_iff hne hliteral hend hrest hfirst).mpr ((hrest' b).mp h)
        · intro h
          obtain ⟨a', c, hs, hc⟩ := glob_star_iff.mp h.1
          obtain ⟨b', rfl, -⟩ := (glob_literal_iff hliteral).mp hc
          obtain ⟨a, b, rfl, hfirst⟩ := exists_first ⟨a', b', hs⟩
          exact ⟨a, b, rfl, hfirst, (hrest' b).mpr
            ((settled_skip_iff hne hliteral hend hrest hfirst).mp h)⟩

end Webserveau.Globs
