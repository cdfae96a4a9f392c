import Webserveau.Globs
import Webserveau.LocationMatches

/-!
Matching of paths against expressions.
The matcher reads a path from the left and never goes back, and it looks for a star behind
a star in the path itself. Both can make it miss a path that the expression stands for;
it never takes another path.
-/
namespace Webserveau.GlobMatching

open ByteStrings OrderedMaps Formats Requests LocationMatches Globs

/-- What is found is the first place. -/
theorem find_eq_some_iff {token s : Bytes} {n : ℕ} :
    find token s = some n ↔
      ∃ a b, s = a ++ token ++ b ∧ FirstBehind a token s ∧ a.length = n := by
  have hearly : ∀ {n}, find token s = some n → ∀ a b, s = a ++ token ++ b → n ≤ a.length := by
    intro n h a b hsplit
    obtain ⟨j, hj⟩ := Option.isSome_iff_exists.mp
      (find_isSome_iff.mpr (List.infix_append a token []))
    have hlen := find_lt_length hj
    have hsame := find_append_of_some hj b
    rw [List.append_nil] at hsame hlen
    rw [← hsplit, h, Option.some.injEq] at hsame
    rw [List.length_append] at hlen
    omega
  constructor
  · intro h
    obtain ⟨a, b, hsplit, hlen⟩ := find_eq_some h
    refine ⟨a, b, hsplit, ?_, hlen⟩
    intro a' b' hsplit'
    rw [hlen]
    exact hearly h a' b' hsplit'
  · intro ⟨a, b, hsplit, hfirst, hlen⟩
    have hinfix : token <:+: s := by
      rw [hsplit]
      exact List.infix_append a token b
    obtain ⟨j, hj⟩ := Option.isSome_iff_exists.mp (find_isSome_iff.mpr hinfix)
    obtain ⟨a', b', hsplit', hlen'⟩ := find_eq_some hj
    have hle := hfirst a' b' hsplit'
    have hge := hearly hj a b hsplit
    rw [hj, show j = n by omega]

theorem charAt_eq_zero_iff {uri : Bytes} (hnul : 0 ∉ uri) (i : ℕ) :
    charAt uri i = 0 ↔ uri.drop i = [] := by
  unfold charAt
  rw [List.drop_eq_nil_iff]
  constructor
  · intro h
    by_contra hlt
    rw [List.getD_eq_getElem?_getD, List.getElem?_eq_getElem (by omega), Option.getD_some] at h
    exact hnul (h ▸ List.getElem_mem _)
  · intro h
    rw [List.getD_eq_getElem?_getD, List.getElem?_eq_none h, Option.getD_none]

/-- Where nothing is left of the path, only a last star matches. -/
theorem leftmost_end_iff {token : Bytes} {rest : List Bytes}
    (hne : ∀ t ∈ token :: rest, t ≠ []) :
    Leftmost 42 (token :: rest) [] ↔ token = [42] ∧ rest = [] := by
  constructor
  · intro h
    by_cases hstar : token = [42]
    · subst hstar
      refine ⟨rfl, ?_⟩
      cases rest with
      | nil => rfl
      | cons next rest =>
        obtain ⟨a, b, hs, -⟩ := leftmost_skip_iff.mp h
        have hnil := List.append_eq_nil_iff.mp (List.append_eq_nil_iff.mp hs.symm).1
        exact absurd hnil.2 (hne next (by simp))
    · obtain ⟨b, hs, -⟩ := (leftmost_text_iff hstar).mp h
      exact absurd (List.append_eq_nil_iff.mp hs.symm).1 (hne token (List.mem_cons_self ..))
  · intro ⟨htoken, hrest⟩
    subst htoken hrest
    exact .all []

/-- Behind a star, the reading goes on after the found place. -/
theorem leftmost_found_iff {next s : Bytes} {rest : List Bytes} {offset : ℕ}
    (h : find next s = some offset) :
    Leftmost 42 (ascii "*" :: next :: rest) s ↔
      Leftmost 42 rest (s.drop (offset + next.length)) := by
  have hdrop : ∀ a b, s = a ++ next ++ b → FirstBehind a next s →
      s.drop (offset + next.length) = b := by
    intro a b hs hfirst
    have hsame := find_eq_some_iff.mpr ⟨a, b, hs, hfirst, rfl⟩
    rw [h, Option.some.injEq] at hsame
    rw [hs, hsame, ← List.length_append]
    exact List.drop_left
  show Leftmost 42 ([42] :: next :: rest) s ↔ _
  rw [leftmost_skip_iff]
  constructor
  · intro ⟨a, b, hs, hfirst, hrest⟩
    rwa [hdrop a b hs hfirst]
  · intro hrest
    obtain ⟨a, b, hs, hfirst, -⟩ := find_eq_some_iff.mp h
    rw [hdrop a b hs hfirst] at hrest
    exact ⟨a, b, hs, hfirst, hrest⟩

/-- A literal is read where it stands. -/
theorem leftmost_literal_iff {token s : Bytes} {rest : List Bytes} (hne : token ≠ [42]) :
    Leftmost 42 (token :: rest) s ↔
      s.take token.length = token ∧ Leftmost 42 rest (s.drop token.length) := by
  rw [leftmost_text_iff hne]
  constructor
  · intro ⟨b, hs, hrest⟩
    subst hs
    rw [List.take_left, List.drop_left]
    exact ⟨rfl, hrest⟩
  · intro ⟨htoken, hrest⟩
    refine ⟨s.drop token.length, ?_, hrest⟩
    calc
      s = s.take token.length ++ s.drop token.length := (List.take_append_drop _ _).symm
      _ = token ++ s.drop token.length := by rw [htoken]

/-- The matcher reads the rest of the path from the left. -/
theorem matchFrom_iff {uri : Bytes} (hnul : 0 ∉ uri) (tokens : List Bytes) (i : ℕ)
    (hne : tokens ≠ []) (htokens : ∀ token ∈ tokens, token ≠ []) :
    matchFrom uri tokens i = true ↔ Leftmost 42 tokens (uri.drop i) := by
  fun_induction matchFrom uri tokens i with
  | case1 => exact absurd rfl hne
  | case2 token rest i hend =>
    rw [(charAt_eq_zero_iff hnul i).mp hend, leftmost_end_iff htokens, Bool.and_eq_true,
      decide_eq_true_eq, decide_eq_true_eq]
    rfl
  | case3 i hend => exact iff_of_true rfl (.all _)
  | case4 i hend next rest hnone =>
    refine iff_of_false Bool.false_ne_true ?_
    intro h
    obtain ⟨a, b, hs, -⟩ := leftmost_skip_iff.mp h
    refine find_eq_none_iff.mp hnone ?_
    rw [hs]
    exact List.infix_append a next b
  | case5 i hend next offset hsome j =>
    rw [leftmost_found_iff hsome, List.drop_drop, ← Nat.add_assoc, leftmost_nil_iff,
      decide_eq_true_eq]
    exact charAt_eq_zero_iff hnul _
  | case6 i hend next rest offset hsome j hrest ih =>
    have hlater : ∀ token ∈ rest, token ≠ [] := fun token h => htokens token (by simp [h])
    rw [leftmost_found_iff hsome, List.drop_drop, ← Nat.add_assoc]
    exact ih hrest hlater
  | case7 token rest i hend hliteral hdiffers =>
    rw [leftmost_literal_iff hliteral]
    exact iff_of_false Bool.false_ne_true fun h => hdiffers h.1
  | case8 token i hend hliteral hsame j =>
    rw [leftmost_literal_iff hliteral, List.drop_drop, leftmost_nil_iff, decide_eq_true_eq,
      charAt_eq_zero_iff hnul]
    constructor
    · intro h
      exact ⟨not_not.mp hsame, h⟩
    · intro h
      exact h.2
  | case9 token rest i hend hliteral hsame j hrest ih =>
    have hlater : ∀ token ∈ rest, token ≠ [] := fun token h =>
      htokens token (List.mem_cons_of_mem _ h)
    rw [leftmost_literal_iff hliteral, List.drop_drop, ih hrest hlater]
    constructor
    · intro h
      exact ⟨not_not.mp hsame, h⟩
    · intro h
      exact h.2

/-- Behind a literal the expression ends or goes on with a star. -/
theorem tokens_after_literal (fuel : ℕ) (s : Bytes) (hfuel : s.length < fuel) (hnul : 0 ∉ s)
    (hhead : ∀ c ∈ s.head?, ¬ (c ≠ 0 ∧ c ≠ 42)) :
    tokens fuel s = [] ∨ ∃ rest, tokens fuel s = [42] :: rest := by
  cases fuel with
  | zero => omega
  | succ fuel =>
    cases s with
    | nil => exact Or.inl rfl
    | cons c s =>
      have hc : c ≠ 0 := fun h => hnul (h ▸ List.mem_cons_self ..)
      have hstar : c = 42 := by
        by_contra hne
        exact hhead c rfl ⟨hc, hne⟩
      refine Or.inr ⟨tokens fuel s, ?_⟩
      rw [tokens, if_neg (by exact hc), if_pos (by exact hstar)]
      rfl

/-- The tokens of an expression are stars and longest literals. -/
theorem tokens_tokens (fuel : ℕ) (expression : Bytes) (hfuel : expression.length < fuel)
    (hnul : 0 ∉ expression) : Tokens 42 (tokens fuel expression) := by
  induction fuel generalizing expression with
  | zero => omega
  | succ fuel ih =>
    cases expression with
    | nil => exact .nil
    | cons c s =>
      have hc : charAt (c :: s) 0 ≠ 0 := fun h => hnul (h ▸ List.mem_cons_self ..)
      have hlen : s.length + 1 < fuel + 1 := hfuel
      unfold tokens
      rw [if_neg hc]
      by_cases hstar : charAt (c :: s) 0 = 42
      · rw [if_pos hstar]
        exact .star (ih s (by omega) fun h => hnul (List.mem_cons_of_mem _ h))
      · rw [if_neg hstar]
        dsimp only
        rw [drop_length_takeWhile]
        have hliteral : c ≠ 0 ∧ c ≠ 42 := ⟨hc, hstar⟩
        have hshort : ((c :: s).dropWhile fun c => decide (c ≠ 0 ∧ c ≠ 42)).length ≤ s.length := by
          rw [List.dropWhile_cons_of_pos (by simpa using hliteral)]
          exact (List.dropWhile_sublist _).length_le
        have hnul' : 0 ∉ (c :: s).dropWhile fun c => decide (c ≠ 0 ∧ c ≠ 42) :=
          fun h => hnul ((List.dropWhile_sublist _).subset h)
        refine .literal ?_ ?_ ?_ (ih _ (by omega) hnul')
        · rw [List.takeWhile_cons_of_pos (by simpa using hliteral)]
          exact List.cons_ne_nil _ _
        · intro hmem
          have hbyte := List.mem_takeWhile_imp hmem
          simp at hbyte
        · refine tokens_after_literal fuel _ (by omega) hnul' ?_
          intro d hd
          have hstop := List.head?_dropWhile_not (fun c => decide (c ≠ 0 ∧ c ≠ 42)) (c :: s)
          rw [hd] at hstop
          exact of_decide_eq_false hstop

theorem tokenize_tokens {expression : Bytes} (hnul : 0 ∉ expression) :
    Tokens 42 (tokenize expression) := tokens_tokens _ _ (Nat.lt_succ_self _) hnul

theorem isMatch_iff {uri expression : Bytes} (hne : expression ≠ []) (huri : 0 ∉ uri)
    (hexpression : 0 ∉ expression) :
    isMatch uri (tokenize expression) = true ↔ Leftmost 42 (tokenize expression) uri := by
  obtain ⟨hflat, htokens⟩ := tokenize_flatten hexpression
  have hsome : tokenize expression ≠ [] := by
    intro hnil
    rw [hnil] at hflat
    exact hne hflat.symm
  unfold isMatch
  rw [if_neg hsome, matchFrom_iff huri _ 0 hsome htokens, List.drop_zero]

/-- Where no star follows a star, the expression ends in a star or stands for no shorter
prefix of the path. Where one does, the path can be read from the left all the same. -/
def Readable (expression uri : Bytes) : Prop :=
  if [42, 42] <:+: expression then Leftmost 42 (tokenize expression) uri
  else Settled 42 expression uri

/-- The matcher agrees with the meaning of the expression exactly where the expression does
not stand for the path or the path is readable. -/
theorem isMatch_glob_iff {uri expression : Bytes} (hne : expression ≠ []) (huri : 0 ∉ uri)
    (hexpression : 0 ∉ expression) :
    (isMatch uri (tokenize expression) = true ↔ Glob 42 expression uri) ↔
      (Glob 42 expression uri → Readable expression uri) := by
  have htokens := tokenize_tokens hexpression
  have hflat := (tokenize_flatten hexpression).1
  have hsound : Leftmost 42 (tokenize expression) uri → Glob 42 expression uri := by
    intro h
    have hglob := h.glob htokens
    rwa [hflat] at hglob
  rw [isMatch_iff hne huri hexpression]
  unfold Readable
  split
  · constructor
    · intro h
      exact h.mpr
    · intro h
      exact ⟨hsound, h⟩
  · rename_i hsingle
    have hread := leftmost_iff htokens (by rwa [hflat]) uri
    rw [hflat] at hread
    constructor
    · intro h hglob
      exact (hread.mp (h.mpr hglob)).2
    · intro h
      refine ⟨hsound, ?_⟩
      intro hglob
      exact hread.mpr ⟨hglob, h hglob⟩

theorem script_path_matched :
    isMatch (ascii "a.py/b") (tokenize (ascii "*.py*")) = true ↔
      Glob 42 (ascii "*.py*") (ascii "a.py/b") := by
  refine (isMatch_glob_iff (by decide) (by decide) (by decide)).mpr ?_
  intro _
  have hsingle : ¬ [42, 42] <:+: ascii "*.py*" := by decide
  unfold Readable
  rw [if_neg hsingle]
  exact Or.inl (by decide)

/-- The first extension is taken for the last one. -/
theorem not_all_paths_matched :
    ¬ ∀ uri expression : Bytes, expression ≠ [] → 0 ∉ uri → 0 ∉ expression →
      (isMatch uri (tokenize expression) = true ↔ Glob 42 expression uri) := by
  intro h
  have hsame := h (ascii "a.py.py") (ascii "*.py") (by decide) (by decide) (by decide)
  have hliteral : Glob 42 (ascii ".py") (ascii ".py") :=
    .char (by decide) (.char (by decide) (.char (by decide) .nil))
  have hglob : Glob 42 (ascii "*.py") (ascii "a.py" ++ ascii ".py") := .star _ hliteral
  have hmatch := hsame.mpr hglob
  have hmissed : isMatch (ascii "a.py.py") (tokenize (ascii "*.py")) = false := by decide
  rw [hmissed] at hmatch
  cases hmatch

end Webserveau.GlobMatching
