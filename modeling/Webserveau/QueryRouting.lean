import Webserveau.OriginTargets

/-!
What a query can do to the routing of its target.
Scheme, authority and the first slash are pruned before the target is cut at the question
mark, so they may be found in the query. A query that holds none of them where they are
looked for leaves the path as it stands.
-/
namespace Webserveau.QueryRouting

open ByteStrings OrderedMaps Formats Requests PathSegments PathConfinement OriginTargets

/-- A target with a path and a query. -/
def target (p q : Bytes) : Bytes := 47 :: p ++ 63 :: q

/-- Both targets get one code and the same path, root, filename and extension. -/
def RoutesAlike (r : Request) (p q₁ q₂ : Bytes) : Prop :=
  ∃ code r₁ r₂, Request.parseURI { r with uri := target p q₁ } = .ok (code, r₁) ∧
    Request.parseURI { r with uri := target p q₂ } = .ok (code, r₂) ∧
    route r₁.resHints.parsedUri = route r₂.resHints.parsedUri

/-- Nothing that is pruned is found in the query: no scheme, no at sign before its last
byte unless the path has one, and, where the path has one with no slash behind it, no
slash before its last byte. -/
def Plain (p q : Bytes) : Prop :=
  ¬ SCHEME <:+: q ∧ (64 ∈ p ∨ 64 ∉ q.dropLast) ∧
    (64 ∈ p → 47 ∈ (p.dropWhile (· ≠ 64)).tail ∨ 47 ∉ q.dropLast)

/-- The target is refused, or what it is routed by is a piece of its query. -/
def Misled (r : Request) (p q : Bytes) : Prop :=
  ∃ text : Option Bytes, (∀ t, text = some t → t <:+: q) ∧
    ∃ code r', Request.parseURI { r with uri := target p q } = .ok (code, r') ∧
      settled r.resHints.parsedUri text = .ok (code, route r'.resHints.parsedUri)

theorem routesAlike_iff (r : Request) (p q₁ q₂ : Bytes) :
    RoutesAlike r p q₁ q₂ ↔ settled r.resHints.parsedUri (taken (target p q₁)) =
      settled r.resHints.parsedUri (taken (target p q₂)) := by
  obtain ⟨code₁, r₁, hparse₁, hsettled₁⟩ :=
    parseURI_origin (r := { r with uri := target p q₁ }) rfl
  obtain ⟨code₂, r₂, hparse₂, hsettled₂⟩ :=
    parseURI_origin (r := { r with uri := target p q₂ }) rfl
  change settled r.resHints.parsedUri (taken (target p q₁)) = _ at hsettled₁
  change settled r.resHints.parsedUri (taken (target p q₂)) = _ at hsettled₂
  unfold RoutesAlike
  rw [hparse₁, hparse₂, hsettled₁, hsettled₂]
  simp only [Except.ok.injEq, Prod.mk.injEq]
  constructor
  · intro ⟨code, s₁, s₂, ⟨hcode₁, hs₁⟩, ⟨hcode₂, hs₂⟩, hroute⟩
    rw [hcode₁, hcode₂, hs₁, hs₂]
    exact ⟨rfl, hroute⟩
  · intro ⟨hcode, hroute⟩
    exact ⟨code₁, r₁, r₂, ⟨rfl, rfl⟩, ⟨hcode.symm, rfl⟩, hroute⟩

/-- A text without the mark occurs on one of its sides. -/
theorem infix_around {pat a b : Bytes} {c : UInt8} (hc : c ∉ pat) :
    pat <:+: a ++ c :: b ↔ pat <:+: a ∨ pat <:+: b := by
  have hfront : ∀ l, l <+: c :: b → (∀ x ∈ l, x ∈ pat) → l = [] := by
    intro l hl hsub
    cases l with
    | nil => rfl
    | cons d l =>
      obtain ⟨t, ht⟩ := hl
      obtain ⟨rfl, -⟩ := List.cons.inj ht
      exact absurd (hsub d (List.mem_cons_self ..)) hc
  constructor
  · intro h
    rcases List.infix_append_iff.mp h with h | h | ⟨l₁, l₂, hpat, hl₁, hl₂⟩
    · exact Or.inl h
    · rcases List.infix_cons_iff.mp h with h | h
      · rw [hfront pat h fun _ hx => hx]
        exact Or.inl (List.nil_infix)
      · exact Or.inr h
    · have hnil := hfront l₂ hl₂ fun x hx => by
        rw [hpat]
        exact List.mem_append_right l₁ hx
      rw [hpat, hnil, List.append_nil]
      exact Or.inl hl₁.isInfix
  · intro h
    rcases h with h | h
    · exact h.trans (List.prefix_append _ _).isInfix
    · exact h.trans ((List.suffix_cons c b).trans (List.suffix_append _ _)).isInfix

/-- A delimiter in front of the question mark is the one that counts. -/
theorem behind_front {c : UInt8} {a : Bytes} (h : c ∈ a) (q : Bytes) :
    behind c (a ++ 63 :: q) = (a.dropWhile (· ≠ c)).tail ++ 63 :: q := by
  obtain ⟨front, back, hs, hfront, -, -⟩ := split_first h
  have hdrop : a.dropWhile (· ≠ c) = c :: back := by
    rw [hs, List.dropWhile_append_of_pos (by
      intro x hx
      rw [decide_eq_true_eq]
      intro heq
      exact hfront (heq ▸ hx))]
    exact List.dropWhile_cons_of_neg (by simp)
  have hne : back ++ 63 :: q ≠ [] := by simp
  rw [hdrop, hs, List.append_assoc, List.cons_append, behind_around hfront, if_neg hne]
  rfl

/-- Without a delimiter where it would count, nothing is cut off. -/
theorem behind_none {c : UInt8} (hc : c ≠ 63) {a q : Bytes} (ha : c ∉ a) (hq : c ∉ q.dropLast) :
    behind c (a ++ 63 :: q) = a ++ 63 :: q := by
  have hfront : c ∉ (a ++ 63 :: q).dropLast := by
    rw [List.dropLast_append_of_ne_nil (List.cons_ne_nil _ _)]
    intro hmem
    rcases List.mem_append.mp hmem with hmem | hmem
    · exact ha hmem
    · cases q with
      | nil => cases hmem
      | cons d q =>
        rw [List.dropLast_cons_of_ne_nil (List.cons_ne_nil _ _)] at hmem
        rcases List.mem_cons.mp hmem with hmem | hmem
        · exact hc hmem
        · exact hq hmem
  unfold behind
  rw [if_neg hfront]

/-- The path text up to the question mark. -/
theorem takeWhile_target {a : Bytes} (ha : 63 ∉ a) (q : Bytes) :
    (a ++ 63 :: q).takeWhile (· ≠ 63) = a := by
  rw [List.takeWhile_append_of_pos (by
    intro x hx
    rw [decide_eq_true_eq]
    intro h
    exact ha (h ▸ hx))]
  show a ++ [] = a
  exact List.append_nil a

/-- What is taken for the path when the query is plain. -/
def ownPath (p : Bytes) : Bytes :=
  if 64 ∈ p then
    let p' := (p.dropWhile (· ≠ 64)).tail
    if 47 ∈ p' then (p'.dropWhile (· ≠ 47)).tail else p'
  else p

theorem taken_plain {p q : Bytes} (hp : 63 ∉ p) (hscheme : ¬ SCHEME <:+: 47 :: p)
    (h : Plain p q) : taken (target p q) = some (ownPath p) := by
  obtain ⟨hquery, hat, hslash⟩ := h
  have hnone : ¬ SCHEME <:+: target p q := by
    unfold target
    rw [infix_around (by decide)]
    exact not_or.mpr ⟨hscheme, hquery⟩
  have htail : ∀ {c : UInt8} {a : Bytes}, 63 ∉ a → 63 ∉ (a.dropWhile (· ≠ c)).tail :=
    fun ha hmem => ha ((List.dropWhile_sublist _).subset (List.mem_of_mem_tail hmem))
  unfold taken
  rw [if_neg hnone]
  unfold target ownPath
  by_cases hpath : 64 ∈ p
  · have hdrop : (47 :: p).dropWhile (· ≠ 64) = p.dropWhile (· ≠ 64) :=
      List.dropWhile_cons_of_pos (by decide)
    rw [behind_front (List.mem_cons_of_mem 47 hpath), hdrop, if_pos hpath]
    dsimp only
    split
    · rename_i hmem
      rw [behind_front hmem, takeWhile_target (htail (htail hp))]
    · rename_i hmem
      have hlast := (hslash hpath).resolve_left hmem
      rw [behind_none (by decide) hmem hlast, takeWhile_target (htail hp)]
  · have hfront : (64 : UInt8) ∉ 47 :: p := by
      intro hmem
      rcases List.mem_cons.mp hmem with hmem | hmem
      · exact absurd hmem (by decide)
      · exact hpath hmem
    rw [behind_none (by decide) hfront (hat.resolve_left hpath), if_neg hpath,
      behind_front (List.mem_cons_self ..)]
    have hdrop : ((47 :: p).dropWhile (· ≠ 47)).tail = p := by
      rw [List.dropWhile_cons_of_neg (by decide)]
      rfl
    rw [hdrop, takeWhile_target hp]

theorem taken_scheme {p : Bytes} (h : SCHEME <:+: 47 :: p) (q : Bytes) :
    taken (target p q) = none := by
  have hinfix : SCHEME <:+: target p q := (infix_around (by decide)).mpr (Or.inl h)
  unfold taken
  rw [if_pos hinfix]

/-- The text behind a delimiter that is found behind the question mark only. -/
theorem behind_query {c : UInt8} (hc : c ≠ 63) {a q : Bytes} (ha : c ∉ a) (hq : c ∈ q.dropLast) :
    behind c (a ++ 63 :: q) <:+ q := by
  have hmem : c ∈ (a ++ 63 :: q).dropLast := by
    rw [List.dropLast_append_of_ne_nil (List.cons_ne_nil _ _),
      List.dropLast_cons_of_ne_nil (List.ne_nil_of_mem (List.dropLast_subset q hq))]
    exact List.mem_append_right a (List.mem_cons_of_mem 63 hq)
  have hdrop : (a ++ 63 :: q).dropWhile (· ≠ c) = q.dropWhile (· ≠ c) := by
    rw [List.dropWhile_append_of_pos (by
      intro x hx
      rw [decide_eq_true_eq]
      intro heq
      exact ha (heq ▸ hx))]
    apply List.dropWhile_cons_of_pos
    rw [decide_eq_true_eq]
    exact hc.symm
  unfold behind
  rw [if_pos hmem, hdrop]
  exact (List.tail_suffix _).trans (List.dropWhile_suffix _)

theorem behind_suffix (c : UInt8) (s : Bytes) : behind c s <:+ s := by
  unfold behind
  split
  · exact (List.tail_suffix _).trans (List.dropWhile_suffix _)
  · exact List.suffix_refl s

/-- The path text of a query that is not plain is a piece of the query. -/
theorem taken_misled {p q text : Bytes} (h : ¬ Plain p q)
    (htaken : taken (target p q) = some text) : text <:+: q := by
  unfold taken at htaken
  by_cases hinfix : SCHEME <:+: target p q
  · rw [if_pos hinfix] at htaken
    cases htaken
  rw [if_neg hinfix, Option.some.injEq] at htaken
  have hquery : ¬ SCHEME <:+: q := fun hq => hinfix ((infix_around (by decide)).mpr (Or.inr hq))
  have hsuffix : behind 47 (behind 64 (target p q)) <:+ q := by
    by_cases hat : 64 ∈ p ∨ 64 ∉ q.dropLast
    · have hslash := Classical.not_imp.mp fun hslash => h ⟨hquery, hat, hslash⟩
      obtain ⟨hpath, hnone⟩ := hslash
      obtain ⟨hfront, hback⟩ := not_or.mp hnone
      have hdrop : (47 :: p).dropWhile (· ≠ 64) = p.dropWhile (· ≠ 64) :=
        List.dropWhile_cons_of_pos (by decide)
      unfold target
      rw [behind_front (List.mem_cons_of_mem 47 hpath), hdrop]
      exact behind_query (by decide) hfront (not_not.mp hback)
    · obtain ⟨hpath, hback⟩ := not_or.mp hat
      have hfront : (64 : UInt8) ∉ 47 :: p := by
        intro hmem
        rcases List.mem_cons.mp hmem with hmem | hmem
        · exact absurd hmem (by decide)
        · exact hpath hmem
      exact (behind_suffix 47 _).trans (behind_query (by decide) hfront (not_not.mp hback))
  rw [← htaken]
  exact (List.takeWhile_prefix _).isInfix.trans hsuffix.isInfix

/-- Two queries are routed alike where both targets are refused for a scheme and where both
queries are plain. Any other query decides on the routing itself. -/
theorem routes_alike (r : Request) {p : Bytes} (hp : 63 ∉ p) (q₁ q₂ : Bytes) :
    (SCHEME <:+: target p q₁ ∧ SCHEME <:+: target p q₂ ∨ Plain p q₁ ∧ Plain p q₂ →
      RoutesAlike r p q₁ q₂) ∧
    ∀ q, ¬ Plain p q → Misled r p q := by
  constructor
  · intro h
    rw [routesAlike_iff]
    by_cases hscheme : SCHEME <:+: 47 :: p
    · rw [taken_scheme hscheme, taken_scheme hscheme]
    · rcases h with ⟨hrefused₁, hrefused₂⟩ | ⟨hplain₁, hplain₂⟩
      · rw [taken, taken, if_pos hrefused₁, if_pos hrefused₂]
      · rw [taken_plain hp hscheme hplain₁, taken_plain hp hscheme hplain₂]
  · intro q hplain
    obtain ⟨code, r', hparse, hsettled⟩ :=
      parseURI_origin (r := { r with uri := target p q }) rfl
    refine ⟨taken (target p q), ?_, code, r', hparse, hsettled⟩
    intro text htext
    exact taken_misled hplain htext

theorem plain_queries_alike :
    RoutesAlike {} (ascii "a/b.py") (ascii "x=/1") (ascii "y:@") := by
  refine (routes_alike {} (by decide) _ _).1 (Or.inr ⟨?_, ?_⟩)
  · exact ⟨by decide, by decide, by decide⟩
  · exact ⟨by decide, by decide, by decide⟩

/-- The query `@b` names a path of its own. -/
theorem not_all_queries_alike :
    ¬ ∀ (r : Request) (p q₁ q₂ : Bytes), 63 ∉ p → (∀ c ∈ q₁ ++ q₂, c ≠ 32 ∧ c ≠ 9) →
      RoutesAlike r p q₁ q₂ := by
  intro h
  obtain ⟨code, r₁, r₂, hparse₁, hparse₂, hroute⟩ :=
    h {} (ascii "a") (ascii "@b") [] (by decide) (by decide +kernel)
  have hpath₁ : (Request.parseURI { uri := target (ascii "a") (ascii "@b") }).toOption.any
      (fun out => out.2.resHints.parsedUri.path = ascii "b") = true := by decide +kernel
  have hpath₂ : (Request.parseURI { uri := target (ascii "a") [] }).toOption.any
      (fun out => out.2.resHints.parsedUri.path = ascii "a") = true := by decide +kernel
  rw [hparse₁] at hpath₁
  rw [hparse₂] at hpath₂
  have hb : r₁.resHints.parsedUri.path = ascii "b" := of_decide_eq_true hpath₁
  have ha : r₂.resHints.parsedUri.path = ascii "a" := of_decide_eq_true hpath₂
  have hsame : r₁.resHints.parsedUri.path = r₂.resHints.parsedUri.path := congrArg Prod.fst hroute
  rw [ha, hb] at hsame
  exact absurd hsame (by decide)

end Webserveau.QueryRouting
