import Mathlib
import Webserveau.Routing
import Webserveau.Selections

/-!
The choice of a location.
Expressions that match a path are compared from their last tokens on, in the part of the
path that the tokens before have left. A literal of a matching expression is always found
there, so the comparison is a strict total order, as long as the positions fit an `int`.
-/
namespace Webserveau.LocationMatches

open ByteStrings OrderedMaps Formats Requests Selections

/-- The literals of the tokens follow one another in the text. -/
def Placed : List Bytes → Bytes → Prop
  | [], _ => True
  | token :: rest, s =>
    if token = ascii "*" then Placed rest s
    else ∃ a b, s = a ++ token ++ b ∧ Placed rest b

theorem placed_around (tokens : List Bytes) {s : Bytes} (h : Placed tokens s) (a b : Bytes) :
    Placed tokens (a ++ s ++ b) := by
  induction tokens generalizing s a with
  | nil => trivial
  | cons token rest ih =>
    unfold Placed at h ⊢
    split
    · rename_i hstar
      rw [if_pos hstar] at h
      exact ih h a
    · rename_i hliteral
      rw [if_neg hliteral] at h
      obtain ⟨front, back, rfl, hback⟩ := h
      refine ⟨a ++ front, back ++ b, by simp [List.append_assoc], ?_⟩
      have hnext := ih hback []
      rwa [List.nil_append] at hnext

/-- The last token of a placed list lies behind all the others. -/
theorem placed_snoc (tokens : List Bytes) (token s : Bytes) :
    Placed (tokens ++ [token]) s ↔
      if token = ascii "*" then Placed tokens s
      else ∃ a b, s = a ++ token ++ b ∧ Placed tokens a := by
  induction tokens generalizing s with
  | nil =>
    rw [List.nil_append]
    simp only [Placed]
  | cons first rest ih =>
    rw [List.cons_append]
    simp only [Placed]
    by_cases hfirst : first = ascii "*"
    · rw [if_pos hfirst, ih]
      simp only [if_pos hfirst]
    · simp only [if_neg hfirst, ih]
      by_cases htoken : token = ascii "*"
      · simp only [if_pos htoken]
      · simp only [if_neg htoken]
        constructor
        · intro ⟨a, b, hs, c, d, hb, hrest⟩
          exact ⟨a ++ first ++ c, d, by rw [hs, hb]; simp [List.append_assoc], a, c, rfl, hrest⟩
        · intro ⟨a, b, hs, c, d, ha, hrest⟩
          exact ⟨c, d ++ token ++ b, by rw [hs, ha]; simp [List.append_assoc], d, b, rfl, hrest⟩

/-- Where a literal is found, the text around it. -/
theorem drop_find {uri next : Bytes} {i offset : ℕ} (h : find next (uri.drop i) = some offset) :
    ∃ a, uri.drop i = a ++ next ++ uri.drop (i + offset + next.length) := by
  obtain ⟨a, b, hsplit, hlen⟩ := find_eq_some h
  refine ⟨a, ?_⟩
  have hrest : uri.drop (i + offset + next.length) = b := by
    rw [Nat.add_assoc, ← List.drop_drop, hsplit, ← hlen]
    simp
  rw [hrest, hsplit]

/-- A token and what follows it, behind some text. -/
theorem placed_cons {token s a b : Bytes} {rest : List Bytes} (h : Placed rest b)
    (hs : s = a ++ token ++ b) : Placed (token :: rest) s := by
  unfold Placed
  split
  · rw [hs]
    have hnext := placed_around rest h (a ++ token) []
    rwa [List.append_nil] at hnext
  · exact ⟨a, b, hs, h⟩

theorem drop_token {uri token : Bytes} {i : ℕ} (h : (uri.drop i).take token.length = token) :
    uri.drop i = [] ++ token ++ uri.drop (i + token.length) := by
  rw [List.nil_append]
  calc
    uri.drop i = (uri.drop i).take token.length ++ (uri.drop i).drop token.length :=
      (List.take_append_drop _ _).symm
    _ = token ++ uri.drop (i + token.length) := by rw [h, List.drop_drop]

/-- What is matched from a position on is placed behind it. -/
theorem matchFrom_placed (uri : Bytes) (tokens : List Bytes) (i : ℕ)
    (h : matchFrom uri tokens i = true) : Placed tokens (uri.drop i) := by
  fun_induction matchFrom uri tokens i with
  | case1 => trivial
  | case2 token rest i hend =>
    rw [Bool.and_eq_true, decide_eq_true_eq, decide_eq_true_eq] at h
    obtain ⟨rfl, rfl⟩ := h
    simp [Placed]
  | case3 i hend => simp [Placed]
  | case4 i hend next rest hnone => cases h
  | case5 i hend next offset hsome =>
    obtain ⟨a, hsplit⟩ := drop_find hsome
    have hnext : Placed [next] (uri.drop i) := placed_cons (b := _) trivial hsplit
    simpa [Placed] using hnext
  | case6 i hend next rest offset hsome j hrest ih =>
    obtain ⟨a, hsplit⟩ := drop_find hsome
    have hnext : Placed (next :: rest) (uri.drop i) := placed_cons (ih h) hsplit
    unfold Placed
    rwa [if_pos rfl]
  | case7 token rest i hend hliteral hdiffers => cases h
  | case8 token i hend hliteral hsame =>
    exact placed_cons (b := _) trivial (drop_token (not_not.mp hsame))
  | case9 token rest i hend hliteral hsame j hrest ih =>
    exact placed_cons (ih h) (drop_token (not_not.mp hsame))

/-- A token is a star or a literal that is found in the text. -/
def Findable (s token : Bytes) : Prop :=
  token = ascii "*" ∨ token ≠ [] ∧ ∃ i, rfind token s = some i

/-- The text that is left in front of a token. -/
def left (s token : Bytes) : Bytes :=
  if token = ascii "*" then s else s.take ((rfind token s).getD 0)

/-- Tokens are ranked by the end of their last occurrence, then by their length. -/
def rank (s token : Bytes) : ℕ ×ₗ ℕ :=
  if token = ascii "*" then toLex (0, 0)
  else toLex ((rfind token s).getD 0 + token.length, token.length)

theorem rank_injective (s a b : Bytes) (ha : Findable s a) (hb : Findable s b)
    (h : rank s a = rank s b) : a = b := by
  unfold rank at h
  by_cases hstar : a = ascii "*"
  · by_cases hstar' : b = ascii "*"
    · rw [hstar, hstar']
    · obtain ⟨hne, -⟩ := hb.resolve_left hstar'
      rw [if_pos hstar, if_neg hstar'] at h
      have hlen : 0 = b.length := congrArg (fun x => (ofLex x).2) h
      exact absurd (List.length_eq_zero_iff.mp hlen.symm) hne
  · obtain ⟨hne, i, hi⟩ := ha.resolve_left hstar
    by_cases hstar' : b = ascii "*"
    · rw [if_neg hstar, if_pos hstar'] at h
      have hlen : a.length = 0 := congrArg (fun x => (ofLex x).2) h
      exact absurd (List.length_eq_zero_iff.mp hlen) hne
    · obtain ⟨-, j, hj⟩ := hb.resolve_left hstar'
      rw [if_neg hstar, if_neg hstar', hi, hj] at h
      have hend : i + a.length = j + b.length := congrArg (fun x => (ofLex x).1) h
      have hlen : a.length = b.length := congrArg (fun x => (ofLex x).2) h
      obtain ⟨front, back, hsplit, hfront⟩ := rfind_eq_some hi
      obtain ⟨front', back', hsplit', hfront'⟩ := rfind_eq_some hj
      have hsame : front ++ a ++ back = front' ++ b ++ back' := hsplit.symm.trans hsplit'
      rw [List.append_assoc, List.append_assoc] at hsame
      have htail := (List.append_inj hsame (by omega)).2
      exact (List.append_inj htail hlen).1

/-- Placed tokens are legal when they are read from the last one. -/
theorem placed_legal (tokens : List Bytes) (hne : ∀ token ∈ tokens, token ≠ []) {s : Bytes}
    (h : Placed tokens s) : Legal left Findable s tokens.reverse := by
  induction tokens using List.reverseRecOn generalizing s with
  | nil => trivial
  | append_singleton tokens token ih =>
    have hfront : ∀ token ∈ tokens, token ≠ [] :=
      fun t ht => hne t (List.mem_append_left _ ht)
    rw [placed_snoc] at h
    rw [List.reverse_append]
    show Findable s token ∧ Legal left Findable (left s token) tokens.reverse
    unfold left
    split at h
    · rename_i hstar
      rw [if_pos hstar]
      exact ⟨Or.inl hstar, ih hfront h⟩
    · rename_i hliteral
      rw [if_neg hliteral]
      obtain ⟨a, b, rfl, hplaced⟩ := h
      obtain ⟨i, hi, hle⟩ := rfind_append a token b
      refine ⟨Or.inr ⟨hne token (List.mem_append_right _ (List.mem_singleton.mpr rfl)), i, hi⟩, ?_⟩
      rw [hi]
      show Legal left Findable ((a ++ token ++ b).take i) tokens.reverse
      have hpre : a <+: (a ++ token ++ b).take i := by
        rw [List.append_assoc, List.prefix_take_iff]
        exact ⟨List.prefix_append _ _, hle⟩
      obtain ⟨c, hc⟩ := hpre
      rw [← hc]
      have hnext := placed_around tokens hplaced [] c
      exact ih hfront hnext

theorem rfind_bound {s token : Bytes} {i : ℕ} (h : rfind token s = some i) :
    i + token.length ≤ s.length := by
  obtain ⟨a, b, rfl, rfl⟩ := rfind_eq_some h
  simp only [List.length_append]
  omega

theorem rfindInt_eq {s token : Bytes} (hsize : (s.length : ℤ) ≤ INT32_MAX) {i : ℕ}
    (h : rfind token s = some i) : rfindInt token s = i := by
  have hbound := rfind_bound h
  unfold INT32_MAX at hsize
  rw [rfindInt, h, Option.elim_some]
  exact toInt_of_range (by omega) (by omega)

/-- The comparison of the code is that of words, while the positions fit an `int`. -/
theorem betterFrom_eq (s : Bytes) (hsize : (s.length : ℤ) ≤ INT32_MAX) (u v : List Bytes)
    (hu : Legal left Findable s u) (hv : Legal left Findable s v) :
    betterFrom s u v = beats rank left s u v := by
  induction u generalizing s v with
  | nil => rfl
  | cons a u ih =>
    cases v with
    | nil => rfl
    | cons b v =>
      unfold betterFrom beats
      by_cases hstar : a = ascii "*"
      · by_cases hstar' : b = ascii "*"
        · have hsame : rank s a = rank s b := by rw [hstar, hstar']
          have hleft : left s a = s := by rw [left, if_pos hstar]
          have hleft' : left s b = s := by rw [left, if_pos hstar']
          have hnext := ih s hsize v (by rw [← hleft]; exact hu.2) (by rw [← hleft']; exact hv.2)
          rw [if_pos hstar, if_pos hstar', hsame, if_neg (lt_irrefl _), if_neg (lt_irrefl _), hleft]
          exact hnext
        · obtain ⟨hne, -⟩ := hv.1.resolve_left hstar'
          have hlt : rank s a < rank s b := by
            rw [rank, rank, if_pos hstar, if_neg hstar', Prod.Lex.toLex_lt_toLex]
            have hlen := List.length_pos_iff.mpr hne
            left
            show 0 < _ + _
            omega
          rw [if_pos hstar, if_neg hstar', if_neg (lt_asymm hlt), if_pos hlt]
      · obtain ⟨hne, i, hi⟩ := hu.1.resolve_left hstar
        have hlen := List.length_pos_iff.mpr hne
        by_cases hstar' : b = ascii "*"
        · have hlt : rank s b < rank s a := by
            rw [rank, rank, if_pos hstar', if_neg hstar, Prod.Lex.toLex_lt_toLex]
            left
            show 0 < _ + _
            omega
          rw [if_neg hstar, if_pos hstar', if_pos hlt]
        · obtain ⟨-, j, hj⟩ := hv.1.resolve_left hstar'
          have hbound := rfind_bound hi
          have hbound' := rfind_bound hj
          have hrank : rank s a = toLex (i + a.length, a.length) := by
            rw [rank, if_neg hstar, hi]
            rfl
          have hrank' : rank s b = toLex (j + b.length, b.length) := by
            rw [rank, if_neg hstar', hj]
            rfl
          have hdiff : toInt ((rfindInt a s + a.length) - (rfindInt b s + b.length)) =
              (i + a.length : ℤ) - (j + b.length) := by
            rw [rfindInt_eq hsize hi, rfindInt_eq hsize hj]
            unfold INT32_MAX at hsize
            exact toInt_of_range (by omega) (by omega)
          rw [if_neg hstar, if_neg hstar']
          dsimp only
          rw [hdiff]
          by_cases hover : rank s b < rank s a
          · rw [if_pos hover]
            rw [hrank, hrank', Prod.Lex.toLex_lt_toLex] at hover
            dsimp only at hover
            split
            · rfl
            · split
              · omega
              · split
                · rfl
                · omega
          · rw [if_neg hover]
            by_cases hunder : rank s a < rank s b
            · rw [if_pos hunder]
              rw [hrank, hrank', Prod.Lex.toLex_lt_toLex] at hunder
              dsimp only at hunder
              split
              · omega
              · split
                · rfl
                · split
                  · omega
                  · rw [if_pos (by omega)]
            · have hsame := rank_injective s a b hu.1 hv.1
                (le_antisymm (not_lt.mp hover) (not_lt.mp hunder))
              subst hsame
              obtain rfl : i = j := by
                rw [hi, Option.some.injEq] at hj
                exact hj
              have hleft : left s a = s.take i := by
                rw [left, if_neg hstar, hi]
                rfl
              rw [if_neg hunder, if_neg (by omega), if_neg (by omega), if_neg (by omega),
                if_neg (by omega), rfindInt_eq hsize hi, if_neg (by omega), Int.toNat_natCast]
              rw [← hleft]
              refine ih _ ?_ v hu.2 hv.2
              rw [hleft, List.length_take]
              omega

/-- The tokens make up the expression, and none of them is empty. -/
theorem tokens_flatten (fuel : ℕ) (expression : Bytes) (hfuel : expression.length < fuel)
    (hnul : 0 ∉ expression) :
    (tokens fuel expression).flatten = expression ∧ ∀ token ∈ tokens fuel expression,
      token ≠ [] := by
  induction fuel generalizing expression with
  | zero => omega
  | succ fuel ih =>
    cases expression with
    | nil => simp [tokens, charAt]
    | cons c s =>
      have hc : charAt (c :: s) 0 ≠ 0 := fun h => hnul (h ▸ List.mem_cons_self ..)
      have hlen : s.length + 1 < fuel + 1 := hfuel
      unfold tokens
      rw [if_neg hc]
      by_cases hstar : charAt (c :: s) 0 = 42
      · have hbyte : c = 42 := hstar
        obtain ⟨hflat, hne⟩ := ih s (by omega) fun h => hnul (List.mem_cons_of_mem _ h)
        rw [if_pos hstar, List.tail_cons, List.flatten_cons, hflat, hbyte]
        refine ⟨rfl, ?_⟩
        intro token htoken
        rcases List.mem_cons.mp htoken with rfl | htoken
        · exact List.cons_ne_nil _ _
        · exact hne token htoken
      · have hliteral : c ≠ 0 ∧ c ≠ 42 := ⟨hc, hstar⟩
        rw [if_neg hstar]
        dsimp only
        rw [drop_length_takeWhile]
        have hshort : ((c :: s).dropWhile fun c => decide (c ≠ 0 ∧ c ≠ 42)).length ≤ s.length := by
          rw [List.dropWhile_cons_of_pos (by simpa using hliteral)]
          exact (List.dropWhile_sublist _).length_le
        obtain ⟨hflat, hne⟩ := ih ((c :: s).dropWhile fun c => decide (c ≠ 0 ∧ c ≠ 42))
          (by omega) fun h => hnul ((List.dropWhile_sublist _).subset h)
        rw [List.flatten_cons, hflat, List.takeWhile_append_dropWhile]
        refine ⟨rfl, ?_⟩
        intro token htoken
        rcases List.mem_cons.mp htoken with rfl | htoken
        · rw [List.takeWhile_cons_of_pos (by simpa using hliteral)]
          exact List.cons_ne_nil _ _
        · exact hne token htoken

theorem tokenize_flatten {expression : Bytes} (hnul : 0 ∉ expression) :
    (tokenize expression).flatten = expression ∧ ∀ token ∈ tokenize expression, token ≠ [] :=
  tokens_flatten _ _ (Nat.lt_succ_self _) hnul

theorem isUriMatch_eq (uri expression : Bytes) (previousMatch : Option Bytes) :
    isUriMatch uri expression previousMatch = (isMatch uri (tokenize expression) &&
      previousMatch.all fun previous =>
        betterFrom uri (tokenize expression).reverse (tokenize previous).reverse) := by
  unfold isUriMatch
  cases isMatch uri (tokenize expression) with
  | false => rfl
  | true =>
    cases previousMatch with
    | none => rfl
    | some previous => rfl

/-- An expression that matches is legal when it is read from its last token. -/
theorem isMatch_legal {uri expression : Bytes} (hnul : 0 ∉ expression)
    (h : isMatch uri (tokenize expression) = true) :
    Legal left Findable uri (tokenize expression).reverse := by
  refine placed_legal _ (tokenize_flatten hnul).2 ?_
  unfold isMatch at h
  split at h
  · cases h
  · exact matchFrom_placed uri _ 0 h

/-- An expression that matches a path and has no NUL. -/
@[ext] structure Matching (uri : Bytes) where
  expression : Bytes
  plain : 0 ∉ expression
  fits : isMatch uri (tokenize expression) = true

namespace Matching

variable {uri : Bytes}

def word (k : Matching uri) : List Bytes := (tokenize k.expression).reverse

theorem legal (k : Matching uri) : Legal left Findable uri k.word := isMatch_legal k.plain k.fits

theorem word_injective {j k : Matching uri} (h : j.word = k.word) : j = k := by
  have htokens : tokenize j.expression = tokenize k.expression := List.reverse_injective h
  ext1
  calc
    j.expression = (tokenize j.expression).flatten := (tokenize_flatten j.plain).1.symm
    _ = (tokenize k.expression).flatten := by rw [htokens]
    _ = k.expression := (tokenize_flatten k.plain).1

/-- The first expression is a better match than the second. -/
def BetterThan (j k : Matching uri) : Prop := isUriMatch uri j.expression (some k.expression) = true

theorem betterThan_iff (hsize : (uri.length : ℤ) ≤ INT32_MAX) (j k : Matching uri) :
    BetterThan j k ↔ beats rank left uri j.word k.word = true := by
  have hcompare : isUriMatch uri j.expression (some k.expression) =
      betterFrom uri j.word k.word := by
    rw [isUriMatch_eq, j.fits, Bool.true_and, Option.all_some]
    rfl
  rw [BetterThan, hcompare, betterFrom_eq uri hsize _ _ j.legal k.legal]

theorem betterThan_order (hsize : (uri.length : ℤ) ≤ INT32_MAX) :
    IsStrictTotalOrder (Matching uri) BetterThan where
  irrefl := by
    intro k
    rw [betterThan_iff hsize, beats_irrefl]
    decide
  trans := by
    intro i j k hij hjk
    rw [betterThan_iff hsize] at *
    exact beats_trans rank_injective i.legal j.legal k.legal hij hjk
  trichotomous := by
    intro j k hjk hkj
    rw [betterThan_iff hsize] at *
    by_contra hne
    rcases beats_total rank_injective j.legal k.legal (fun h => hne (word_injective h)) with h | h
    · exact hjk h
    · exact hkj h

end Matching

/-- The key under which the object of a path is found: better than every other that matches. -/
def BestKey {α : Type} (map : OrderedMap Bytes α byteLess) (uri k : Bytes) : Prop :=
  k ∈ map.entries.map Prod.fst ∧ isMatch uri (tokenize k) = true ∧
    ∀ k' ∈ map.entries.map Prod.fst, isMatch uri (tokenize k') = true → k' ≠ k →
      isUriMatch uri k (some k') = true ∧ isUriMatch uri k' (some k) = false

/-- The object chosen for a path when the entries are met in a given order. -/
def scan {α : Type} (uri : Bytes) (entries : List (Bytes × α)) : Option α :=
  (entries.foldl (fun best entry =>
    if isUriMatch uri entry.1 (best.map Prod.fst) then some entry else best) none).map Prod.snd

section Scan

variable {α : Type}

def fits (uri : Bytes) (entry : Bytes × α) : Bool := isMatch uri (tokenize entry.1)

def better (uri : Bytes) (x y : Bytes × α) : Bool :=
  betterFrom uri (tokenize x.1).reverse (tokenize y.1).reverse

theorem scan_eq (uri : Bytes) (entries : List (Bytes × α)) :
    scan uri entries = (entries.foldl (keep (fits uri) (better uri)) none).map Prod.snd := by
  unfold scan
  congr 2
  funext best entry
  unfold keep fits better
  rw [isUriMatch_eq]
  cases best with
  | none => rfl
  | some b => rfl

/-- The keys of a map tell its entries apart. -/
theorem entries_distinct (map : OrderedMap Bytes α byteLess) :
    (map.entries.map Prod.fst).Nodup := by
  rw [List.Nodup, List.pairwise_map]
  refine map.sorted.imp ?_
  intro d e hless heq
  rw [heq] at hless
  have hself : byteLess e.1 e.1 = false := not_less_self e.1
  rw [hself] at hless
  cases hless

theorem entry_of_key {map : OrderedMap Bytes α byteLess} {x y : Bytes × α}
    (hx : x ∈ map.entries) (hy : y ∈ map.entries) (h : x.1 = y.1) : x = y :=
  List.inj_on_of_nodup_map (entries_distinct map) hx hy h

/-- The comparison ranks the entries of a map. -/
theorem entries_ranked (map : OrderedMap Bytes α byteLess) {uri : Bytes}
    (hsize : (uri.length : ℤ) ≤ INT32_MAX) (hnul : ∀ entry ∈ map.entries, 0 ∉ entry.1) :
    Ranks (fits uri) (better uri) map.entries := by
  have hbeats : ∀ x ∈ map.entries, ∀ y ∈ map.entries, fits uri x = true → fits uri y = true →
      better uri x y = beats rank left uri (tokenize x.1).reverse (tokenize y.1).reverse := by
    intro x hx y hy hfx hfy
    exact betterFrom_eq uri hsize _ _ (isMatch_legal (hnul x hx) hfx) (isMatch_legal (hnul y hy) hfy)
  constructor
  · intro x hx y hy hfx hfy hxy
    rw [hbeats x hx y hy hfx hfy] at hxy
    rw [hbeats y hy x hx hfy hfx]
    exact beats_asymm rank_injective (isMatch_legal (hnul x hx) hfx) (isMatch_legal (hnul y hy) hfy)
      hxy
  · intro x hx y hy z hz hfx hfy hfz hxy hyz
    rw [hbeats x hx y hy hfx hfy] at hxy
    rw [hbeats y hy z hz hfy hfz] at hyz
    rw [hbeats x hx z hz hfx hfz]
    exact beats_trans rank_injective (isMatch_legal (hnul x hx) hfx)
      (isMatch_legal (hnul y hy) hfy) (isMatch_legal (hnul z hz) hfz) hxy hyz
  · intro x hx y hy hfx hfy hne
    rw [hbeats x hx y hy hfx hfy, hbeats y hy x hx hfy hfx]
    refine beats_total rank_injective (isMatch_legal (hnul x hx) hfx)
      (isMatch_legal (hnul y hy) hfy) ?_
    intro hword
    have hkeys : (⟨x.1, hnul x hx, hfx⟩ : Matching uri) = ⟨y.1, hnul y hy, hfy⟩ :=
      Matching.word_injective hword
    exact hne (entry_of_key hx hy (congrArg Matching.expression hkeys))

theorem isUriMatch_some {uri : Bytes} {x : Bytes × α} (hx : fits uri x = true) (y : Bytes × α) :
    isUriMatch uri x.1 (some y.1) = better uri x y := by
  rw [isUriMatch_eq, Option.all_some]
  unfold fits at hx
  rw [hx, Bool.true_and]
  rfl

theorem bestKey_iff {map : OrderedMap Bytes α byteLess} {uri : Bytes} {x : Bytes × α}
    (hx : x ∈ map.entries) :
    BestKey map uri x.1 ↔ Best (fits uri) (better uri) map.entries x := by
  constructor
  · intro ⟨_, hfits, hmax⟩
    refine ⟨hx, hfits, ?_⟩
    intro y hy hfy hne
    have hkeys : y.1 ≠ x.1 := fun h => hne (entry_of_key hy hx h)
    rw [← isUriMatch_some hfits, ← isUriMatch_some hfy]
    exact hmax y.1 (List.mem_map_of_mem hy) hfy hkeys
  · intro ⟨_, hfits, hmax⟩
    refine ⟨List.mem_map_of_mem hx, hfits, ?_⟩
    intro k hk hfy hne
    obtain ⟨y, hy, rfl⟩ := List.mem_map.mp hk
    rw [isUriMatch_some hfits, isUriMatch_some hfy]
    exact hmax y hy hfy fun h => hne (by rw [h])

end Scan

/-- The object of the best matching key is found, in whatever order the map is scanned. -/
theorem best_object {α : Type} (map : OrderedMap Bytes α byteLess) (uri : Bytes)
    (hsize : (uri.length : ℤ) ≤ INT32_MAX)
    (hnul : 0 ∉ uri ∧ ∀ k ∈ map.entries.map Prod.fst, 0 ∉ k) :
    (getObjectMatch map uri = none ↔
      ∀ k ∈ map.entries.map Prod.fst, isMatch uri (tokenize k) = false) ∧
    (∀ object, getObjectMatch map uri = some object →
      ∃ k, (k, object) ∈ map.entries ∧ BestKey map uri k ∧ ∀ k', BestKey map uri k' → k' = k) ∧
    IsStrictTotalOrder (Matching uri) Matching.BetterThan ∧
    ∀ entries : List (Bytes × α), entries.Perm map.entries →
      scan uri entries = getObjectMatch map uri := by
  have hranks := entries_ranked map hsize fun x hx => hnul.2 x.1 (List.mem_map_of_mem hx)
  have hscan : getObjectMatch map uri = scan uri map.entries := rfl
  have hbest := foldl_keep hranks
  refine ⟨?_, ?_, Matching.betterThan_order hsize, ?_⟩
  · rw [hscan, scan_eq]
    cases hfound : map.entries.foldl (keep (fits uri) (better uri)) none with
    | none =>
      rw [hfound] at hbest
      simp only [Option.map_none, true_iff]
      intro k hk
      obtain ⟨x, hx, rfl⟩ := List.mem_map.mp hk
      exact hbest x hx
    | some x =>
      rw [hfound] at hbest
      simp only [Option.map_some, reduceCtorEq, false_iff]
      intro hnone
      have hx := hnone x.1 (List.mem_map_of_mem hbest.1)
      have hfits : isMatch uri (tokenize x.1) = true := hbest.2.1
      rw [hx] at hfits
      cases hfits
  · intro object hobject
    rw [hscan, scan_eq] at hobject
    cases hfound : map.entries.foldl (keep (fits uri) (better uri)) none with
    | none =>
      rw [hfound] at hobject
      cases hobject
    | some x =>
      rw [hfound] at hbest hobject
      obtain ⟨k, o⟩ := x
      obtain rfl : o = object := Option.some.inj hobject
      have hmem : (k, o) ∈ map.entries := hbest.1
      refine ⟨k, hmem, (bestKey_iff hmem).mpr hbest, ?_⟩
      intro k' hk'
      obtain ⟨y, hy, rfl⟩ := List.mem_map.mp hk'.1
      have hsame := Best.unique ((bestKey_iff hy).mp hk') hbest
      rw [hsame]
  · intro entries hperm
    rw [hscan, scan_eq, scan_eq, foldl_keep_perm hranks hperm]

theorem conf_object :
    getObjectMatch ((OrderedMap.empty.insert (ascii "/*") 1).insert (ascii "/conf*") 2)
        (ascii "/configs") = some 2 ∧
      scan (ascii "/configs") [(ascii "/conf*", 2), (ascii "/*", 1)] = some 2 := by
  have hnul : ∀ k ∈ ((OrderedMap.empty.insert (ascii "/*") 1).insert (ascii "/conf*") 2 :
      OrderedMap Bytes ℕ byteLess).entries.map Prod.fst, 0 ∉ k := by decide +kernel
  have hbest := best_object ((OrderedMap.empty.insert (ascii "/*") 1).insert (ascii "/conf*") 2)
    (ascii "/configs") (by decide) ⟨by decide, hnul⟩
  have hfound : getObjectMatch
      ((OrderedMap.empty.insert (ascii "/*") 1).insert (ascii "/conf*") 2)
        (ascii "/configs") = some 2 := by decide +kernel
  refine ⟨hfound, ?_⟩
  rw [← hfound]
  exact hbest.2.2.2 _ (by decide +kernel)

/-- A path whose last byte lies far behind its first one. -/
def stretched (n : ℕ) : Bytes := 97 :: (List.replicate n 99 ++ [98])

theorem stretched_find (n : ℕ) : find [98] (stretched n) = some (n + 1) := by
  have hwhile : (stretched n).takeWhile (fun c => decide (c ≠ 98)) = 97 :: List.replicate n 99 := by
    rw [stretched, List.takeWhile_cons_of_pos (by decide), List.takeWhile_append_of_pos]
    · simp
    · intro c hc
      rw [List.eq_of_mem_replicate hc]
      decide
  rw [find_singleton, if_pos (by simp [stretched]), hwhile]
  simp

theorem stretched_match (n : ℕ) : isMatch (stretched n) (tokenize (ascii "a*")) = true ∧
    isMatch (stretched n) (tokenize (ascii "*b*")) = true := by
  have hfirst : tokenize (ascii "a*") = [[97], ascii "*"] := by decide
  have hsecond : tokenize (ascii "*b*") = [ascii "*", [98], ascii "*"] := by decide
  have hstart : charAt (stretched n) 0 ≠ 0 := by
    show (97 : UInt8) ≠ 0
    decide
  have hend : charAt (stretched n) (n + 2) = 0 := by simp [charAt, stretched]
  have hfind := stretched_find n
  constructor
  · rw [hfirst]
    have htake : (stretched n).take 1 = [97] := rfl
    simp only [isMatch, matchFrom, List.drop_zero, List.length_singleton, htake]
    simp [hstart, ascii]
  · rw [hsecond]
    simp only [isMatch, matchFrom, List.drop_zero, hfind]
    simp [hstart, hend]

theorem stretched_positions (n : ℕ) :
    rfind [97] (stretched n) = some 0 ∧ rfind [98] (stretched n) = some (n + 1) := by
  constructor
  · obtain ⟨i, hi, -⟩ := rfind_append [] [(97 : UInt8)] (List.replicate n 99 ++ [98])
    have hfound : rfind [97] (stretched n) = some i := hi
    obtain ⟨a, b, hsplit, rfl⟩ := rfind_eq_some hfound
    cases a with
    | nil => exact hfound
    | cons c a =>
      have htail : List.replicate n 99 ++ [98] = a ++ [97] ++ b := (List.cons.inj hsplit).2
      have hmem : (97 : UInt8) ∈ List.replicate n 99 ++ [98] := by
        rw [htail]
        simp
      simp [List.mem_replicate] at hmem
  · obtain ⟨i, hi, hle⟩ := rfind_append (97 :: List.replicate n 99) [(98 : UInt8)] []
    have hfound : rfind [98] (stretched n) = some i := by simpa [stretched] using hi
    have hbound := rfind_bound hfound
    simp only [stretched, List.length_cons, List.length_append, List.length_replicate,
      List.length_nil] at hle hbound
    rw [hfound]
    congr 1
    omega

theorem stretched_tie :
    isUriMatch (stretched 2147483647) (ascii "a*") (some (ascii "*b*")) = false ∧
      isUriMatch (stretched 2147483647) (ascii "*b*") (some (ascii "a*")) = false := by
  have hfirst : (tokenize (ascii "a*")).reverse = [ascii "*", [97]] := by decide
  have hsecond : (tokenize (ascii "*b*")).reverse = [ascii "*", [98], ascii "*"] := by decide
  obtain ⟨hmatch, hmatch'⟩ := stretched_match 2147483647
  obtain ⟨hpos, hpos'⟩ := stretched_positions 2147483647
  have hint : rfindInt [97] (stretched 2147483647) = 0 := by
    rw [rfindInt, hpos, Option.elim_some]
    decide
  have hint' : rfindInt [98] (stretched 2147483647) = -2147483648 := by
    rw [rfindInt, hpos', Option.elim_some]
    decide
  constructor
  · rw [isUriMatch_eq, hmatch, hfirst, Option.all_some, hsecond]
    simp only [betterFrom, hint, hint']
    decide
  · rw [isUriMatch_eq, hmatch', hsecond, Option.all_some, hfirst]
    simp only [betterFrom, hint, hint']
    decide

/-- Positions that are 2^31 apart leave two expressions without a better one. -/
theorem far_positions_tie :
    ∃ map : OrderedMap Bytes ℕ byteLess,
      map.entries.map Prod.fst = [ascii "*b*", ascii "a*"] ∧
        getObjectMatch map (stretched 2147483647) ≠ none ∧
          ∀ k, ¬ BestKey map (stretched 2147483647) k := by
  have hentries : ((OrderedMap.empty.insert (ascii "a*") 1).insert (ascii "*b*") 2 :
      OrderedMap Bytes ℕ byteLess).entries = [(ascii "*b*", 2), (ascii "a*", 1)] := by decide
  refine ⟨(OrderedMap.empty.insert (ascii "a*") 1).insert (ascii "*b*") 2, ?_, ?_, ?_⟩
  · rw [hentries]
    rfl
  · have hkeep : isUriMatch (stretched 2147483647) (ascii "*b*") none = true := by
      rw [isUriMatch_eq, (stretched_match _).2]
      rfl
    unfold getObjectMatch
    rw [hentries]
    simp [hkeep, stretched_tie.1]
  · intro k ⟨hk, _, hmax⟩
    rw [hentries] at hk hmax
    obtain ⟨hmatch, hmatch'⟩ := stretched_match 2147483647
    obtain ⟨htie, htie'⟩ := stretched_tie
    rcases List.mem_cons.mp hk with rfl | hk
    · have hbest := hmax (ascii "a*") (by decide) hmatch (by decide)
      rw [htie'] at hbest
      cases hbest.1
    · obtain rfl := List.mem_singleton.mp hk
      have hbest := hmax (ascii "*b*") (by decide) hmatch' (by decide)
      rw [htie] at hbest
      cases hbest.1

end Webserveau.LocationMatches
