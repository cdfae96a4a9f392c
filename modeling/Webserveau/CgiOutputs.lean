import Webserveau.CgiProcesses
import Webserveau.Checks

/-!
Malformed headers of a cgi process.
The header lines are the complete lines before the first empty one. The parser gives no
verdict exactly when one of them has no colon.
-/
namespace Webserveau.CgiOutputs

open ByteStrings OrderedMaps Formats Requests Checks

inductive HeaderLine : Bytes → Bytes → Prop
  | here {buffer line rest : Bytes} : cutAt 13 10 buffer = some (line, rest) → line ≠ [] →
      HeaderLine buffer line
  | next {buffer front rest line : Bytes} : cutAt 13 10 buffer = some (front, rest) → front ≠ [] →
      HeaderLine rest line → HeaderLine buffer line

def Malformed (buffer : Bytes) : Prop := ∃ line, HeaderLine buffer line ∧ (58 : UInt8) ∉ line

theorem headerLine_iff {buffer front rest line : Bytes}
    (hcut : cutAt 13 10 buffer = some (front, rest)) :
    HeaderLine buffer line ↔ front ≠ [] ∧ (line = front ∨ HeaderLine rest line) := by
  constructor
  · intro h
    cases h with
    | here hcut' hline =>
      rw [hcut, Option.some.injEq, Prod.mk.injEq] at hcut'
      obtain ⟨rfl, rfl⟩ := hcut'
      exact ⟨hline, Or.inl rfl⟩
    | next hcut' hfront hrest =>
      rw [hcut, Option.some.injEq, Prod.mk.injEq] at hcut'
      obtain ⟨rfl, rfl⟩ := hcut'
      exact ⟨hfront, Or.inr hrest⟩
  · intro ⟨hfront, h⟩
    rcases h with rfl | hrest
    · exact .here hcut hfront
    · exact .next hcut hfront hrest

theorem not_malformed_of_uncut {buffer : Bytes} (hcut : cutAt 13 10 buffer = none) :
    ¬ Malformed buffer := by
  intro ⟨line, hline, _⟩
  cases hline with
  | here hcut' =>
    rw [hcut] at hcut'
    cases hcut'
  | next hcut' =>
    rw [hcut] at hcut'
    cases hcut'

/-- A line makes the headers malformed, or leaves that to the lines after it. -/
theorem malformed_iff {buffer front rest : Bytes}
    (hcut : cutAt 13 10 buffer = some (front, rest)) :
    Malformed buffer ↔ front ≠ [] ∧ ((58 : UInt8) ∉ front ∨ Malformed rest) := by
  unfold Malformed
  simp only [headerLine_iff hcut]
  constructor
  · intro ⟨line, ⟨hfront, h⟩, hcolon⟩
    rcases h with rfl | hline
    · exact ⟨hfront, Or.inl hcolon⟩
    · exact ⟨hfront, Or.inr ⟨line, hline, hcolon⟩⟩
  · intro ⟨hfront, h⟩
    rcases h with hcolon | ⟨line, hline, hcolon⟩
    · exact ⟨front, ⟨hfront, Or.inl rfl⟩, hcolon⟩
    · exact ⟨line, ⟨hfront, Or.inr hline⟩, hcolon⟩

theorem getLine_eq (p : CgiReader) (buffer : Bytes) :
    p.getLine buffer = .ok ((cutAt 13 10 buffer).map fun out =>
      ({ p with line := out.1, index := p.index + (out.1.length + 2) }, out.2)) := by
  unfold CgiReader.getLine cutAt
  rw [show CRLF = [13, 10] from rfl]
  cases hfind : find [13, 10] buffer with
  | none => rfl
  | some idx =>
    have hle := find_lt_length hfind
    simp only [List.length_cons, List.length_nil] at hle
    have hlen : (buffer.take idx).length = idx := by
      rw [List.length_take]
      omega
    have hsub : substr buffer 0 idx = .ok (buffer.take idx) := substr_zero buffer idx
    have hfrom : substrFrom buffer (idx + 2) = .ok (buffer.drop (idx + 2)) :=
      substrFrom_of_le (by omega)
    simp only [hsub, hfrom, bind, Except.bind, pure, Except.pure, Option.map_some, hlen]

theorem extractHeader_code (p : CgiReader) :
    ∃ res p', p.extractHeader = .ok (res, p') ∧ (res ≠ 0 ↔ (58 : UInt8) ∉ p.line) := by
  have hfind : find (ascii ":") p.line =
      if (58 : UInt8) ∈ p.line then some (p.line.takeWhile (· ≠ 58)).length else none :=
    find_singleton 58 p.line
  unfold CgiReader.extractHeader
  rw [hfind]
  by_cases hcolon : (58 : UInt8) ∈ p.line
  · rw [if_pos hcolon]
    have hle : (p.line.takeWhile (· ≠ 58)).length + 1 ≤ p.line.length := by
      have hsplit := congrArg List.length (split_at_mem hcolon)
      simp only [List.length_append, List.length_cons] at hsplit
      omega
    simp only [substr_zero, substr_of_le _ hle, bind, Except.bind, pure, Except.pure]
    split
    · exact ⟨0, _, rfl, iff_of_false (fun h => h rfl) (fun h => h hcolon)⟩
    · exact ⟨0, _, rfl, iff_of_false (fun h => h rfl) (fun h => h hcolon)⟩
  · rw [if_neg hcolon]
    exact ⟨500, p, rfl, iff_of_true (by decide) hcolon⟩

theorem readLines_code {fuel : ℕ} (p : CgiReader) {buffer : Bytes} (h : buffer.length < fuel) :
    ∃ res p', p.readLines fuel buffer = .ok (res, p') ∧ (res ≠ 0 ↔ Malformed buffer) := by
  induction fuel generalizing p buffer with
  | zero => omega
  | succ fuel ih =>
    unfold CgiReader.readLines
    rw [getLine_eq]
    cases hcut : cutAt 13 10 buffer with
    | none => exact ⟨0, p, rfl, iff_of_false (fun h => h rfl) (not_malformed_of_uncut hcut)⟩
    | some out =>
      obtain ⟨front, rest⟩ := out
      have hshort := cutAt_length hcut
      simp only [bind, Except.bind, Option.map_some, pure, Except.pure]
      rw [malformed_iff hcut]
      by_cases hfront : front = []
      · rw [if_pos hfront]
        exact ⟨0, _, rfl, iff_of_false (fun h => h rfl) fun h => h.1 hfront⟩
      · rw [if_neg hfront]
        obtain ⟨res, p', hextract, hcode⟩ := extractHeader_code
          { p with
            line := front
            index := p.index + (front.length + 2) }
        rw [hextract]
        by_cases hres : res = 0
        · subst hres
          obtain ⟨res', p'', hread, hcode'⟩ := ih p' (by omega : rest.length < fuel)
          refine ⟨res', p'', hread, hcode'.trans ?_⟩
          have hcolon : (58 : UInt8) ∈ front := not_not.mp fun h => hcode.mpr h rfl
          constructor
          · intro hrest
            exact ⟨hfront, Or.inr hrest⟩
          · intro h
            rcases h.2 with h | h
            · exact absurd hcolon h
            · exact h
        · simp only [ne_eq, hres, not_false_eq_true, if_true]
          exact ⟨res, _, rfl, iff_of_true hres ⟨hfront, Or.inl (hcode.mp hres)⟩⟩

theorem inspectHeaders_verdict (headers : HeaderMap) (r : Request) :
    (Request.inspectHeaders headers r).1 ≠ .none := by
  unfold Request.inspectHeaders
  dsimp only
  split
  · intro h
    cases h
  · split
    · intro h
      cases h
    · split
      · intro h
        cases h
      · split
        · intro h
          cases h
        · intro h
          cases h

/-- The parser has no verdict on malformed headers, and only on these. -/
theorem no_verdict_iff (fs : FileSystem) (r : Request) :
    (∃ r', r.parseCgiHeaders fs = .ok (.none, r')) ↔
      Malformed (outputBuffer fs r.resHints.path) := by
  obtain ⟨res, p, hread, hcode⟩ := readLines_code { hints := r.resHints }
    (Nat.lt_succ_self (outputBuffer fs r.resHints.path).length)
  have hread' : CgiReader.readLines ((outputBuffer fs r.resHints.path).length + 1)
      { hints := r.resHints } (outputBuffer fs r.resHints.path) = .ok (res, p) := hread
  rw [← hcode]
  unfold Request.parseCgiHeaders
  simp only [hread', bind, Except.bind, pure, Except.pure]
  by_cases hres : res = 0
  · subst hres
    refine iff_of_false ?_ fun h => h rfl
    intro ⟨r', h⟩
    rw [if_neg (fun h => h rfl), Except.ok.injEq] at h
    exact inspectHeaders_verdict _ _ (congrArg Prod.fst h)
  · rw [if_pos hres]
    exact iff_of_true ⟨_, rfl⟩ hres

end Webserveau.CgiOutputs
