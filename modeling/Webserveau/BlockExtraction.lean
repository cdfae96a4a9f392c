import Webserveau.ConfigBlocks

/-!
Blocks as parts of a text.
The search for the closing brace is told character by character, without lines and
positions: the end of a line leaves its state as it is, also after a backslash.
-/
namespace Webserveau.BlockExtraction

open ByteStrings ConfigWords ConfigBlocks

/-- The state of the search between two characters. -/
structure Braces where
  depth : ℕ := 0
  isEscaped : Bool := false
  isQuoted : Bool := false
  deriving DecidableEq

/-- What a character does to the search. -/
inductive Move
  | next (b : Braces)
  | closed
  | unexpected
  deriving DecidableEq

def Braces.read (b : Braces) (c : UInt8) : Move :=
  if c = 10 then .next b
  else if b.isEscaped then .next { b with isEscaped := false }
  else if c = 92 then .next { b with isEscaped := true }
  else if c = 34 then .next { b with isQuoted := !b.isQuoted }
  else if b.isQuoted then .next b
  else if c = 123 then .next { b with depth := b.depth + 1 }
  else if c = 125 then
    if b.depth = 0 then .unexpected
    else if b.depth = 1 then .closed
    else .next { b with depth := b.depth - 1 }
  else .next b

inductive Found
  | over (b : Braces)
  | block (body rest : Bytes)
  | unexpected
  deriving DecidableEq

/-- The text between the first opening brace and the brace that closes it. -/
def search (b : Braces) (body : Bytes) : Bytes → Found
  | [] => .over b
  | c :: rest =>
    match b.read c with
    | .closed => .block body rest
    | .unexpected => .unexpected
    | .next b' => search b' (if b.depth = 0 then body else body ++ [c]) rest

/-- A brace that closes the block stands inside it. -/
theorem Braces.depth_of_closed {b : Braces} {c : UInt8} (h : b.read c = .closed) :
    b.depth = 1 := by
  unfold Braces.read at h
  grind

theorem Braces.depth_of_next {b b' : Braces} {c : UInt8} (h : b.read c = .next b')
    (hzero : b'.depth = 0) : b.depth = 0 := by
  unfold Braces.read at h
  grind

/-- The state behind a text in which the search goes on. -/
def passes (b : Braces) : Bytes → Option Braces
  | [] => some b
  | c :: rest =>
    match b.read c with
    | .next b' => passes b' rest
    | _ => none

/-- A text that is balanced inside a block. -/
def Balanced (body : Bytes) : Prop := passes ⟨1, false, false⟩ body = some ⟨1, false, false⟩

instance (body : Bytes) : Decidable (Balanced body) := by
  unfold Balanced
  infer_instance

theorem depth_of_passes {b b' : Braces} {text : Bytes} (h : passes b text = some b')
    (hzero : b'.depth = 0) : b.depth = 0 := by
  induction text generalizing b with
  | nil =>
    cases h
    exact hzero
  | cons c text ih =>
    unfold passes at h
    split at h
    · rename_i b₁ hread
      exact Braces.depth_of_next hread (ih h)
    · cases h

/-- A search goes through a text that it passes, and takes it once it is inside. -/
theorem search_passes {b b' : Braces} {text : Bytes} (h : passes b text = some b') :
    ∃ part, (b.depth ≠ 0 → part = text) ∧ (b'.depth = 0 → part = []) ∧
      ∀ body tail, search b body (text ++ tail) = search b' (body ++ part) tail := by
  induction text generalizing b with
  | nil =>
    cases h
    exact ⟨[], fun _ => rfl, fun _ => rfl, fun _ _ => by rw [List.nil_append, List.append_nil]⟩
  | cons c text ih =>
    unfold passes at h
    split at h
    · rename_i b₁ hread
      obtain ⟨part, hpart, hnone, hsearch⟩ := ih h
      by_cases hzero : b.depth = 0
      · refine ⟨part, fun hne => absurd hzero hne, hnone, ?_⟩
        intro body tail
        rw [List.cons_append, search, hread]
        simp only [hzero, if_true, hsearch]
      · have hin : b₁.depth ≠ 0 := fun h => hzero (Braces.depth_of_next hread h)
        refine ⟨c :: part, fun _ => by rw [hpart hin], ?_, ?_⟩
        · intro hb'
          exact absurd (depth_of_passes h hb') hin
        · intro body tail
          rw [List.cons_append, search, hread]
          simp only [hzero, if_false, hsearch, List.append_assoc, List.singleton_append]
    · cases h

/-- What a search on a good stream ends with. -/
def Found.outcome (s : IStream) : Found → Except ConfigException (Bytes × IStream)
  | .block body rest => .ok (body, { s with rest := rest })
  | .unexpected => .error .unexpectedBrace
  | .over b => .error (if b.depth > 0 then .unclosedBlock else .lastBlock)

/-- The search finds a block that is written with balanced braces. -/
theorem search_written {pre body : Bytes} (hpre : passes {} pre = some {}) (hbody : Balanced body)
    (rest : Bytes) : search {} [] (pre ++ 123 :: (body ++ 125 :: rest)) = .block body rest := by
  obtain ⟨part, -, hnone, hspaces⟩ := search_passes hpre
  obtain ⟨inner, hinner, -, hsearch⟩ := search_passes hbody
  have hopen : ∀ rest, search {} [] (123 :: rest) = search ⟨1, false, false⟩ [] rest := fun _ => rfl
  have hclose : ∀ out rest, search ⟨1, false, false⟩ out (125 :: rest) = .block out rest :=
    fun _ _ => rfl
  rw [hspaces, hnone rfl, List.nil_append, hopen, hsearch, hinner Nat.one_ne_zero, hclose,
    List.nil_append]

def Scan.braces (scan : Scan) : Braces :=
  ⟨scan.enclosedDepth, scan.isEscaped, scan.isQuoted⟩

/-- The scan of a line behind the character at `it`. -/
def Scan.advance (scan : Scan) (b : Braces) (it : ℕ) : Scan where
  enclosedDepth := b.depth
  isEscaped := b.isEscaped
  isQuoted := b.isQuoted
  start := if scan.enclosedDepth = 0 ∧ b.depth ≠ 0 then it + 1 else scan.start

theorem scanLine_cons (scan : Scan) (it : ℕ) {c : UInt8} (hc : c ≠ 10) (rest : Bytes) :
    scanLine scan it (c :: rest) =
      match (Scan.braces scan).read c with
      | .unexpected => .unexpected
      | .closed => .closed { scan with enclosedDepth := 0 } it
      | .next b => scanLine (Scan.advance scan b it) (it + 1) rest := by
  obtain ⟨depth, esc, quoted, start⟩ := scan
  have hkeep : (if depth = 0 ∧ depth ≠ 0 then it + 1 else start) = start :=
    if_neg fun h => h.2 h.1
  rw [scanLine]
  unfold Braces.read Scan.braces Scan.advance
  rw [if_neg hc]
  cases esc with
  | true => simp only [if_true, hkeep]
  | false =>
    by_cases hslash : c = 92
    · simp [hslash]
    · by_cases hquote : c = 34
      · simp [hquote]
      · cases quoted with
        | true => simp [hslash, hquote]
        | false =>
          by_cases hopen : c = 123
          · by_cases hzero : depth = 0 <;> simp [hopen, hzero]
          · by_cases hclose : c = 125
            · by_cases hzero : depth = 0
              · simp [hclose, hzero]
              · by_cases hone : depth = 1 <;> simp [hclose, hzero, hone]
            · simp [hslash, hquote, hopen, hclose]

/-- The part of a line that belongs to the block. -/
def Scan.part (scan : Scan) (line : Bytes) : Bytes :=
  if scan.enclosedDepth = 0 then [] else line.drop scan.start

theorem Scan.part_advance {scan : Scan} {b : Braces} {p : Bytes} {c : UInt8}
    (hstart : scan.start ≤ p.length) (hread : (Scan.braces scan).read c = .next b) :
    Scan.part (Scan.advance scan b p.length) (p ++ [c]) =
      if scan.enclosedDepth = 0 then Scan.part scan p else Scan.part scan p ++ [c] := by
  unfold Scan.part Scan.advance
  by_cases hzero : scan.enclosedDepth = 0
  · by_cases hb : b.depth = 0
    · simp only [hzero, hb, if_true]
    · simp [hzero, hb]
  · have hb : b.depth ≠ 0 := fun hb => hzero (Braces.depth_of_next hread hb)
    simp only [hzero, hb, false_and, if_false]
    exact List.drop_append_of_le_length hstart

/-- A line is searched as the characters it has. -/
theorem search_line (out tail : Bytes) (l : Bytes) (hl : (10 : UInt8) ∉ l) (scan : Scan)
    (p : Bytes) (hstart : scan.start ≤ p.length) (hout : scan.enclosedDepth = 0 → out = []) :
    search (Scan.braces scan) (out ++ Scan.part scan p) (l ++ tail) =
      match scanLine scan p.length l with
      | .unexpected => .unexpected
      | .closed scan' it =>
        .block (out ++ ((p ++ l).take it).drop scan'.start) ((p ++ l ++ tail).drop (it + 1))
      | .passed scan' => search (Scan.braces scan') (out ++ Scan.part scan' (p ++ l)) tail := by
  induction l generalizing scan p with
  | nil => simp only [scanLine, List.append_nil, List.nil_append]
  | cons c l ih =>
    have hc : c ≠ 10 := fun h => hl (h ▸ List.mem_cons_self ..)
    rw [List.cons_append, search, scanLine_cons scan p.length hc]
    cases hread : (Scan.braces scan).read c with
    | unexpected => rfl
    | closed =>
      have hdepth : scan.enclosedDepth = 1 := Braces.depth_of_closed hread
      simp [Scan.part, hdepth]
    | next b =>
      have hbody : out ++ Scan.part (Scan.advance scan b p.length) (p ++ [c]) =
          if scan.enclosedDepth = 0 then out ++ Scan.part scan p
          else out ++ Scan.part scan p ++ [c] := by
        rw [Scan.part_advance hstart hread, apply_ite (out ++ ·), List.append_assoc]
      have hle : (Scan.advance scan b p.length).start ≤ (p ++ [c]).length := by
        rw [List.length_append, List.length_singleton]
        unfold Scan.advance
        dsimp only
        split
        · exact le_rfl
        · omega
      have hstep := ih (fun h => hl (List.mem_cons_of_mem _ h)) (Scan.advance scan b p.length)
        (p ++ [c]) hle fun h => hout (Braces.depth_of_next hread h)
      rw [hbody, List.length_append, List.length_singleton, List.append_assoc p,
        List.singleton_append] at hstep
      exact hstep

theorem it_of_closed {l : Bytes} (hl : (10 : UInt8) ∉ l) {scan scan' : Scan} {start it : ℕ}
    (h : scanLine scan start l = .closed scan' it) : it < start + l.length := by
  induction l generalizing scan start with
  | nil => cases h
  | cons c l ih =>
    have hc : c ≠ 10 := fun h => hl (h ▸ List.mem_cons_self ..)
    rw [scanLine_cons scan start hc] at h
    rw [List.length_cons]
    split at h
    · cases h
    · cases h
      omega
    · have hnext := ih (fun h => hl (List.mem_cons_of_mem _ h)) h
      omega

/-- A search that is outside of all braces behind a line has met none in it. -/
theorem passed_outside {l : Bytes} (hl : (10 : UInt8) ∉ l) {scan scan' : Scan} {start : ℕ}
    (h : scanLine scan start l = .passed scan') (hzero : scan'.enclosedDepth = 0) :
    scan.enclosedDepth = 0 ∧ scan'.start = scan.start := by
  induction l generalizing scan start with
  | nil =>
    cases h
    exact ⟨hzero, rfl⟩
  | cons c l ih =>
    have hc : c ≠ 10 := fun h => hl (h ▸ List.mem_cons_self ..)
    rw [scanLine_cons scan start hc] at h
    split at h
    · cases h
    · cases h
    · rename_i b hread
      obtain ⟨hb, hkept⟩ := ih (fun h => hl (List.mem_cons_of_mem _ h)) h
      have hb : b.depth = 0 := hb
      refine ⟨Braces.depth_of_next hread hb, hkept.trans ?_⟩
      exact if_neg fun h => h.2 hb

section Streams

theorem good_iff (r : Reader) : r.good = true ↔ r.eof = false ∧ r.fail = false := by
  unfold Reader.good
  cases r.eof <;> cases r.fail <;> decide

/-- A stream that has more of its text in front of it. -/
structure InText (s : IStream) : Prop where
  good : s.good = true
  suffix : s.rest <:+ s.text

theorem InText.exists_eq {s : IStream} (h : InText s) :
    ∃ q R offset, s = ⟨⟨R, false, false⟩, q ++ R, offset⟩ := by
  obtain ⟨⟨R, eof, fail⟩, text, offset⟩ := s
  obtain ⟨heof, hfail⟩ := (good_iff _).mp h.good
  obtain ⟨q, hq⟩ := h.suffix
  dsimp only at heof hfail hq
  subst heof hfail hq
  exact ⟨q, R, offset, rfl⟩

/-- A position in what was unread of a stream. -/
theorem seekg_at (q R rest : Bytes) (eof : Bool) (offset : ℕ) {i : ℕ} (hi : i ≤ R.length) :
    IStream.seekg ⟨⟨rest, eof, false⟩, q ++ R, offset⟩ (q.length + i) =
      ⟨⟨R.drop i, false, false⟩, q ++ R, offset⟩ := by
  have hnat : ((q.length : ℤ) + i).toNat = q.length + i := by omega
  have hbound : 0 ≤ (q.length : ℤ) + i ∧ (q.length : ℤ) + i ≤ (q ++ R).length := by
    rw [List.length_append]
    omega
  unfold IStream.seekg
  dsimp only
  rw [if_neg Bool.false_ne_true, if_pos hbound, hnat, List.drop_append,
    List.drop_of_length_le (Nat.le_add_right _ i), List.nil_append, Nat.add_sub_cancel_left]

theorem takeWhile_line {l : Bytes} (hl : (10 : UInt8) ∉ l) (rest : Bytes) :
    (l ++ 10 :: rest).takeWhile (· ≠ 10) = l ∧ l.takeWhile (· ≠ 10) = l := by
  have hall : ∀ c ∈ l, decide (c ≠ 10) = true := by
    intro c hc
    exact decide_eq_true fun h => hl (h ▸ hc)
  constructor
  · rw [List.takeWhile_append_of_pos hall, List.takeWhile_cons_of_neg (by decide), List.append_nil]
  · exact List.takeWhile_eq_self_iff.mpr hall

theorem getline_line {l : Bytes} (hl : (10 : UInt8) ∉ l) (q rest line : Bytes) (offset : ℕ) :
    IStream.getline ⟨⟨l ++ 10 :: rest, false, false⟩, q, offset⟩ line =
      (l, ⟨⟨rest, false, false⟩, q, offset⟩) := by
  have hlt : l.length < (l ++ 10 :: rest).length := by
    rw [List.length_append, List.length_cons]
    omega
  have hdrop : (l ++ 10 :: rest).drop (l.length + 1) = rest := by simp
  unfold IStream.getline
  simp only [Reader.good, (takeWhile_line hl rest).1, Bool.not_false, Bool.and_self, if_true, hlt,
    hdrop]

theorem getline_last {l : Bytes} (hl : (10 : UInt8) ∉ l) (q line : Bytes) (offset : ℕ) :
    IStream.getline ⟨⟨l, false, false⟩, q, offset⟩ line =
      (l, ⟨⟨[], true, l = []⟩, q, offset⟩) := by
  unfold IStream.getline
  simp only [Reader.good, (takeWhile_line hl []).2, Bool.not_false, Bool.and_self, if_true,
    lt_irrefl, if_false]

/-- The stream stands behind the closing brace, whether its line was ended or not. -/
theorem returnTo_line (q l rest : Bytes) (offset : ℕ) {it : ℕ} (hit : it < l.length) :
    returnTo ⟨⟨rest, false, false⟩, q ++ (l ++ 10 :: rest), offset⟩ l it =
      ⟨⟨(l ++ 10 :: rest).drop (it + 1), false, false⟩, q ++ (l ++ 10 :: rest), offset⟩ := by
  have hposition : ((q ++ (l ++ 10 :: rest)).length : ℤ) - rest.length - (l.length - it) =
      q.length + (it + 1 : ℕ) := by
    simp only [List.length_append, List.length_cons]
    omega
  unfold returnTo IStream.tellg
  simp only [Reader.good, Bool.not_false, Bool.and_self, if_true, Bool.false_eq_true, if_false]
  rw [hposition]
  exact seekg_at q _ rest false offset (by simp only [List.length_append]; omega)

theorem returnTo_last (q l : Bytes) (offset : ℕ) {it : ℕ} (hit : it < l.length) :
    returnTo ⟨⟨[], true, false⟩, q ++ l, offset⟩ l it =
      ⟨⟨l.drop (it + 1), false, false⟩, q ++ l, offset⟩ := by
  have hposition : ((q ++ l).length : ℤ) - ([] : Bytes).length - (l.length - 1 - it) =
      q.length + (it + 1 : ℕ) := by
    simp only [List.length_append, List.length_nil]
    omega
  unfold returnTo IStream.clear IStream.tellg
  simp only [Reader.good, Bool.not_false, Bool.and_self, if_true]
  rw [hposition]
  exact seekg_at q _ [] false offset (by omega)

/-- On a good stream the lines are searched as one text. -/
theorem blockLoop_eq (q : Bytes) (offset fuel : ℕ) (scan : Scan) (R line out : Bytes)
    (hfuel : R.length < fuel) (hout : scan.enclosedDepth = 0 → out = []) :
    (blockLoop fuel scan ⟨⟨R, false, false⟩, q ++ R, offset⟩ line out).2 =
      (search (Scan.braces scan) out R).outcome ⟨⟨R, false, false⟩, q ++ R, offset⟩ := by
  induction fuel generalizing q scan R line out with
  | zero => omega
  | succ fuel ih =>
    have hpart : out = out ++ Scan.part { scan with start := 0 } [] := by
      unfold Scan.part
      split <;> simp
    unfold blockLoop
    by_cases hmem : (10 : UInt8) ∈ R
    · obtain ⟨l, rest, rfl, hl⟩ := List.eq_append_cons_of_mem hmem
      have hsearch := search_line out (10 :: rest) l hl { scan with start := 0 } []
        (Nat.zero_le _) hout
      rw [← hpart, List.length_nil, List.nil_append] at hsearch
      rw [getline_line hl, show Scan.braces scan = Scan.braces { scan with start := 0 } from rfl,
        hsearch]
      dsimp only
      cases hscan : scanLine { scan with start := 0 } 0 l with
      | unexpected => rfl
      | closed scan' it =>
        have hit := it_of_closed hl hscan
        dsimp only
        rw [returnTo_line q l rest offset (by omega)]
        rfl
      | passed scan' =>
        have hbody : (if scan'.enclosedDepth ≠ 0 ∨ scan'.start ≠ 0 then
              out ++ l.drop scan'.start ++ (if scan'.enclosedDepth ≠ 0 then [10] else [])
            else out) =
            if scan'.enclosedDepth = 0 then out ++ Scan.part scan' l
            else out ++ Scan.part scan' l ++ [10] := by
          by_cases hzero : scan'.enclosedDepth = 0
          · obtain ⟨-, hstart⟩ := passed_outside hl hscan hzero
            simp [Scan.part, hzero, hstart]
          · simp [Scan.part, hzero]
        have hempty : scan'.enclosedDepth = 0 →
            (if scan'.enclosedDepth = 0 then out ++ Scan.part scan' l
            else out ++ Scan.part scan' l ++ [10]) = [] := by
          intro hzero
          rw [if_pos hzero, hout (passed_outside hl hscan hzero).1]
          simp [Scan.part, hzero]
        have htext : q ++ (l ++ 10 :: rest) = q ++ l ++ [10] ++ rest := by simp
        have hfuel : rest.length < fuel := by
          simp only [List.length_append, List.length_cons] at hfuel
          omega
        dsimp only
        rw [if_pos (show Reader.good ⟨rest, false, false⟩ = true from rfl), hbody, htext,
          ih (q ++ l ++ [10]) scan' rest l _ hfuel hempty]
        have hsnoc : search (Scan.braces scan') (out ++ Scan.part scan' l) (10 :: rest) =
            search (Scan.braces scan') (if scan'.enclosedDepth = 0 then out ++ Scan.part scan' l
              else out ++ Scan.part scan' l ++ [10]) rest := rfl
        rw [hsnoc]
        cases search (Scan.braces scan') _ rest <;> rfl
    · have hsearch := search_line out [] R hmem { scan with start := 0 } [] (Nat.zero_le _) hout
      rw [← hpart, List.length_nil, List.nil_append, List.append_nil] at hsearch
      rw [getline_last hmem, show Scan.braces scan = Scan.braces { scan with start := 0 } from rfl,
        hsearch]
      dsimp only
      cases hscan : scanLine { scan with start := 0 } 0 R with
      | unexpected => rfl
      | closed scan' it =>
        have hit := it_of_closed hmem hscan
        have hne : decide (R = []) = false := by
          refine decide_eq_false fun h => ?_
          rw [h, List.length_nil] at hit
          omega
        dsimp only
        rw [hne, returnTo_last q R offset (by omega)]
        rfl
      | passed scan' =>
        have hgood : Reader.good ⟨[], true, decide (R = [])⟩ = false := rfl
        dsimp only
        rw [hgood, if_neg Bool.false_ne_true]
        show (if scan'.enclosedDepth > 0 then _ else _ : Bytes × Except ConfigException _).2 =
          .error (if scan'.enclosedDepth > 0 then .unclosedBlock else .lastBlock)
        split <;> rfl

/-- The block in front of a good stream is the one that the search finds. -/
theorem getNextBlock_eq {s : IStream} (h : InText s) (line : Bytes) :
    (getNextBlock s line).2 = (search {} [] s.rest).outcome s := by
  obtain ⟨q, R, offset, rfl⟩ := h.exists_eq
  exact blockLoop_eq q offset _ {} R line [] (Nat.lt_succ_self _) fun _ => rfl

/-- What was read into the line before does not matter on a good stream. -/
theorem getNextBlock_line {s : IStream} (h : s.good = true) (line line' : Bytes) :
    getNextBlock s line = getNextBlock s line' := by
  have hline : s.getline line = s.getline line' := by
    unfold IStream.getline
    rw [if_pos h, if_pos h]
  unfold getNextBlock blockLoop
  rw [hline]

/-- A stream that is exhausted has the line read last scanned again. -/
theorem getNextBlock_exhausted {s : IStream} (hgood : s.good = false) (heof : s.eof = true)
    {line : Bytes} (hopen : ∀ scan it, scanLine {} 0 line ≠ .closed scan it) :
    ∃ e, getNextBlock s line = (line, .error e) := by
  have hline : s.getline line = (line, { s with fail := true }) := by
    unfold IStream.getline
    rw [if_neg (by rw [hgood]; exact Bool.false_ne_true)]
  unfold getNextBlock blockLoop
  rw [hline]
  dsimp only
  cases hscan : scanLine {} 0 line with
  | unexpected => exact ⟨_, rfl⟩
  | closed scan it => exact absurd hscan (hopen scan it)
  | passed scan =>
    have hbad : Reader.good { s.toReader with fail := true } = false := by
      unfold Reader.good
      rw [Bool.not_true, Bool.and_false]
    dsimp only
    rw [hbad, if_neg Bool.false_ne_true]
    split
    · exact ⟨_, rfl⟩
    · exact ⟨_, rfl⟩

end Streams

end Webserveau.BlockExtraction
