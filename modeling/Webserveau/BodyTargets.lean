import Webserveau.ParserFrames

/-!
Method and target of a request while its body is read.
The parser of bodies counts, collects and may add trailer fields; what was asked for, and of
what, stays as the request line gave it.
-/
namespace Webserveau.BodyTargets

open ByteStrings OrderedMaps Formats Requests Checks HeadSegmentation HeadSafety ParserFrames

structure SameTarget (r r' : Request) : Prop where
  method : r'.method = r.method
  uri : r'.uri = r.uri

namespace SameTarget

variable {r s t : Request}

theorem refl (r : Request) : SameTarget r r := ⟨rfl, rfl⟩

theorem trans (h : SameTarget r s) (h' : SameTarget s t) : SameTarget r t :=
  ⟨h'.method.trans h.method, h'.uri.trans h.uri⟩

theorem congr (h : SameTarget s t) (hmethod : s.method = r.method) (huri : s.uri = r.uri) :
    SameTarget r t :=
  ⟨h.method.trans hmethod, h.uri.trans huri⟩

end SameTarget

theorem checkSizes_sameTarget (r : Request) : SameTarget r r.checkSizes.2 := by
  rcases checkSizes_cases r with hpass | ⟨error, verbose, -, hfail⟩
  · rw [hpass]
    exact SameTarget.refl r
  · rw [hfail]
    exact ⟨rfl, rfl⟩

/-- A call of the body parser leaves the target alone, and opens no stream. -/
structure OnTarget (b : Body) (out : ℤ × Body × Bytes) : Prop
    extends SameTarget b.1 out.2.1.1 where
  stream : out.2.1.2 ≠ none → b.2 ≠ none

theorem OnTarget.of_same {b : Body} {out : ℤ × Body × Bytes} (h : SameTarget b.1 out.2.1.1)
    (hstream : out.2.1.2 = b.2) : OnTarget b out :=
  ⟨h, fun hsome => hstream ▸ hsome⟩

theorem write_ne_none {stream : Option BodyStream} {bytes : Bytes}
    (h : BodyStream.write stream bytes ≠ none) : stream ≠ none := by
  rintro rfl
  exact h rfl

theorem close_ne_none {stream : Option BodyStream} (h : BodyStream.close stream ≠ none) :
    stream ≠ none := by
  rintro rfl
  exact h rfl

theorem chunkData_onTarget {next : Body → Bytes → Checked (ℤ × Body × Bytes)}
    (hnext : ∀ b buffer, Ends (next b buffer) (OnTarget b)) (r : Request)
    (filestream : Option BodyStream) (buffer : Bytes) :
    Ends (Request.chunkData next (r, filestream) buffer) (OnTarget (r, filestream)) := by
  unfold Request.chunkData
  dsimp only
  split
  · exact ends_ok.mpr ⟨⟨rfl, rfl⟩, close_ne_none⟩
  · split
    · exact ends_ok.mpr (OnTarget.of_same ((checkSizes_sameTarget _).congr rfl rfl) rfl)
    · split
      · exact ends_ok.mpr (OnTarget.of_same ⟨rfl, rfl⟩ rfl)
      · refine (hnext _ _).mono ?_
        intro out hout
        exact ⟨hout.toSameTarget.congr rfl rfl, fun hsome => write_ne_none (hout.stream hsome)⟩

theorem chunkSize_onTarget {next : Body → Bytes → Checked (ℤ × Body × Bytes)}
    (hnext : ∀ b buffer, Ends (next b buffer) (OnTarget b)) (r : Request)
    (filestream : Option BodyStream) (buffer : Bytes) :
    Ends (Request.chunkSize next (r, filestream) buffer) (OnTarget (r, filestream)) := by
  unfold Request.chunkSize
  dsimp only
  split
  · split
    · exact ends_ok.mpr (OnTarget.of_same ⟨rfl, rfl⟩ rfl)
    · exact ends_ok.mpr (OnTarget.of_same ((checkSizes_sameTarget _).congr rfl rfl) rfl)
  · split
    · exact ends_ok.mpr (OnTarget.of_same ⟨rfl, rfl⟩ rfl)
    · refine (chunkData_onTarget hnext _ _ _).mono ?_
      intro out hout
      exact ⟨hout.toSameTarget.congr rfl rfl, hout.stream⟩

theorem chunkLines_onTarget (fuel : ℕ) (b : Body) (buffer : Bytes) :
    Ends (Request.chunkLines fuel b buffer) (OnTarget b) := by
  induction fuel generalizing b buffer with
  | zero => exact ends_pure.mpr (OnTarget.of_same (SameTarget.refl _) rfl)
  | succ fuel ih =>
    obtain ⟨r, filestream⟩ := b
    rw [Request.chunkLines_succ]
    split
    · split
      · exact ends_ok.mpr (OnTarget.of_same ⟨rfl, rfl⟩ rfl)
      · exact ends_ok.mpr (OnTarget.of_same (SameTarget.refl _) rfl)
    · split
      · exact chunkData_onTarget ih _ _ _
      · exact chunkSize_onTarget ih _ _ _

theorem parseMesured_onTarget (b : Body) (buffer : Bytes) :
    Ends (Request.parseMesured b buffer) (OnTarget b) := by
  obtain ⟨r, filestream⟩ := b
  unfold Request.parseMesured
  apply Ends.bind_any
  intro extract
  apply Ends.bind_any
  intro rest
  dsimp only
  split
  · exact ends_pure.mpr ⟨⟨rfl, rfl⟩, fun hsome => write_ne_none (close_ne_none hsome)⟩
  · exact ends_pure.mpr ⟨⟨rfl, rfl⟩, write_ne_none⟩

theorem parseBody_onTarget (b : Body) (buffer : Bytes) :
    Ends (Request.parseBody b buffer) (OnTarget b) := by
  obtain ⟨r, filestream⟩ := b
  unfold Request.parseBody
  dsimp only
  split
  · exact ends_pure.mpr (OnTarget.of_same (SameTarget.refl _) rfl)
  · have henter : SameTarget r (if r.b_status = .new then { r with b_status := .ongoing } else r) := by
      split
      · exact ⟨rfl, rfl⟩
      · exact SameTarget.refl r
    generalize (if r.b_status = .new then { r with b_status := .ongoing } else r) = s at henter ⊢
    split
    · unfold Request.parseChunked
      dsimp only
      split
      · exact ends_pure.mpr (OnTarget.of_same henter rfl)
      · refine (chunkLines_onTarget _ _ _).mono ?_
        intro out hout
        exact ⟨henter.trans (hout.toSameTarget.congr rfl rfl), hout.stream⟩
    · refine (parseMesured_onTarget _ _).mono ?_
      intro out hout
      exact ⟨henter.trans hout.toSameTarget, hout.stream⟩

theorem trailerLines_onTarget (fuel : ℕ) (r : Request) (buffer : Bytes) :
    Ends (r.trailerLines fuel buffer) fun out => SameTarget r out.2.1 := by
  induction fuel generalizing r buffer with
  | zero => exact ends_pure.mpr (SameTarget.refl r)
  | succ fuel ih =>
    unfold Request.trailerLines
    split
    · exact ends_pure.mpr (checkSizes_sameTarget r)
    · rw [Request.getLine_eq]
      refine Ends.bind (ends_ok.mpr rfl) ?_
      intro out hout
      subst hout
      cases cutAt 13 10 (r.line ++ buffer) with
      | none => exact ends_pure.mpr ((checkSizes_sameTarget _).congr rfl rfl)
      | some cut =>
        obtain ⟨line, rest⟩ := cut
        dsimp only
        rw [if_neg (by simp)]
        split
        · exact ends_pure.mpr ⟨rfl, rfl⟩
        · rw [getHeaderName_eq]
          refine Ends.bind (ends_ok.mpr rfl) ?_
          intro name hname
          subst hname
          split
          · exact ends_pure.mpr ⟨rfl, rfl⟩
          · split
            · exact ends_pure.mpr ⟨rfl, rfl⟩
            · split
              · exact ends_pure.mpr ⟨rfl, rfl⟩
              · refine (ih _ _).mono ?_
                intro out hout
                exact hout.congr rfl rfl

theorem parseTrailerHeaders_onTarget (r : Request) (buffer : Bytes) :
    Ends (r.parseTrailerHeaders buffer) fun out => SameTarget r out.2.1 := by
  unfold Request.parseTrailerHeaders
  split
  · exact ends_pure.mpr (SameTarget.refl r)
  · split
    · exact ends_pure.mpr ⟨rfl, rfl⟩
    · refine (trailerLines_onTarget _ _ _).mono ?_
      intro out hout
      exact hout.congr rfl rfl

theorem parseInput_onTarget (b : Body) (buffer : Bytes) :
    Ends (Request.parseInput b buffer) (OnTarget b) := by
  obtain ⟨r, filestream⟩ := b
  unfold Request.parseInput
  dsimp only
  split
  · exact ends_pure.mpr (OnTarget.of_same (SameTarget.refl _) rfl)
  · refine Ends.bind (parseBody_onTarget _ _) ?_
    intro out hout
    obtain ⟨res, ⟨r', filestream'⟩, rest⟩ := out
    dsimp only
    split
    · exact ends_pure.mpr hout
    · refine Ends.bind (parseTrailerHeaders_onTarget _ _) ?_
      intro out' hout'
      exact ends_pure.mpr ⟨hout.toSameTarget.trans hout', hout.stream⟩

end Webserveau.BodyTargets
