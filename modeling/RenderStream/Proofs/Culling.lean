import RenderStream.CompiledList
import RenderStream.Proofs.Encoding

/-!
# What culling depends on

Verdicts depend on the tolerances, the host state that culling has seen, and two numbers of the
profile (`Culling.Sees`). All of them but the tolerances can be read back from the bytes over which
the fingerprint of a culling state is taken, and together with the commands they decide the compiled
form of a display list (`CompiledList.compile_congr`).
-/

namespace RenderStream

open Encoding

/-- The bytes of a scissor that may be absent. -/
theorem scissor_prefixFree : PrefixFree fun scissor : Option Rect =>
    match scissor with
    | some r => 1 :: rect r
    | none => [0] :=
  prefixFree_optional rect_prefixFree rfl fun _ => rfl

namespace Culling

/-! ## What verdicts depend on -/

/-- Two culling states that agree in all that verdicts depend on. -/
structure Sees (c d : Culling) : Prop where
  tolerances : c.tolerances = d.tolerances
  view : c.view = d.view
  keepRatio : c.profile.keepRatio = d.profile.keepRatio
  cullDistance : c.profile.cullDistance = d.profile.cullDistance

/-- The bytes of a culling state tell all that verdicts depend on, tolerances apart. -/
theorem eq_of_bytes {c d : Culling} (h₀ : c.bytes = d.bytes) :
    c.view = d.view ∧ c.profile.keepRatio = d.profile.keepRatio ∧
      c.profile.cullDistance = d.profile.cullDistance := by
  obtain ⟨_, ⟨scissor, mode, front⟩, p, _⟩ := c
  obtain ⟨_, ⟨scissor', mode', front'⟩, q, _⟩ := d
  rw [← List.append_nil (bytes _), ← List.append_nil (bytes ⟨_, ⟨scissor', _, _⟩, _, _⟩)] at h₀
  simp only [bytes, List.append_assoc] at h₀
  obtain ⟨rfl, h₁⟩ := scissor_prefixFree _ _ _ _ h₀
  obtain ⟨rfl, h₂⟩ := cullMode_prefixFree _ _ _ _ h₁
  obtain ⟨rfl, h₃⟩ := winding_prefixFree _ _ _ _ h₂
  obtain ⟨hratio, h₄⟩ := single_prefixFree _ _ _ _ h₃
  obtain ⟨hdistance, -⟩ := single_prefixFree _ _ _ _ h₄
  exact ⟨rfl, hratio, hdistance⟩

/-- Under the same tolerances the bytes of a culling state leave out nothing that verdicts depend
on. -/
theorem sees_of_bytes {c d : Culling} (ht : c.tolerances = d.tolerances)
    (h : c.bytes = d.bytes) : c.Sees d := by
  obtain ⟨hview, hratio, hdistance⟩ := eq_of_bytes h
  exact ⟨ht, hview, hratio, hdistance⟩

namespace Sees

variable {c d : Culling}

protected theorem rfl : c.Sees c := ⟨rfl, rfl, rfl, rfl⟩

/-- Counts are not looked at. -/
theorem counted (h : c.Sees d) (m n : CullCounts) :
    Sees { c with counts := m } { d with counts := n } := ⟨h.1, h.2, h.3, h.4⟩

/-- What is observed keeps two cullings seeing alike. -/
theorem observe (h : c.Sees d) (s : Slot) (v : SlotValue) : (c.observe s v).Sees (d.observe s v) :=
  ⟨h.tolerances, by simp only [Culling.observe, h.view], h.keepRatio, h.cullDistance⟩

/-- Equal sights lead to equal verdicts. -/
theorem test (h : c.Sees d) (p : Primitive) (ordinal : UInt32) :
    c.test p ordinal = d.test p ordinal := by
  simp only [Culling.test, lossyVerdict, h.tolerances, h.view, h.keepRatio, h.cullDistance]

end Sees

end Culling

/-! ## Verdicts -/

/-- The winding by which faces are told apart: what is not positive counts as clockwise. -/
def Primitive.facing (p : Primitive) : Winding :=
  if (0 : Single) < p.signedArea then .counterClockwise else .clockwise

namespace Culling

/-- The verdict of the tests that do not look at the profile, if one of them fails. -/
def plainVerdict? (c : Culling) (p : Primitive) : Option Verdict :=
  if p.signedArea.abs ≤ c.tolerances.areaEpsilon then some .degenerate
  else if c.view.scissor.any fun r => p.bounds.beyond (r.expand c.tolerances.scissorTolerance) then
    some .outsideScissor
  else if c.view.rejects p.facing then some .backFacing
  else none

/-- Quality is asked last. -/
theorem test_eq (c : Culling) (p : Primitive) (ordinal : UInt32) :
    c.test p ordinal = (c.plainVerdict? p).getD (lossyVerdict c.profile p ordinal) := by
  simp only [test, plainVerdict?, Primitive.facing]
  split
  · rfl
  · split
    · rfl
    · split <;> split <;> rfl

/-- From the best level on every particle is kept. -/
theorem keepOnStride_best (ordinal : UInt32) (n : Nat) :
    keepOnStride ordinal (Profile.keepRatioAt (n + 3)) = true := by
  have hone : (1 : Single) ≤ 1 := by decide
  exact if_pos hone

/-- Quality leaves out what is far or off the stride, and nothing else. -/
theorem lossyVerdict_cases (profile : Profile) (p : Primitive) (ordinal : UInt32) :
    lossyVerdict profile p ordinal = .keep ∨ lossyVerdict profile p ordinal = .distant ∨
      lossyVerdict profile p ordinal = .decimated := by
  unfold lossyVerdict
  cases p.kind with
  | world => exact .inl rfl
  | entity =>
    dsimp only
    split
    · exact .inr (.inl rfl)
    · exact .inl rfl
  | particle =>
    dsimp only
    split
    · exact .inl rfl
    · exact .inr (.inr rfl)

end Culling

/-! ## Compiled lists -/

namespace CompiledList

open Culling

/-- Two compilations at the same point of a list. -/
structure Progress.Sees (s t : Progress) : Prop where
  culling : s.culling.Sees t.culling
  counts : s.culling.counts = t.culling.counts
  ordinal : s.ordinal = t.ordinal
  covered : s.covered = t.covered
  draws : s.draws = t.draws

/-- A draw is judged, and what is kept is measured. -/
theorem Progress.step_draw (s : Progress) (x : Primitive) :
    s.step (.draw x) =
      if s.culling.test x s.ordinal = .keep then
        ({ culling := (s.culling.judge x s.ordinal).1, ordinal := nextOrdinal s.ordinal x,
           covered := s.covered + x.area, draws := s.draws + 1 }, true)
      else
        ({ s with culling := (s.culling.judge x s.ordinal).1, ordinal := nextOrdinal s.ordinal x },
          false) := rfl

/-- A command keeps two compilations seeing alike, and is kept by both or by none. -/
theorem Progress.Sees.step {s t : Progress} (h : s.Sees t) (c : Command) :
    (s.step c).1.Sees (t.step c).1 ∧ (s.step c).2 = (t.step c).2 := by
  obtain ⟨hculling, hcounts, hordinal, hcovered, hdraws⟩ := h
  cases c with
  | set slot v => exact ⟨⟨hculling.observe slot v, hcounts, hordinal, hcovered, hdraws⟩, rfl⟩
  | draw x =>
    have htest : s.culling.test x s.ordinal = t.culling.test x t.ordinal := by
      rw [hordinal, hculling.test]
    have hcounts' : (s.culling.judge x t.ordinal).1.counts =
        (t.culling.judge x t.ordinal).1.counts := by
      simp only [judge, hculling.test, hcounts]
    rw [Progress.step_draw, Progress.step_draw, htest, hordinal]
    by_cases hv : t.culling.test x t.ordinal = .keep
    · rw [if_pos hv, if_pos hv, hcovered, hdraws]
      exact ⟨⟨hculling.counted _ _, hcounts', rfl, rfl, rfl⟩, rfl⟩
    · rw [if_neg hv, if_neg hv]
      exact ⟨⟨hculling.counted _ _, hcounts', rfl, hcovered, hdraws⟩, rfl⟩
  | clear color depth => exact ⟨⟨hculling, hcounts, hordinal, hcovered, hdraws⟩, rfl⟩
  | barrier => exact ⟨⟨hculling, hcounts, hordinal, hcovered, hdraws⟩, rfl⟩

/-- Two compilations that see alike keep the same commands. -/
theorem Progress.Sees.run : ∀ (cs : List Command) {s t : Progress}, s.Sees t →
    (s.run cs).1 = (t.run cs).1 ∧ (s.run cs).2.Sees (t.run cs).2
  | [], _, _, h => ⟨rfl, h⟩
  | c :: cs, s, t, h => by
    obtain ⟨hnext, hsent⟩ := h.step c
    obtain ⟨hout, hfinal⟩ := Progress.Sees.run cs hnext
    simp only [Progress.run, hsent, hout]
    exact ⟨trivial, hfinal⟩

/-- The compiled form of a list is decided by its commands and by what verdicts depend on. -/
theorem compile_congr {c d : Culling} (h : c.Sees d) (cs : List Command) :
    compile c cs = compile d cs := by
  have start : Progress.Sees { culling := { c with counts := {} } }
      { culling := { d with counts := {} } } := ⟨h.counted _ _, rfl, rfl, rfl, rfl⟩
  obtain ⟨hout, hfinal⟩ := start.run cs
  simp only [compile, hout, hfinal.counts, hfinal.covered, hfinal.draws]

end CompiledList

end RenderStream
