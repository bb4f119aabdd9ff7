import RenderStream.Proofs.Culling
import RenderStream.Proofs.Stride

/-!
# Better quality only adds

Two compilations of one list under two profiles pass the same states and the same places of
particles, whatever they leave out: both are moved by the commands of the list, not by the commands
that are kept. So they are compared position by position (`CompiledList.Progress.Below`), where they
differ in the verdicts for quality only. There the better profile keeps what the other one keeps
(`Profile.ofLevels_within`): its distance reaches as far, and its stride holds the other stride.
-/

namespace RenderStream

/-! ## Profiles -/

/-- What one profile keeps, the other one keeps too. -/
def Profile.Within (low high : Profile) : Prop :=
  ∀ p ordinal, Culling.lossyVerdict low p ordinal = .keep →
    Culling.lossyVerdict high p ordinal = .keep

/-- A higher level culls no nearer. -/
theorem cullDistanceAt_mono {low high : Nat} (h : low ≤ high) :
    Profile.cullDistanceAt low ≤ Profile.cullDistanceAt high := by
  have hbest (n : Nat) : Profile.cullDistanceAt (n + 2) = .infinity false := rfl
  match low, high with
  | 0, 0 | 0, 1 | 1, 1 => decide
  | 0, _ + 2 | 1, _ + 2 | _ + 2, _ + 2 =>
    simp only [hbest]
    decide
  | 1, 0 | _ + 2, 0 | _ + 2, 1 => omega

/-- Levels at least as good on the two axes that culling looks at keep at least as much. -/
theorem Profile.ofLevels_within {low high : Levels} (hparticles : low.particles ≤ high.particles)
    (hdetail : low.detail ≤ high.detail) (g g' : Nat) :
    (Profile.ofLevels low g).Within (.ofLevels high g') := by
  intro p ordinal hkeep
  unfold Culling.lossyVerdict at hkeep ⊢
  cases hkind : p.kind with
  | world => rfl
  | entity =>
    simp only [hkind] at hkeep
    split at hkeep
    · cases hkeep
    · next hnear =>
      refine if_neg fun hfar => hnear ?_
      exact Binary.lt_of_le_of_lt (cullDistanceAt_mono hdetail) hfar
  | particle =>
    simp only [hkind] at hkeep
    split at hkeep
    · next hlow => exact if_pos (keepOnStride_mono hparticles hlow)
    · cases hkeep

/-! ## Counts -/

/-- The verdict as far as quality has no part in it. -/
def Verdict.plain : Verdict → Verdict
  | .distant | .decimated => .keep
  | v => v

/-- The counts in which quality has no part. -/
def CullCounts.plain (c : CullCounts) : CullCounts := { c with distant := 0, decimated := 0 }

/-- What is recorded of the tests that all profiles share depends on these only. -/
theorem CullCounts.plain_record (c : CullCounts) (kind : PrimitiveKind) (v : Verdict) :
    (c.record kind v).plain = c.plain.record kind v.plain := by
  cases v <;> simp [plain, record, Verdict.plain]

namespace Culling

/-- The tests that all profiles share come first. -/
theorem test_plain (c : Culling) (p : Primitive) (ordinal : UInt32) :
    (c.test p ordinal).plain = ((c.plainVerdict? p).getD .keep).plain := by
  rw [test_eq]
  cases c.plainVerdict? p with
  | some v => rfl
  | none =>
    rw [Option.getD_none, Option.getD_none]
    rcases lossyVerdict_cases c.profile p ordinal with h | h | h <;> rw [h] <;> rfl

/-- Two states of culling that differ in quality at most, the first of the lower one. -/
structure Below (c d : Culling) : Prop where
  tolerances : c.tolerances = d.tolerances
  view : c.view = d.view
  profile : c.profile.Within d.profile
  counts : c.counts.plain = d.counts.plain

namespace Below

variable {c d : Culling}

/-- What is observed leaves one culling below the other. -/
theorem observe (h : c.Below d) (s : Slot) (v : SlotValue) :
    (c.observe s v).Below (d.observe s v) :=
  ⟨h.tolerances, by simp only [Culling.observe, h.view], h.profile, h.counts⟩

/-- The tests that all profiles share give the same verdict. -/
theorem plainVerdict?_eq (h : c.Below d) (p : Primitive) :
    c.plainVerdict? p = d.plainVerdict? p := by
  simp only [plainVerdict?, h.tolerances, h.view]

/-- What is kept below is kept above. -/
theorem test_keep (h : c.Below d) {p : Primitive} {ordinal : UInt32}
    (hkeep : c.test p ordinal = .keep) : d.test p ordinal = .keep := by
  rw [test_eq, h.plainVerdict?_eq] at hkeep
  rw [test_eq]
  cases hplain : d.plainVerdict? p with
  | some v => rwa [hplain] at hkeep
  | none =>
    rw [hplain] at hkeep
    exact h.profile p ordinal hkeep

/-- A judgement leaves one culling below the other. -/
theorem judge (h : c.Below d) (p : Primitive) (ordinal : UInt32) :
    (c.judge p ordinal).1.Below (d.judge p ordinal).1 := by
  refine ⟨h.tolerances, h.view, h.profile, ?_⟩
  change (c.counts.record p.kind (c.test p ordinal)).plain =
    (d.counts.record p.kind (d.test p ordinal)).plain
  rw [CullCounts.plain_record, CullCounts.plain_record, test_plain, test_plain, h.counts,
    h.plainVerdict?_eq]

end Below

end Culling

/-! ## Compilations -/

def Command.isDraw : Command → Bool
  | .draw _ => true
  | _ => false

/-- The commands that culling does not rule on. -/
def Command.passed (cs : List Command) : List Command := cs.filter (!·.isDraw)

namespace CompiledList

namespace Progress

/-- Two compilations at the same place of a list, the first under the lower quality. -/
structure Below (s t : Progress) : Prop where
  culling : s.culling.Below t.culling
  ordinal : s.ordinal = t.ordinal

/-- A command that is kept below is kept above, and the one stays below the other. -/
theorem Below.step {s t : Progress} (h : s.Below t) (c : Command) :
    (s.step c).1.Below (t.step c).1 ∧ ((s.step c).2 = true → (t.step c).2 = true) := by
  obtain ⟨hculling, hordinal⟩ := h
  cases c with
  | set slot v => exact ⟨⟨hculling.observe slot v, hordinal⟩, id⟩
  | draw x =>
    have hjudge := hculling.judge x t.ordinal
    have hkept : s.culling.test x t.ordinal = .keep → t.culling.test x t.ordinal = .keep :=
      hculling.test_keep
    rw [step_draw, step_draw, hordinal]
    by_cases hlow : s.culling.test x t.ordinal = .keep
    · rw [if_pos hlow, if_pos (hkept hlow)]
      exact ⟨⟨hjudge, rfl⟩, id⟩
    · rw [if_neg hlow]
      split
      · exact ⟨⟨hjudge, rfl⟩, fun _ => rfl⟩
      · exact ⟨⟨hjudge, rfl⟩, id⟩
  | clear color depth => exact ⟨⟨hculling, hordinal⟩, id⟩
  | barrier => exact ⟨⟨hculling, hordinal⟩, id⟩

/-- What is kept below is kept above, in the same order. -/
theorem Below.run (cs : List Command) : ∀ {s t : Progress}, s.Below t →
    (s.run cs).1.Sublist (t.run cs).1 ∧ (s.run cs).2.Below (t.run cs).2 := by
  induction cs with
  | nil => exact fun h => ⟨.slnil, h⟩
  | cons c cs ih =>
    intro s t h
    obtain ⟨hnext, hsent⟩ := h.step c
    obtain ⟨hrest, hfinal⟩ := ih hnext
    refine ⟨?_, hfinal⟩
    simp only [Progress.run]
    split
    · next hlow =>
      rw [if_pos (hsent hlow)]
      exact hrest.cons_cons c
    · split
      · exact hrest.cons c
      · exact hrest

/-- Whatever is not a draw is sent, in order. -/
theorem run_passed (cs : List Command) (s : Progress) :
    Command.passed (s.run cs).1 = Command.passed cs := by
  induction cs generalizing s with
  | nil => rfl
  | cons c cs ih =>
    have hrest := ih (s.step c).1
    simp only [run]
    cases c with
    | draw x =>
      rw [apply_ite Command.passed]
      simpa [Command.passed, Command.isDraw] using hrest
    | set | clear | barrier => exact congrArg (List.cons _) hrest

end Progress

/-- Levels at least as good on the axes that culling looks at keep, in order, all that the others
keep of a list. Both keep what is no draw, and both count the same but for what is left out for
quality. -/
theorem compile_nested {c : Culling} {low high : Levels}
    (hparticles : low.particles ≤ high.particles) (hdetail : low.detail ≤ high.detail)
    (g g' : Nat) (cs : List Command) :
    let l := compile { c with profile := .ofLevels low g } cs
    let h := compile { c with profile := .ofLevels high g' } cs
    l.commands.Sublist h.commands ∧
      Command.passed l.commands = Command.passed cs ∧
      Command.passed h.commands = Command.passed cs ∧
      l.counts.tested = h.counts.tested ∧ l.counts.particles = h.counts.particles ∧
      l.counts.entities = h.counts.entities ∧ l.counts.degenerate = h.counts.degenerate ∧
      l.counts.outsideScissor = h.counts.outsideScissor ∧
      l.counts.backFacing = h.counts.backFacing := by
  intro l h
  have hstart : Progress.Below
      { culling := { c with profile := .ofLevels low g, counts := {} } }
      { culling := { c with profile := .ofLevels high g', counts := {} } } :=
    ⟨⟨rfl, rfl, Profile.ofLevels_within hparticles hdetail g g', rfl⟩, rfl⟩
  obtain ⟨hsublist, hfinal⟩ := hstart.run cs
  have hcounts : l.counts.plain = h.counts.plain := hfinal.culling.counts
  simp only [CullCounts.plain, CullCounts.mk.injEq] at hcounts
  obtain ⟨htested, hdegenerate, houtside, hback, -, -, hentities, hparts⟩ := hcounts
  exact ⟨hsublist, Progress.run_passed cs _, Progress.run_passed cs _, htested, hparts, hentities,
    hdegenerate, houtside, hback⟩

/-- Two particles and an entity, among commands that are no draws. -/
def Demo.swarm : List Command :=
  let corner : List Vertex :=
    [{ x := 0, y := 0, depth := 2000 }, { x := 4, y := 0, depth := 2000 },
      { x := 0, y := 4, depth := 2000 }]
  let particle : Command := .draw { vertices := corner, kind := .particle }
  [.set .scissor (.rect ⟨0, 0, 8, 8⟩), particle, particle, .clear .black none,
    .draw { vertices := corner, kind := .entity }, .barrier]

/-- A swarm compiled at the worst levels and at better ones. -/
theorem compile_nested_demo :
    let c : Culling := { tolerances := {} }
    let l := compile { c with profile := .ofLevels .worst 0 } Demo.swarm
    let h := compile { c with profile := .ofLevels { particles := 2, detail := 1 } 0 } Demo.swarm
    l.commands.Sublist h.commands ∧ l.commands.length = 3 ∧ h.commands.length = 5 := by
  intro c l h
  exact ⟨(compile_nested (by decide) (by decide) 0 0 Demo.swarm).1, by decide +kernel,
    by decide +kernel⟩

end CompiledList

end RenderStream
