import Mathlib.Algebra.Group.Nat.Defs
import Mathlib.Data.List.Induction
import RenderStream.Proofs.Culling

/-!
# Counts as tallies

The counts of culling are the tally of the rulings that were made: `CullCounts.tally_eq` gives every
count as a number of rulings. Adding the counts of a compiled list comes to the same as ruling on
its draws one by one (`tally_append`), and every draw of a list is ruled on once, whether it is sent
or left out (`CompiledList.compile_sifts`).
-/

namespace RenderStream

/-! ## Commands by kind -/

namespace Command

/-- Whether it is a state write. -/
def isSet : Command → Bool
  | .set _ _ => true
  | _ => false

def primitive? : Command → Option Primitive
  | .draw x => some x
  | _ => none

/-- What is drawn by a sequence of commands. -/
def draws (cs : List Command) : List Primitive := cs.filterMap primitive?

/-- The number of state writes in a sequence of commands. -/
def sets (cs : List Command) : Nat := cs.countP isSet

@[simp] theorem draws_append (cs ds : List Command) : draws (cs ++ ds) = draws cs ++ draws ds :=
  List.filterMap_append

@[simp] theorem sets_append (cs ds : List Command) : sets (cs ++ ds) = sets cs + sets ds :=
  List.countP_append

/-- There are no more draws than commands. -/
theorem draws_length_le (cs : List Command) : (draws cs).length ≤ cs.length :=
  List.length_filterMap_le _ _

/-- There are no more state writes than commands. -/
theorem sets_le (cs : List Command) : sets cs ≤ cs.length := List.countP_le_length

/-- Where there are state writes only, all are state writes and nothing is drawn. -/
theorem of_all_sets {cs : List Command} (h : ∀ c ∈ cs, c.isSet = true) :
    sets cs = cs.length ∧ draws cs = [] := by
  refine ⟨List.countP_eq_length.2 h, List.filterMap_eq_nil_iff.2 fun c hc => ?_⟩
  cases c with
  | set s v => rfl
  | draw | clear | barrier => cases h _ hc

end Command

/-! ## Rulings -/

/-- What was decided about a primitive. -/
structure Ruling where
  kind : PrimitiveKind
  verdict : Verdict
deriving DecidableEq

namespace Ruling

def kept (r : Ruling) : Bool := r.verdict = .keep

/-- Only entities are too far away, and only particles are off the stride. -/
structure Fits (r : Ruling) : Prop where
  distant : r.verdict = .distant → r.kind = .entity
  decimated : r.verdict = .decimated → r.kind = .particle

end Ruling

/-- Rulings on what is drawn by a sequence of commands, in order. -/
structure Rules (cs : List Command) (rs : List Ruling) : Prop where
  kinds : rs.map Ruling.kind = (Command.draws cs).map Primitive.kind
  fits : ∀ r ∈ rs, r.Fits

/-- Commands without a draw need no ruling. -/
theorem rules_nil {cs : List Command} (h : Command.draws cs = []) : Rules cs [] :=
  ⟨by rw [h]; rfl, nofun⟩

namespace Rules

variable {cs ds : List Command} {rs ss : List Ruling}

/-- Rulings on two lists of commands are rulings on both. -/
theorem append (h : Rules cs rs) (h' : Rules ds ss) : Rules (cs ++ ds) (rs ++ ss) := by
  refine ⟨?_, fun r hr => ?_⟩
  · rw [List.map_append, h.kinds, h'.kinds, Command.draws_append, List.map_append]
  · rcases List.mem_append.1 hr with hr | hr
    · exact h.fits r hr
    · exact h'.fits r hr

/-- Every draw has a ruling. -/
theorem length_eq (h : Rules cs rs) : rs.length = (Command.draws cs).length := by
  rw [← List.length_map Ruling.kind, h.kinds, List.length_map]

/-- As many rulings on a kind as primitives of the kind. -/
theorem count_kind (h : Rules cs rs) (kind : PrimitiveKind) :
    rs.countP (·.kind = kind) = (Command.draws cs).countP (·.kind = kind) := by
  have hmap := congrArg (List.countP (· = kind)) h.kinds
  rwa [List.countP_map, List.countP_map] at hmap

/-- No more verdicts of a sort than rulings on the kind that they are given to. -/
theorem count_le (h : Rules cs rs) :
    rs.countP (·.verdict = .distant) ≤ rs.countP (·.kind = .entity) ∧
      rs.countP (·.verdict = .decimated) ≤ rs.countP (·.kind = .particle) := by
  refine ⟨List.countP_mono_left fun r hr hv => ?_, List.countP_mono_left fun r hr hv => ?_⟩
  · exact decide_eq_true ((h.fits r hr).distant (of_decide_eq_true hv))
  · exact decide_eq_true ((h.fits r hr).decimated (of_decide_eq_true hv))

end Rules

namespace Culling

def ruling (c : Culling) (x : Primitive) (ordinal : UInt32) : Ruling := ⟨x.kind, c.test x ordinal⟩

/-- A ruling names the test that fails, if one does. -/
theorem ruling_fits (c : Culling) (x : Primitive) (ordinal : UInt32) :
    (c.ruling x ordinal).Fits := by
  have hlossy : Ruling.Fits ⟨x.kind, lossyVerdict c.profile x ordinal⟩ := by
    rw [lossyVerdict]
    cases hkind : x.kind with
    | world => constructor <;> intro h <;> cases h
    | entity =>
      refine ⟨fun _ => rfl, fun h => ?_⟩
      dsimp only at h
      split at h <;> cases h
    | particle =>
      refine ⟨fun h => ?_, fun _ => rfl⟩
      dsimp only at h
      split at h <;> cases h
  have hverdict : ∀ v, v ≠ .distant → v ≠ .decimated → Ruling.Fits ⟨x.kind, v⟩ :=
    fun v hd ht => ⟨fun h => absurd h hd, fun h => absurd h ht⟩
  rw [ruling, test_eq]
  unfold plainVerdict?
  split
  · exact hverdict .degenerate (by decide) (by decide)
  · split
    · exact hverdict .outsideScissor (by decide) (by decide)
    · split
      · exact hverdict .backFacing (by decide) (by decide)
      · exact hlossy

/-- A draw is ruled on. -/
theorem rules_draw (c : Culling) (x : Primitive) (ordinal : UInt32) :
    Rules [.draw x] [c.ruling x ordinal] :=
  ⟨rfl, fun _ hr => List.mem_singleton.1 hr ▸ c.ruling_fits x ordinal⟩

end Culling

/-! ## Tallies -/

namespace CullCounts

theorem add_zero (c : CullCounts) : c.add {} = c := by
  simp [add]

theorem zero_add (c : CullCounts) : add {} c = c := by
  simp [add]

/-- Counts of culling are added in any order. -/
theorem add_assoc (c d e : CullCounts) : (c.add d).add e = c.add (d.add e) := by
  simp only [add, UInt32.add_assoc]

/-- Counting behind a sum is counting in its second part. -/
theorem add_record (c d : CullCounts) (kind : PrimitiveKind) (v : Verdict) :
    (c.add d).record kind v = c.add (d.record kind v) := by
  simp only [add, record, UInt32.add_assoc]

/-- The counts of rulings. -/
def tally (rs : List Ruling) : CullCounts := rs.foldl (fun c r => c.record r.kind r.verdict) {}

/-- The last ruling is recorded last. -/
theorem tally_concat (rs : List Ruling) (r : Ruling) :
    tally (rs ++ [r]) = (tally rs).record r.kind r.verdict := List.foldl_append

/-- Tallies of rulings are added. -/
theorem tally_append (rs ss : List Ruling) : tally (rs ++ ss) = (tally rs).add (tally ss) := by
  induction ss using List.reverseRecOn with
  | nil => rw [List.append_nil, tally, tally, List.foldl_nil, add_zero]
  | append_singleton ss s ih => rw [← List.append_assoc, tally_concat, ih, add_record, tally_concat]

/-- A single ruling is recorded on nothing. -/
theorem tally_singleton (r : Ruling) : tally [r] = record {} r.kind r.verdict := rfl

/-- Every count is a number of rulings. -/
theorem tally_eq (rs : List Ruling) :
    tally rs =
      { tested := .ofNat rs.length
        degenerate := .ofNat (rs.countP (·.verdict = .degenerate))
        outsideScissor := .ofNat (rs.countP (·.verdict = .outsideScissor))
        backFacing := .ofNat (rs.countP (·.verdict = .backFacing))
        distant := .ofNat (rs.countP (·.verdict = .distant))
        decimated := .ofNat (rs.countP (·.verdict = .decimated))
        entities := .ofNat (rs.countP (·.kind = .entity))
        particles := .ofNat (rs.countP (·.kind = .particle)) } := by
  have hone : ∀ c : Prop, ∀ [Decidable c], (if c then 1 else 0 : UInt32) =
      .ofNat (if c then 1 else 0) := fun c _ => by split <;> rfl
  induction rs using List.reverseRecOn with
  | nil => rfl
  | append_singleton rs r ih =>
    rw [tally_concat, ih]
    simp only [record, hone, List.length_append, List.length_singleton, List.countP_append,
      List.countP_singleton, UInt32.ofNat_add, decide_eq_true_eq]
    rfl

/-- The rulings that discard: one verdict after the other. -/
theorem count_discarded (rs : List Ruling) :
    rs.countP (·.verdict = .degenerate) + rs.countP (·.verdict = .outsideScissor) +
        rs.countP (·.verdict = .backFacing) + rs.countP (·.verdict = .distant) +
        rs.countP (·.verdict = .decimated) + rs.countP Ruling.kept = rs.length := by
  induction rs with
  | nil => rfl
  | cons r rs ih =>
    have hone : (if r.verdict = .degenerate then 1 else 0) +
        (if r.verdict = .outsideScissor then 1 else 0) +
        (if r.verdict = .backFacing then 1 else 0) + (if r.verdict = .distant then 1 else 0) +
        (if r.verdict = .decimated then 1 else 0) + (if r.kept then 1 else 0) = 1 := by
      rw [Ruling.kept]
      cases r.verdict <;> rfl
    simp only [List.countP_cons, List.length_cons, decide_eq_true_eq]
    omega

/-- What is not discarded is kept. -/
theorem discarded_tally (rs : List Ruling) :
    (tally rs).discarded = .ofNat (rs.length - rs.countP Ruling.kept) := by
  rw [tally_eq, discarded, ← count_discarded rs, Nat.add_sub_cancel]
  simp only [UInt32.ofNat_add]

/-- Counts of rulings that are not too many are their numbers. -/
theorem toNat_tally {rs : List Ruling} (h : rs.length < 2 ^ 32) :
    (tally rs).tested.toNat = rs.length ∧
      (tally rs).discarded.toNat = rs.length - rs.countP Ruling.kept ∧
      (tally rs).distant.toNat = rs.countP (·.verdict = .distant) ∧
      (tally rs).decimated.toNat = rs.countP (·.verdict = .decimated) ∧
      (tally rs).entities.toNat = rs.countP (·.kind = .entity) ∧
      (tally rs).particles.toNat = rs.countP (·.kind = .particle) := by
  have hcount : ∀ p : Ruling → Bool, (UInt32.ofNat (rs.countP p)).toNat = rs.countP p := fun p =>
    UInt32.toNat_ofNat_of_lt' (Nat.lt_of_le_of_lt List.countP_le_length h)
  rw [discarded_tally, tally_eq]
  exact ⟨UInt32.toNat_ofNat_of_lt' h,
    UInt32.toNat_ofNat_of_lt' (Nat.lt_of_le_of_lt (Nat.sub_le _ _) h),
    hcount _, hcount _, hcount _, hcount _⟩

end CullCounts

/-! ## Compiled lists -/

/-- What culling makes of commands: `sent` is left of them, and `rs` is counted. -/
structure Sifts (cs sent : List Command) (rs : List Ruling) (before after : CullCounts) : Prop where
  rules : Rules cs rs
  counts : after = before.add (.tally rs)
  draws : (Command.draws sent).length = rs.countP Ruling.kept
  sets : Command.sets sent = Command.sets cs

/-- Two lists of commands are sifted one after the other. -/
theorem Sifts.append {cs ds sent sent' : List Command} {rs ss : List Ruling} {c d e : CullCounts}
    (h : Sifts cs sent rs c d) (h' : Sifts ds sent' ss d e) :
    Sifts (cs ++ ds) (sent ++ sent') (rs ++ ss) c e where
  rules := h.rules.append h'.rules
  counts := by rw [h'.counts, h.counts, CullCounts.add_assoc, CullCounts.tally_append]
  draws := by
    rw [Command.draws_append, List.length_append, h.draws, h'.draws, List.countP_append]
  sets := by rw [Command.sets_append, Command.sets_append, h.sets, h'.sets]

namespace CompiledList

/-- A command that is sent comes in front of what is sent of the rest. -/
theorem Progress.run_sent (s : Progress) (c : Command) (cs : List Command) :
    (s.run (c :: cs)).1 = (if (s.step c).2 then [c] else []) ++ ((s.step c).1.run cs).1 := by
  simp only [run]
  split <;> rfl

/-- A draw is ruled on, and sent if it is kept; everything else is sent. -/
theorem Progress.step_sifts (s : Progress) (c : Command) :
    ∃ rs, Sifts [c] (if (s.step c).2 then [c] else []) rs s.culling.counts
      (s.step c).1.culling.counts := by
  cases c with
  | draw x =>
    refine ⟨[s.culling.ruling x s.ordinal], s.culling.rules_draw x s.ordinal, ?_, ?_, ?_⟩
    · rw [CullCounts.tally_singleton, ← CullCounts.add_record, CullCounts.add_zero, step_draw]
      split <;> rfl
    · rw [step_draw, List.countP_singleton, Ruling.kept, Culling.ruling]
      by_cases h : s.culling.test x s.ordinal = .keep
      · rw [if_pos h, if_pos (decide_eq_true h)]
        rfl
      · have hcut : ¬decide (s.culling.test x s.ordinal = .keep) = true := by
          rwa [decide_eq_true_eq]
        rw [if_neg h, if_neg hcut]
        rfl
    · rw [step_draw]
      split <;> rfl
  | set | clear | barrier => exact ⟨[], rules_nil rfl, (CullCounts.add_zero _).symm, rfl, rfl⟩

/-- Compiling sifts the commands of a list. -/
theorem Progress.run_sifts (cs : List Command) : ∀ s : Progress,
    ∃ rs, Sifts cs (s.run cs).1 rs s.culling.counts (s.run cs).2.culling.counts := by
  induction cs with
  | nil => exact fun s => ⟨[], rules_nil rfl, (CullCounts.add_zero _).symm, rfl, rfl⟩
  | cons c cs ih =>
    intro s
    obtain ⟨rs, hstep⟩ := s.step_sifts c
    obtain ⟨ss, hrest⟩ := ih (s.step c).1
    refine ⟨rs ++ ss, ?_⟩
    rw [s.run_sent]
    exact hstep.append hrest

/-- Compiling rules on every draw of a list once. -/
theorem compile_sifts (culling : Culling) (cs : List Command) :
    ∃ rs, Sifts cs (compile culling cs).commands rs {} (compile culling cs).counts :=
  Progress.run_sifts cs _

end CompiledList

end RenderStream
