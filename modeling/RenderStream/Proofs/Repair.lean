import Mathlib.Data.List.Forall2
import RenderStream.Proofs.Visible

/-!
# Repaired settings

The ranges of the settings are listed once, section by section (`ranges`). A range is about what is
judged on its own, a field or two fields that bound each other, and repair mends it: what was in
range is kept, and all else is brought into it (`Mends`). The ranges of a section leave out nothing
of it (`Covers`), so settings that are in range are left as they are, and so is what was repaired.
-/

namespace RenderStream

namespace Settings

/-! ## Values and records in range -/

section
variable {α : Type}

/-- What becomes of a value that is mended: it is in range, and if it was so before, it is the
same. -/
structure Mends (admits : α → Bool) (before after : α) : Prop where
  admitted : admits after
  kept : admits before → after = before

/-- What is in range is mended by being kept. -/
theorem Mends.refl {admits : α → Bool} {x : α} (h : admits x) : Mends admits x x :=
  ⟨h, fun _ => rfl⟩

def anything (_ : α) : Bool := true

variable [LE α] [DecidableLE α]

def atLeast (lo x : α) : Bool := lo ≤ x

def between (lo hi x : α) : Bool := lo ≤ x && x ≤ hi

end

/-- A value of a record, and which values are in range. -/
structure Range (σ : Type) where
  {Value : Type}
  value : σ → Value
  admits : Value → Bool

section
variable {σ : Type} {ranges : List (Range σ)} {s t : σ} {ss ts : List σ}

def InRange (ranges : List (Range σ)) (s : σ) : Prop := ∀ r ∈ ranges, r.admits (r.value s)

def Mended (ranges : List (Range σ)) (s t : σ) : Prop :=
  ∀ r ∈ ranges, Mends r.admits (r.value s) (r.value t)

/-- The ranges leave nothing of a record out. -/
def Covers (ranges : List (Range σ)) : Prop :=
  ∀ s t, (∀ r ∈ ranges, r.value s = r.value t) → s = t

/-- A mended record is in range. -/
theorem Mended.inRange (h : Mended ranges s t) : InRange ranges t := fun r hr => (h r hr).admitted

/-- A record that was in range is the same when it is mended. -/
theorem Mended.eq (h : Mended ranges s t) (hcovers : Covers ranges) (hs : InRange ranges s) :
    t = s :=
  hcovers t s fun r hr => (h r hr).kept (hs r hr)

/-- Every record of a mended list is in range. -/
theorem inRange_of_mended (h : List.Forall₂ (Mended ranges) ss ts) :
    ∀ t ∈ ts, InRange ranges t := by
  induction h with
  | nil => exact List.forall_mem_nil _
  | cons hfirst _ ih => exact List.forall_mem_cons.2 ⟨hfirst.inRange, ih⟩

/-- A list of records that were in range is the same when it is mended. -/
theorem eq_of_mended (h : List.Forall₂ (Mended ranges) ss ts) (hcovers : Covers ranges)
    (hs : ∀ s ∈ ss, InRange ranges s) : ts = ss := by
  induction h with
  | nil => rfl
  | cons hfirst _ ih =>
    obtain ⟨hs₁, hs₂⟩ := List.forall_mem_cons.1 hs
    rw [hfirst.eq hcovers hs₁, ih hs₂]

end

/-! ## The ranges -/

def Threading.ranges : List (Range Threading) := [
  ⟨(·.asyncGraphics), anything⟩,
  ⟨(·.asyncAudio), anything⟩,
  ⟨(·.useWorkers), anything⟩,
  ⟨(·.workerCount), between 0 64⟩,
  ⟨(·.graphicsDepth), between 1 3⟩,
  ⟨(·.audioDepth), between 1 3⟩,
  ⟨(·.parallelLists), anything⟩,
  ⟨(·.stallTime), atLeast 1⟩,
  ⟨(·.stallLimit), atLeast 1⟩]

def Batching.ranges : List (Range Batching) := [
  ⟨(·.batchCapacity), between 1 1048576⟩,
  ⟨(·.listCapacity), between 1 65536⟩,
  ⟨(·.failureLimit), atLeast 1⟩]

def Culling.ranges : List (Range Culling) := [
  ⟨(·.areaEpsilon), between 0 1⟩,
  ⟨(·.scissorTolerance), between 0 64⟩]

/-- Frames are calm below a pressure that is less than the one that drops a level, and that one is
a tenth or more. -/
def admitsPressures : Single × Single → Bool
  | (drop, raise) => (0.01 : Single) ≤ raise && raise < drop && between 0.1 100 drop

def Quality.ranges : List (Range Quality) := [
  ⟨(·.targetTime), between 1 1000⟩,
  ⟨fun q => (q.dropPressure, q.raisePressure), admitsPressures⟩,
  ⟨(·.raiseWindow), atLeast 1⟩,
  ⟨(·.entityBudget), atLeast 1⟩,
  ⟨(·.particleBudget), atLeast 1⟩,
  ⟨(·.overdrawBudget), between 0.1 1000⟩,
  ⟨(·.historyLength), between 1 10000⟩]

def admitsViewport (v : Viewport) : Bool := atLeast 1 v.width && atLeast 1 v.height

def SceneOverride.ranges : List (Range SceneOverride) := [
  ⟨(·.scene), anything⟩,
  ⟨(·.particles), Option.all (· ≤ 3)⟩,
  ⟨(·.shadows), anything⟩,
  ⟨(·.fog), anything⟩,
  ⟨(·.detail), Option.all (· ≤ 2)⟩]

/-- Every section is in range. -/
structure Valid (s : Settings) : Prop where
  threading : InRange Threading.ranges s.threading
  batching : InRange Batching.ranges s.batching
  culling : InRange Culling.ranges s.culling
  quality : InRange Quality.ranges s.quality
  viewport : admitsViewport s.viewport
  overrides : ∀ o ∈ s.overrides, InRange SceneOverride.ranges o

/-- Every section was mended, and so was each override in its place. -/
structure Repairs (s t : Settings) : Prop where
  host : t.host = s.host
  threading : Mended Threading.ranges s.threading t.threading
  batching : Mended Batching.ranges s.batching t.batching
  culling : Mended Culling.ranges s.culling t.culling
  quality : Mended Quality.ranges s.quality t.quality
  viewport : Mends admitsViewport s.viewport t.viewport
  overrides : List.Forall₂ (Mended SceneOverride.ranges) s.overrides t.overrides

/-! ## Values are mended -/

/-- An integer is mended by moving it to the nearer bound. -/
theorem mends_clampWord {lo hi : UInt64} (h : lo ≤ hi) (n : UInt64) :
    Mends (between lo hi) n (clampWord lo hi n) := by
  rw [UInt64.le_iff_toNat_le] at h
  constructor <;> simp only [between, clampWord, Bool.and_eq_true, decide_eq_true_eq,
    UInt64.le_iff_toNat_le, UInt64.lt_iff_toNat_lt]
  · split
    · omega
    · split <;> omega
  · intro hn
    rw [if_neg (by omega), if_neg (by omega)]

/-- A value that is replaced just when it is out of range. -/
theorem mends_ite {α : Type} {admits : α → Bool} {p : Prop} [Decidable p] {x d : α}
    (hd : admits d) (hp : p ↔ ¬admits x) : Mends admits x (if p then d else x) := by
  split
  · next hout => exact ⟨hd, fun hx => absurd hx (hp.1 hout)⟩
  · next hin => exact .refl (Decidable.not_not.1 fun hx => hin (hp.2 hx))

/-- A count of 32 bits is mended by making it one at least. -/
theorem mends_positive (n : UInt32) : Mends (atLeast 1) n (positive n) := by
  refine mends_ite rfl ?_
  rw [atLeast, decide_eq_true_eq]
  grind

/-- The stall time is mended like a count. -/
theorem mends_stallTime (n : UInt64) : Mends (atLeast 1) n (if n = 0 then 1 else n) := by
  refine mends_ite rfl ?_
  rw [atLeast, decide_eq_true_eq]
  grind

/-- Lying between two bounds is both comparisons, so it rules out what is no number. -/
theorem between_iff {lo hi x : Single} : between lo hi x = true ↔ lo ≤ x ∧ x ≤ hi := by
  rw [between, Bool.and_eq_true, decide_eq_true_eq, decide_eq_true_eq]

/-- A float is mended by the default when it is no number, and by the nearer bound otherwise. -/
theorem mends_clampFloat {lo hi d : Single} (h : lo ≤ hi) (hd : lo ≤ d ∧ d ≤ hi) (x : Single) :
    Mends (between lo hi) x (clampFloat lo hi d x) := by
  refine ⟨between_iff.2 (clampFloat_between h hd x), fun hx => ?_⟩
  obtain ⟨hlo, hhi⟩ := between_iff.1 hx
  obtain ⟨-, hnumber, -⟩ := Binary.le_iff.1 hlo
  rw [clampFloat, hnumber, if_neg Bool.false_ne_true, Binary.clamp_eq_self hlo hhi]

/-- The comparisons that two pressures have to pass. -/
theorem admitsPressures_iff {drop raise : Single} :
    admitsPressures (drop, raise) = true ↔
      (0.01 : Single) ≤ raise ∧ raise < drop ∧ 0.1 ≤ drop ∧ drop ≤ 100 := by
  simp only [admitsPressures, between, Bool.and_eq_true, decide_eq_true_eq, and_assoc]

/-- The two pressures are mended together: each by its own bounds, and both by the defaults when
they are not apart then. -/
theorem mends_pressures (q : Quality) :
    Mends admitsPressures (q.dropPressure, q.raisePressure) (pressures q) := by
  let d : Quality := {}
  have hdefaults : admitsPressures (d.dropPressure, d.raisePressure) = true := by decide
  have hdrop : Mends (between 0.1 100) q.dropPressure
      (clampFloat 0.1 100 d.dropPressure q.dropPressure) :=
    mends_clampFloat (by decide) (by decide) _
  have hraise : Mends (between 0.01 100) q.raisePressure
      (clampFloat 0.01 100 d.raisePressure q.raisePressure) :=
    mends_clampFloat (by decide) (by decide) _
  constructor
  · simp only [pressures]
    split
    · exact hdefaults
    · next happart =>
      obtain ⟨hlo, hhi⟩ := between_iff.1 hdrop.admitted
      obtain ⟨hlo', -⟩ := between_iff.1 hraise.admitted
      refine admitsPressures_iff.2 ⟨hlo', ?_, hlo, hhi⟩
      exact Binary.lt_of_not_le (Binary.le_iff.1 hlo').2.1 (Binary.le_iff.1 hlo).2.1 happart
  · intro h
    obtain ⟨hlo', happart, hlo, hhi⟩ := admitsPressures_iff.1 h
    -- What is calm below the other pressure needs no upper bound of its own.
    have hhi' := Binary.le_of_lt (Binary.lt_of_lt_of_le happart hhi)
    simp only [pressures]
    rw [hdrop.kept (between_iff.2 ⟨hlo, hhi⟩), hraise.kept (between_iff.2 ⟨hlo', hhi'⟩),
      if_neg (Binary.not_le_of_lt happart)]

/-- The two sides of the image are mended together, by the default size. -/
theorem mends_viewport (v : Viewport) : Mends admitsViewport v v.repaired := by
  refine mends_ite rfl ?_
  simp only [admitsViewport, atLeast, Bool.or_eq_true, Bool.and_eq_true, decide_eq_true_eq]
  grind

/-- A forced level is mended by the worst one, and one that is left out stays so. -/
theorem mends_min (k : UInt8) (level : Option UInt8) :
    Mends (Option.all (· ≤ k)) level (level.map (min · k)) := by
  cases level with
  | none => exact .refl rfl
  | some n =>
    constructor
    · exact decide_eq_true Std.min_le_right
    · intro h
      have hle : n ≤ k := of_decide_eq_true h
      rw [Option.map_some, UInt8.min_def, if_pos hle]

/-! ## Sections are mended -/

/-- Threads and queues are mended. -/
theorem Threading.mended (t : Threading) : Mended Threading.ranges t t.repaired := by
  simp only [Mended, Threading.ranges, List.forall_mem_cons]
  have hcount : Mends (between 0 64) t.workerCount t.repaired.workerCount :=
    mends_clampWord (by decide) _
  have hgraphics : Mends (between 1 3) t.graphicsDepth t.repaired.graphicsDepth :=
    mends_clampWord (by decide) _
  have haudio : Mends (between 1 3) t.audioDepth t.repaired.audioDepth :=
    mends_clampWord (by decide) _
  exact ⟨.refl rfl, .refl rfl, .refl rfl, hcount, hgraphics, haudio, .refl rfl,
    mends_stallTime _, mends_positive _, List.forall_mem_nil _⟩

/-- Batches, display lists and failures are mended. -/
theorem Batching.mended (b : Batching) : Mended Batching.ranges b b.repaired := by
  simp only [Mended, Batching.ranges, List.forall_mem_cons]
  exact ⟨mends_clampWord (by decide) _, mends_clampWord (by decide) _, mends_positive _,
    List.forall_mem_nil _⟩

/-- Tolerances are mended. -/
theorem Culling.mended (c : Culling) : Mended Culling.ranges c c.repaired := by
  simp only [Mended, Culling.ranges, List.forall_mem_cons]
  exact ⟨mends_clampFloat (by decide) (by decide) _,
    mends_clampFloat (by decide) (by decide) _, List.forall_mem_nil _⟩

/-- Targets and budgets are mended. -/
theorem Quality.mended (q : Quality) : Mended Quality.ranges q q.repaired := by
  simp only [Mended, Quality.ranges, List.forall_mem_cons]
  have htarget : Mends (between 1 1000) q.targetTime q.repaired.targetTime :=
    mends_clampFloat (by decide) (by decide) _
  have hoverdraw : Mends (between 0.1 1000) q.overdrawBudget q.repaired.overdrawBudget :=
    mends_clampFloat (by decide) (by decide) _
  exact ⟨htarget, mends_pressures q, mends_positive _, mends_positive _, mends_positive _,
    hoverdraw, mends_clampWord (by decide) _, List.forall_mem_nil _⟩

/-- An override is mended. -/
theorem SceneOverride.mended (o : SceneOverride) : Mended SceneOverride.ranges o o.repaired := by
  simp only [Mended, SceneOverride.ranges, List.forall_mem_cons]
  exact ⟨.refl rfl, mends_min 3 _, .refl rfl, .refl rfl, mends_min 2 _, List.forall_mem_nil _⟩

/-- Every field of the threads and queues has a range. -/
theorem Threading.covers : Covers Threading.ranges := by
  intro s t h
  simp only [Threading.ranges, List.forall_mem_cons] at h
  cases s
  cases t
  simp_all

/-- Every field of the batches, display lists and failures has a range. -/
theorem Batching.covers : Covers Batching.ranges := by
  intro s t h
  simp only [Batching.ranges, List.forall_mem_cons] at h
  cases s
  cases t
  simp_all

/-- Every tolerance has a range. -/
theorem Culling.covers : Covers Culling.ranges := by
  intro s t h
  simp only [Culling.ranges, List.forall_mem_cons] at h
  cases s
  cases t
  simp_all

/-- Every target and budget has a range, the two pressures a common one. -/
theorem Quality.covers : Covers Quality.ranges := by
  intro s t h
  simp only [Quality.ranges, List.forall_mem_cons] at h
  cases s
  cases t
  simp_all

/-- Every field of an override has a range. -/
theorem SceneOverride.covers : Covers SceneOverride.ranges := by
  intro s t h
  simp only [SceneOverride.ranges, List.forall_mem_cons] at h
  cases s
  cases t
  simp_all

/-! ## All settings -/

/-- Repair mends every section and every override. -/
theorem repairs_repaired (s : Settings) : Repairs s s.repaired where
  host := rfl
  threading := s.threading.mended
  batching := s.batching.mended
  culling := s.culling.mended
  quality := s.quality.mended
  viewport := mends_viewport s.viewport
  overrides := List.forall₂_map_right_iff.2 (List.forall₂_same.2 fun o _ => o.mended)

variable {s t : Settings}

/-- Repaired settings are in range. -/
theorem Repairs.valid (h : Repairs s t) : t.Valid :=
  ⟨h.threading.inRange, h.batching.inRange, h.culling.inRange, h.quality.inRange,
    h.viewport.admitted, inRange_of_mended h.overrides⟩

/-- Settings in range are the same when they are repaired. -/
theorem Repairs.eq (h : Repairs s t) (hs : s.Valid) : t = s := by
  have hthreading := h.threading.eq Threading.covers hs.threading
  have hbatching := h.batching.eq Batching.covers hs.batching
  have hculling := h.culling.eq Culling.covers hs.culling
  have hquality := h.quality.eq Quality.covers hs.quality
  have hviewport := h.viewport.kept hs.viewport
  have hoverrides := eq_of_mended h.overrides SceneOverride.covers hs.overrides
  have hhost := h.host
  cases s
  cases t
  simp_all

/-- All defaults are in range. -/
theorem valid_default : Valid {} := by
  have hrepaired : repaired {} = {} := by decide
  rw [← hrepaired]
  exact (repairs_repaired {}).valid

/-- What lies between two bounds is a number. -/
theorem isNaN_of_between {lo hi x : Single} (h : between lo hi x) : x.isNaN = false :=
  (Binary.le_iff.1 (between_iff.1 h).1).2.1

/-- All floats of settings in range are numbers. -/
theorem Valid.isNaN_eq (h : s.Valid) : ∀ x ∈ s.floats, x.isNaN = false := by
  have hculling := h.culling
  have hquality := h.quality
  simp only [InRange, Culling.ranges, Quality.ranges, List.forall_mem_cons] at hculling hquality
  obtain ⟨harea, hscissor, -⟩ := hculling
  obtain ⟨htarget, hpressures, -, -, -, hoverdraw, -⟩ := hquality
  obtain ⟨-, happart, -⟩ := admitsPressures_iff.1 hpressures
  obtain ⟨hraise, hdrop, -⟩ := Binary.lt_iff.1 happart
  simp only [floats, List.forall_mem_cons]
  exact ⟨isNaN_of_between harea, isNaN_of_between hscissor, isNaN_of_between htarget, hdrop, hraise,
    isNaN_of_between hoverdraw, List.forall_mem_nil _⟩

/-- Repair brings settings into range and changes nothing that was in range, so it is done once and
for all. -/
theorem repaired_projects (s : Settings) :
    Repairs s s.repaired ∧ s.repaired.Valid ∧ (∀ x ∈ s.repaired.floats, x.isNaN = false) ∧
      (s.Valid → s.repaired = s) ∧ s.repaired.repaired = s.repaired := by
  have hrepairs := repairs_repaired s
  have hvalid := hrepairs.valid
  exact ⟨hrepairs, hvalid, hvalid.isNaN_eq, hrepairs.eq, (repairs_repaired _).eq hvalid⟩

/-- Counts, a tolerance, pressures that are not apart, an empty image and a forced level out of
range, and two floats that are not numbers. -/
def strained : Settings where
  threading := { workerCount := 99, graphicsDepth := 0, stallTime := 0 }
  batching := { listCapacity := 1000000, failureLimit := 0 }
  culling := { areaEpsilon := .nan, scissorTolerance := 100 }
  quality := { targetTime := .nan, dropPressure := 0.5, raisePressure := 0.9, raiseWindow := 7 }
  viewport := { width := 0, height := 1080 }
  overrides := [{ scene := "cave", particles := some 9, fog := some .multi }]

/-- Settings out of range in every section are mended once and then stay as they are. -/
theorem repaired_projects_strained :
    let mended : Settings :=
      { threading := { workerCount := 64, graphicsDepth := 1, stallTime := 1 }
        batching := { listCapacity := 65536, failureLimit := 1 }
        culling := { scissorTolerance := 64 }
        quality := { raiseWindow := 7 }
        overrides := [{ scene := "cave", particles := some 3, fog := some .multi }] }
    strained.repaired = mended ∧ Repairs strained mended ∧ mended.Valid ∧
      (∀ x ∈ mended.floats, x.isNaN = false) ∧ mended.repaired = mended := by
  intro mended
  have hmended : strained.repaired = mended := by decide
  obtain ⟨hrepairs, hvalid, hnumbers, -, -⟩ := repaired_projects strained
  rw [hmended] at hrepairs hvalid hnumbers
  exact ⟨hmended, hrepairs, hvalid, hnumbers, (repaired_projects mended).2.2.2.1 hvalid⟩

/-- The pressure that drops a level has a lower bound of its own, above that of the calm one: two
pressures below it are not kept, although they are apart and above a hundredth. -/
theorem low_pressures_moved :
    let q : Quality := { raisePressure := 0.02, dropPressure := 0.05 }
    ((0.01 : Single) ≤ q.raisePressure ∧ q.raisePressure < q.dropPressure ∧
      q.dropPressure ≤ (100 : Single)) ∧
      (repaired { quality := q }).quality.dropPressure ≠ q.dropPressure := by
  decide +kernel

end Settings

end RenderStream
