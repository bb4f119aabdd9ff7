import RenderStream.Proofs.Governor
import RenderStream.Proofs.Ladder

/-!
# What quality control does with a run

An observation asks something of every axis: the level that its scene forces, if there is one, and
the pressure of its sample (`demand`). What is asked of an axis is all that moves it, so a governor
is a ladder for every axis, each behind the frames seen so far (`axes_behind`). The two main results
are those about ladders: levels follow the rule on histories (`levels_follow`), and more load never
gives a better level (`levels_antitone`).
-/

namespace RenderStream

/-- What quality control is told of a frame. -/
structure Observation where
  sample : Sample
  scene : Option String := none

namespace Governor

/-- The governor behind the first `n` frames of a sequence. -/
def behind (g : Governor) (f : Nat → Observation) : Nat → Governor
  | 0 => g
  | n + 1 => (g.behind f n).observe (f n).sample (f n).scene

/-- What a frame asks of an axis. -/
def demand (q : Settings.Quality) (t : SceneTable) (o : Observation) (a : Axis) :
    Ladder.Demand where
  forced := (t.resolve o.scene).map fun forced => forced.get a
  pressure := pressure q o.sample a

/-! ## One frame -/

@[simp] theorem refresh_axes (g : Governor) (l : Levels) : (g.refresh l).axes = g.axes := by
  rw [refresh]
  split <;> rfl

@[simp] theorem refresh_quality (g : Governor) (l : Levels) :
    (g.refresh l).quality = g.quality := by
  rw [refresh]
  split <;> rfl

@[simp] theorem refresh_scenes (g : Governor) (l : Levels) : (g.refresh l).scenes = g.scenes := by
  rw [refresh]
  split <;> rfl

/-- Every axis takes one turn. -/
theorem observe_axes (g : Governor) (o : Observation) (a : Axis) :
    (g.observe o.sample o.scene).axes.get a =
      (g.axes.get a).next g.quality (demand g.quality g.scenes o a) := by
  rw [observe_eq, refresh_axes, moved, demand, Ladder.next]
  cases g.scenes.resolve o.scene with
  | none => exact PerAxis.get_map _ _ a
  | some forced => exact PerAxis.get_map _ _ a

/-- The levels reported are those of the ladders, none beyond the best. -/
theorem levels_get (g : Governor) (a : Axis) :
    g.levels.get a = min (g.axes.get a).level a.top := by
  cases a <;> simp [levels, Axis.all, Levels.get_set_self, Levels.get_set_of_ne]

/-! ## A run -/

variable (q : Settings.Quality) (os : List Settings.SceneOverride) (f h : Nat → Observation)
  (a : Axis) (n : Nat)

/-- No frame changes the settings. -/
theorem behind_settings :
    ((ofSettings q os).behind f n).quality = q ∧
      ((ofSettings q os).behind f n).scenes = .ofOverrides os := by
  induction n with
  | zero => exact ⟨rfl, rfl⟩
  | succ n ih =>
    rw [behind, observe_eq, refresh_quality, refresh_scenes]
    exact ih

/-- An axis is where its own ladder is, given what the frames ask of this axis. -/
theorem axes_behind :
    ((ofSettings q os).behind f n).axes.get a =
      (Ladder.ofAxis a).behind q (fun k => demand q (.ofOverrides os) (f k) a) n := by
  induction n with
  | zero => exact PerAxis.get_ofFn _ a
  | succ n ih =>
    obtain ⟨hquality, hscenes⟩ := behind_settings q os f n
    rw [behind, observe_axes, hquality, hscenes, ih, Ladder.behind]

/-- No ladder leaves its levels, so the levels reported are those of the ladders. -/
theorem levels_eq :
    ((ofSettings q os).behind f n).levels.get a =
      (((ofSettings q os).behind f n).axes.get a).level := by
  rw [levels_get, axes_behind]
  exact Nat.min_eq_left (Ladder.behind_level_le (Nat.le_refl _) n)

/-! ## Main results -/

namespace Demo

def quality : Settings.Quality := { raiseWindow := 2 }

/-- Quick frames throughout. -/
def quick : Nat → Observation := fun _ => { sample := { time := 10 } }

/-- A slow frame, then quick ones. -/
def slowStart : Nat → Observation
  | 0 => { sample := { time := 30 } }
  | n + 1 => quick n

end Demo

/-- The exact rule for the moves of a level, in every run and on every axis. -/
theorem levels_follow :
    ((ofSettings q os).behind f n).levels.get a =
        (((ofSettings q os).behind f n).axes.get a).level ∧
      Ladder.Follows q a.top (fun k => demand q (.ofOverrides os) (f k) a)
        (fun k => (((ofSettings q os).behind f k).axes.get a).level) n := by
  refine ⟨levels_eq q os f a n, ?_⟩
  simp only [axes_behind]
  exact Ladder.behind_follows (l := .ofAxis a) (Nat.le_refl _) rfl n

/-- A level that dropped on the first frame is back after a window of two. -/
theorem levels_follow_demo :
    (((ofSettings Demo.quality []).behind Demo.slowStart 1).axes.get .particles).level = 2 ∧
      (((ofSettings Demo.quality []).behind Demo.slowStart 2).axes.get .particles).level <
        (((ofSettings Demo.quality []).behind Demo.slowStart 3).axes.get .particles).level := by
  have h := (levels_follow Demo.quality [] Demo.slowStart .particles 2).2
  refine ⟨by decide +kernel, (h.rises rfl).2 ⟨by decide +kernel, ⟨rfl, by decide +kernel⟩, ?_⟩⟩
  refine ⟨by decide, fun k hk hwindow => ?_⟩
  obtain rfl : k = 1 := by
    have : Demo.quality.window = 2 := rfl
    omega
  exact ⟨⟨rfl, by decide +kernel⟩, by decide +kernel⟩

/-- More load never gives better quality: of two runs over the same scenes, the one under no more
pressure on an axis, where no level is forced, keeps at least the level of the other. -/
theorem levels_antitone (hscene : ∀ k < n, (f k).scene = (h k).scene)
    (hload : ∀ k < n, (SceneTable.ofOverrides os).resolve (f k).scene = none →
      pressure q (f k).sample a ≤ pressure q (h k).sample a) :
    (((ofSettings q os).behind h n).axes.get a).level ≤
        (((ofSettings q os).behind f n).axes.get a).level ∧
      ((ofSettings q os).behind h n).levels.get a ≤
        ((ofSettings q os).behind f n).levels.get a := by
  have heases (k : Nat) (hk : k < n) :
      (demand q (.ofOverrides os) (f k) a).Eases (demand q (.ofOverrides os) (h k) a) := by
    refine ⟨?_, fun hfree => hload k hk (Option.map_eq_none_iff.1 hfree)⟩
    rw [demand, demand, hscene k hk]
  have habove := (Ladder.Above.refl (.ofAxis a)).behind heases (q := q)
  rw [levels_eq, levels_eq, axes_behind, axes_behind]
  exact ⟨habove.level_le, habove.level_le⟩

/-- Two frames behind a slow start, particles are no better than behind quick frames alone. -/
theorem levels_antitone_demo :
    ((ofSettings Demo.quality []).behind Demo.slowStart 2).levels.get .particles = 2 ∧
      ((ofSettings Demo.quality []).behind Demo.slowStart 2).levels.get .particles ≤
        ((ofSettings Demo.quality []).behind Demo.quick 2).levels.get .particles := by
  refine ⟨by decide +kernel, (levels_antitone Demo.quality [] Demo.quick Demo.slowStart .particles 2
    (by decide) ?_).2⟩
  have hload : ∀ k < 2, pressure Demo.quality (Demo.quick k).sample .particles ≤
      pressure Demo.quality (Demo.slowStart k).sample .particles := by decide +kernel
  exact fun k hk _ => hload k hk

end Governor

end RenderStream
