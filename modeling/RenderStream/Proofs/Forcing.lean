import RenderStream.Proofs.Adaptation
import RenderStream.Proofs.SceneTable

/-!
# What an override does to a run

While a scene forces a level, an axis walks there by one level per frame and then stays, whatever
the load is. `Ladder.moved` is where it stands after so many frames, and `Ladder.behind_forced`
says that this and an empty count of calm frames is all that is left of the ladder; so when the
override ends no part of a window has passed. `Ladder.behind_free` follows a ladder with an empty
count for less than a window: its level only falls, by one for each high pressure.

The main result is that of every run of quality control: `Governor.override_converges`.
-/

namespace RenderStream

/-- Something is known of all axes when it is known of each. -/
theorem PerAxis.ext_get {α : Type} {m m' : PerAxis α} (h : ∀ a, m.get a = m'.get a) : m = m' := by
  obtain ⟨p, s, f, d⟩ := m
  obtain ⟨p', s', f', d'⟩ := m'
  have hp : p = p' := h .particles
  have hs : s = s' := h .shadows
  have hf : f = f' := h .fog
  have hd : d = d' := h .detail
  rw [hp, hs, hf, hd]

namespace Ladder

/-! ## Toward a goal -/

/-- A level moved toward a goal by `n`, or as far as the goal is. -/
def moved (level goal n : Nat) : Nat :=
  if level ≤ goal then level + min n (goal - level) else level - min n (level - goal)

@[simp] theorem moved_zero (level goal : Nat) : moved level goal 0 = level := by
  simp [moved]

/-- One step more toward a goal is one level more. -/
theorem approach_moved (level goal n : Nat) :
    approach (moved level goal n) goal = moved level goal (n + 1) := by
  simp only [approach, moved]
  split <;> omega

/-- Within as many frames as there are levels the goal is reached. -/
theorem moved_eq_goal {level goal top n : Nat} (hlevel : level ≤ top) (hgoal : goal ≤ top)
    (hn : top ≤ n) : moved level goal n = goal := by
  simp only [moved]
  split <;> omega

variable {q : Settings.Quality} {l : Ladder} {ds : Nat → Demand} {m n target : Nat}

/-- A history goes on from the ladder behind its first part. -/
theorem behind_add (q : Settings.Quality) (l : Ladder) (ds : Nat → Demand) (n m : Nat) :
    l.behind q ds (n + m) = (l.behind q ds n).behind q (fun k => ds (n + k)) m := by
  induction m with
  | zero => rfl
  | succ m ih => rw [← Nat.add_assoc, behind, ih, behind]

/-- A forced level is approached, and the count is lost. -/
theorem next_of_forced {d : Demand} (q : Settings.Quality) (l : Ladder)
    (h : d.forced = some target) :
    l.next q d = { l with level := approach l.level (min target l.top), calm := 0 } := by
  rw [next, h]
  exact toward_eq target l

/-- All that forced frames leave of a ladder, with no word on the load. -/
theorem behind_forced (q : Settings.Quality) (l : Ladder)
    (h : ∀ k < n, (ds k).forced = some target) :
    l.behind q ds n =
      { l with
        level := moved l.level (min target l.top) n
        calm := if n = 0 then l.calm else 0 } := by
  induction n with
  | zero => simp [behind]
  | succ n ih =>
    have hbefore := ih fun k hk => h k (Nat.lt_succ_of_lt hk)
    rw [behind, next_of_forced q _ (h n (Nat.lt_succ_self n)), hbefore]
    dsimp only
    rw [approach_moved, if_neg (Nat.succ_ne_zero n)]

/-! ## Free again -/

/-- High pressures among the first `m` frames. -/
def highs (q : Settings.Quality) (ds : Nat → Demand) (m : Nat) : Nat :=
  (List.range m).countP fun k => q.isHigh (ds k).pressure

/-- One frame more is one under high pressure more, or none. -/
theorem highs_succ (q : Settings.Quality) (ds : Nat → Demand) (m : Nat) :
    highs q ds (m + 1) = highs q ds m + if q.isHigh (ds m).pressure then 1 else 0 := by
  rw [highs, List.range_succ, List.countP_append, List.countP_singleton]
  rfl

/-- Less than a window after its count was empty, a free ladder has only fallen. -/
theorem behind_free (hcalm : l.calm = 0) (hm : m < q.window)
    (hfree : ∀ k < m, (ds k).forced = none) :
    (l.behind q ds m).level = l.level - highs q ds m ∧ (l.behind q ds m).calm ≤ m := by
  induction m with
  | zero => exact ⟨rfl, Nat.le_of_eq hcalm⟩
  | succ m ih =>
    obtain ⟨hlevel, hcount⟩ := ih (Nat.lt_of_succ_lt hm) fun k hk => hfree k (Nat.lt_succ_of_lt hk)
    have hfree := hfree m (Nat.lt_succ_self m)
    have hturn := next_turn q (l.behind q ds m) (ds m)
    rw [behind, highs_succ]
    generalize (l.behind q ds m).next q (ds m) = l' at hturn ⊢
    cases hturn with
    | forced hforced => rw [hfree] at hforced; cases hforced
    | drop _ hhigh =>
      simp only [hhigh, if_true]
      omega
    | stall _ hhigh =>
      simp only [hhigh, Bool.false_eq_true, if_false]
      omega
    | best hcalm | wait hcalm =>
      simp only [hcalm.not_high, Bool.false_eq_true, if_false]
      omega
    | rise _ _ hwindow => omega

/-- An axis let go in front of frame `n` goes on from its level, and no part of a window has passed:
until one is over the level falls with every high pressure and never rises. -/
structure Released (q : Settings.Quality) (ds : Nat → Demand) (level : Nat → Nat) (n : Nat) :
    Prop where
  falls : ∀ m < q.window, (∀ j < m, (ds (n + j)).forced = none) →
    level (n + m) = level n - highs q (fun j => ds (n + j)) m
  waits : ∀ m, (∀ j ≤ m, (ds (n + j)).forced = none) → level (n + m) < level (n + m + 1) →
    q.window ≤ m + 1

/-- From a ladder without a count on the level is released. -/
theorem behind_released (hcalm : (l.behind q ds n).calm = 0) :
    Released q ds (fun j => (l.behind q ds j).level) n := by
  have hfalls : ∀ m < q.window, (∀ j < m, (ds (n + j)).forced = none) →
      (l.behind q ds (n + m)).level =
        (l.behind q ds n).level - highs q (fun j => ds (n + j)) m := by
    intro m hm hfree
    rw [behind_add]
    exact (behind_free hcalm hm hfree).1
  refine ⟨hfalls, fun m hfree hrise => ?_⟩
  by_contra hwindow
  have hbefore := hfalls m (by omega) fun j hj => hfree j (Nat.le_of_lt hj)
  have hbehind := hfalls (m + 1) (by omega) fun j hj => hfree j (Nat.le_of_lt_succ hj)
  rw [highs_succ] at hbehind
  rw [Nat.add_assoc] at hrise
  omega

end Ladder

namespace Governor

/-! ## Runs -/

variable {q : Settings.Quality} {os : List Settings.SceneOverride} {f : Nat → Observation}
  {scene : String} {forced : Levels} {k m n : Nat}

/-- Each axis has a ladder of its own, which goes on from where it is. -/
theorem axes_behind_add (q : Settings.Quality) (os : List Settings.SceneOverride)
    (f : Nat → Observation) (a : Axis) (k n : Nat) :
    ((ofSettings q os).behind f (k + n)).axes.get a =
      (((ofSettings q os).behind f k).axes.get a).behind q
        (fun j => demand q (.ofOverrides os) (f (k + j)) a) n := by
  rw [axes_behind, Ladder.behind_add, ← axes_behind]

/-- Behind every history the best levels are the same. -/
theorem axes_top (q : Settings.Quality) (os : List Settings.SceneOverride)
    (f : Nat → Observation) (a : Axis) (k : Nat) :
    (((ofSettings q os).behind f k).axes.get a).top = a.top := by
  rw [axes_behind]
  exact Ladder.behind_top k

/-- Behind every history the levels are on their ladders. -/
theorem axes_level_le (q : Settings.Quality) (os : List Settings.SceneOverride)
    (f : Nat → Observation) (a : Axis) (k : Nat) :
    (((ofSettings q os).behind f k).axes.get a).level ≤ a.top := by
  rw [axes_behind]
  exact Ladder.behind_level_le (Nat.le_refl _) k

/-- The ladders behind some frames of a scene with an override. -/
theorem axes_behind_forced
    (hforced : (SceneTable.ofOverrides os).resolve (some scene) = some forced)
    (hscene : ∀ j < n, (f (k + j)).scene = some scene) (a : Axis) :
    ((ofSettings q os).behind f (k + n)).axes.get a =
      { top := a.top
        level := Ladder.moved (((ofSettings q os).behind f k).axes.get a).level (forced.get a) n
        calm := if n = 0 then (((ofSettings q os).behind f k).axes.get a).calm else 0 } := by
  have hdemand : ∀ j < n,
      (demand q (.ofOverrides os) (f (k + j)) a).forced = some (forced.get a) := by
    intro j hj
    rw [demand, hscene j hj, hforced]
    rfl
  rw [axes_behind_add, Ladder.behind_forced q _ hdemand, axes_top,
    Nat.min_eq_left (SceneTable.resolve_le_top hforced a)]

/-! ## Main result -/

namespace Demo

/-- A scene in which few particles are drawn. -/
def overrides : List Settings.SceneOverride := [{ scene := "cave", particles := some 1 }]

/-- Three slow frames of that scene, then quick ones of no scene. -/
def visit (n : Nat) : Observation :=
  if n < 3 then { sample := { time := 30 }, scene := some "cave" } else quick n

end Demo

/-- Scenes with an override, in every run. Behind `n` frames of such a scene an axis stands where it
was, moved toward the forced level by `n`, so it is there within as many frames as it has levels.
Nothing but its state before these frames has a part in that. When the override ends, the axis goes
on from there, and a whole window passes before it rises. -/
theorem override_converges
    (hforced : (SceneTable.ofOverrides os).resolve (some scene) = some forced)
    (hscene : ∀ j < n, (f (k + j)).scene = some scene) :
    (∀ a, (((ofSettings q os).behind f (k + n)).axes.get a).level =
        Ladder.moved (((ofSettings q os).behind f k).axes.get a).level (forced.get a) n) ∧
      (∀ a, a.top ≤ n →
        (((ofSettings q os).behind f (k + n)).axes.get a).level = forced.get a) ∧
      (∀ (q' : Settings.Quality) (os' : List Settings.SceneOverride) (f' : Nat → Observation)
        (k' : Nat), (SceneTable.ofOverrides os').resolve (some scene) = some forced →
        (∀ j < n, (f' (k' + j)).scene = some scene) →
        ((ofSettings q' os').behind f' k').axes = ((ofSettings q os).behind f k).axes →
        ((ofSettings q' os').behind f' (k' + n)).axes =
          ((ofSettings q os).behind f (k + n)).axes) ∧
      (0 < n → ∀ a, Ladder.Released q (fun j => demand q (.ofOverrides os) (f j) a)
        (fun j => (((ofSettings q os).behind f j).axes.get a).level) (k + n)) := by
  have hbehind := axes_behind_forced (q := q) hforced hscene
  have hlevel (a : Axis) : (((ofSettings q os).behind f (k + n)).axes.get a).level =
      Ladder.moved (((ofSettings q os).behind f k).axes.get a).level (forced.get a) n := by
    rw [hbehind a]
  refine ⟨hlevel, fun a hn => ?_, fun q' os' f' k' hforced' hscene' haxes => ?_, fun hn a => ?_⟩
  · rw [hlevel a]
    exact Ladder.moved_eq_goal (axes_level_le q os f a k) (SceneTable.resolve_le_top hforced a) hn
  · refine PerAxis.ext_get fun a => ?_
    rw [hbehind a, axes_behind_forced hforced' hscene' a, haxes]
  · have hcalm := congrArg Ladder.calm (hbehind a)
    dsimp only at hcalm
    rw [if_neg (Nat.pos_iff_ne_zero.1 hn), axes_behind] at hcalm
    simp only [axes_behind]
    exact Ladder.behind_released hcalm

/-- The load would drop particles to the cheapest level, the override keeps them one above, and the
first quick frame behind it does not raise them yet, the window being two. -/
theorem override_converges_demo :
    (SceneTable.ofOverrides Demo.overrides).resolve (some "cave") = some { particles := 1 } ∧
      (∀ j < 3, (Demo.visit (0 + j)).scene = some "cave") ∧
      (((ofSettings Demo.quality Demo.overrides).behind Demo.visit 3).axes.get
        .particles).level = 1 ∧
      (((ofSettings Demo.quality Demo.overrides).behind Demo.visit 4).axes.get
        .particles).level = 1 := by
  have hforced : (SceneTable.ofOverrides Demo.overrides).resolve (some "cave") =
      some { particles := 1 } := by decide +kernel
  have hscene : ∀ j < 3, (Demo.visit (0 + j)).scene = some "cave" := by decide
  obtain ⟨-, hreached, -, hreleased⟩ :=
    override_converges (q := Demo.quality) (f := Demo.visit) (k := 0) hforced hscene
  have hlevel := hreached .particles (Nat.le_refl 3)
  have hfalls := (hreleased (by decide) .particles).falls 1 (by decide +kernel) (by decide +kernel)
  have hhighs : Ladder.highs Demo.quality (fun j => demand Demo.quality
      (.ofOverrides Demo.overrides) (Demo.visit (0 + 3 + j)) .particles) 1 = 0 := by decide +kernel
  refine ⟨hforced, hscene, hlevel, hfalls.trans ?_⟩
  rw [hhighs, hlevel]
  rfl

end Governor

end RenderStream
