import RenderStream.Quality.Ladder
import RenderStream.Quality.SceneTable
import RenderStream.Quality.Window

/-!
# Quality control

Every frame is observed once. While its scene has an override, all axes walk toward the forced
levels; otherwise each axis follows its own pressure: the larger of the frame time and of the signal
that drives the cost of the axis, both relative to what is aimed at. The profile changes exactly
when a level does, and then counts one generation more.
-/

namespace RenderStream

/-- Something for every axis. -/
structure PerAxis (α : Type) where
  particles : α
  shadows : α
  fog : α
  detail : α
deriving DecidableEq

namespace PerAxis

variable {α β : Type}

def get (m : PerAxis α) : Axis → α
  | .particles => m.particles
  | .shadows => m.shadows
  | .fog => m.fog
  | .detail => m.detail

def ofFn (f : Axis → α) : PerAxis α := ⟨f .particles, f .shadows, f .fog, f .detail⟩

def map (f : Axis → α → β) (m : PerAxis α) : PerAxis β := ofFn fun a => f a (m.get a)

@[simp] theorem get_ofFn (f : Axis → α) (a : Axis) : (ofFn f).get a = f a := by cases a <;> rfl

@[simp] theorem get_map (f : Axis → α → β) (m : PerAxis α) (a : Axis) :
    (m.map f).get a = f a (m.get a) := by simp [map]

end PerAxis

/-- Quality control over all axes. -/
structure Governor where
  quality : Settings.Quality
  scenes : SceneTable
  window : Window
  axes : PerAxis Ladder := .ofFn .ofAxis
  /-- The scene whose override was in force on the last frame. -/
  forcing : Option String := none
  profile : Profile := .best
  /-- How often the levels changed. -/
  generation : Nat := 0
deriving DecidableEq

namespace Governor

def ofSettings (q : Settings.Quality) (os : List Settings.SceneOverride) : Governor :=
  { quality := q, scenes := .ofOverrides os, window := .empty q.historyLength.toNat }

def levels (g : Governor) : Levels :=
  Axis.all.foldl (fun l a => l.set a (g.axes.get a).level) .best

/-- The part of the pressure that belongs to one axis. -/
def signal (q : Settings.Quality) (s : Sample) : Axis → Single
  | .particles => .ofNat s.particles.toNat / .ofNat q.particleBudget.toNat
  | .shadows | .detail => .ofNat s.entities.toNat / .ofNat q.entityBudget.toNat
  | .fog => s.overdraw / q.overdrawBudget

/-- The pressure on an axis; none when no part of it is a number. -/
def pressure (q : Settings.Quality) (s : Sample) (a : Axis) : Single :=
  let p := (s.time / q.targetTime).max (signal q s a)
  if p.isNaN then 0 else p

/-- The axes after a frame. -/
def stepAxes (g : Governor) (s : Sample) : Option Levels → PerAxis Ladder
  | some forced => g.axes.map fun a l => (l.toward (forced.get a)).1
  | none => g.axes.map fun a l => (l.step g.quality (pressure g.quality s a)).1

/-- The profile brought up to the levels, if they differ from those before. -/
def refresh (g : Governor) (before : Levels) : Governor :=
  if g.levels = before then g
  else
    { g with
      generation := g.generation + 1
      profile := .ofLevels g.levels (g.generation + 1) }

def observe (g : Governor) (s : Sample) (scene : Option String) : Governor :=
  let forced := g.scenes.resolve scene
  let next :=
    { g with
      window := g.window.push s
      axes := g.stepAxes s forced
      forcing := if forced.isSome then scene else none }
  next.refresh g.levels

end Governor

end RenderStream
