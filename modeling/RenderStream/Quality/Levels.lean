import RenderStream.Binary

/-!
# Quality levels

Quality is traded along four axes. Each has ordered levels, zero the cheapest. The levels alone
decide what is kept and how it is drawn: the share of particles kept, the distance beyond which
entities are dropped, the bias toward coarser models, and how shadows and fog are made.
-/

namespace RenderStream

/-- How shadows are made. -/
inductive Shadows where
  /-- Taken from maps made ahead. -/
  | baked
  /-- Computed for every frame. -/
  | dynamic
deriving DecidableEq, Inhabited, Repr

/-- How fog is layered. -/
inductive Fog where
  | single
  | multi
deriving DecidableEq, Inhabited, Repr

/-- What quality is traded along. -/
inductive Axis where
  /-- Share of particles kept. -/
  | particles
  | shadows
  | fog
  /-- Detail of distant entities. -/
  | detail
deriving DecidableEq, Inhabited, Repr

namespace Axis

def all : List Axis := [.particles, .shadows, .fog, .detail]

def top : Axis → Nat
  | .particles => 3
  | .shadows => 1
  | .fog => 1
  | .detail => 2

end Axis

/-- A level on every axis. -/
structure Levels where
  particles : Nat := 3
  shadows : Shadows := .dynamic
  fog : Fog := .multi
  detail : Nat := 2
deriving DecidableEq, Repr

namespace Levels

def best : Levels := {}

def worst : Levels := ⟨0, .baked, .single, 0⟩

def get (l : Levels) : Axis → Nat
  | .particles => l.particles
  | .shadows => match l.shadows with
    | .baked => 0
    | .dynamic => 1
  | .fog => match l.fog with
    | .single => 0
    | .multi => 1
  | .detail => l.detail

/-- The levels with another one on an axis; beyond the best level the best is taken. -/
def set (l : Levels) (a : Axis) (level : Nat) : Levels :=
  match a with
  | .particles => { l with particles := min level Axis.particles.top }
  | .shadows => { l with shadows := if level = 0 then .baked else .dynamic }
  | .fog => { l with fog := if level = 0 then .single else .multi }
  | .detail => { l with detail := min level Axis.detail.top }

/-- The levels, none beyond the best. -/
def clamped (l : Levels) : Levels :=
  { l with particles := min l.particles Axis.particles.top, detail := min l.detail Axis.detail.top }

/-- A level that is set is found, up to the best one of its axis. -/
theorem get_set_self (l : Levels) (a : Axis) (n : Nat) : (l.set a n).get a = min n a.top := by
  cases a <;> simp only [set, get, Axis.top]
  all_goals
    by_cases h : n = 0
    · simp [h]
    · simp [h]
      omega

/-- A level that is set leaves the other axes. -/
theorem get_set_of_ne (l : Levels) {a b : Axis} (n : Nat) (h : a ≠ b) :
    (l.set a n).get b = l.get b := by
  cases a <;> cases b <;> simp_all [set, get]

/-- Clamped levels are on their axes. -/
theorem clamped_clamped (l : Levels) : l.clamped.clamped = l.clamped := by
  simp [clamped]

end Levels

/-- What the levels mean for the frames drawn under them. -/
structure Profile where
  levels : Levels
  /-- Share of particles kept. -/
  keepRatio : Single
  /-- Depth beyond which entities are dropped. -/
  cullDistance : Single
  shadows : Shadows
  fog : Fog
  /-- Bias toward coarser models. -/
  lodBias : Single
  /-- How often the levels had changed. -/
  generation : Nat
deriving DecidableEq

namespace Profile

def keepRatioAt : Nat → Single
  | 0 => 0.25
  | 1 => 0.5
  | 2 => 0.75
  | _ => 1

/-- Depth beyond which entities are dropped at a detail level. -/
def cullDistanceAt : Nat → Single
  | 0 => 1500
  | 1 => 3000
  | _ => .infinity false

def lodBiasAt : Nat → Single
  | 0 => 2
  | 1 => 1
  | _ => 0

def ofLevels (l : Levels) (generation : Nat) : Profile :=
  { levels := l.clamped
    keepRatio := keepRatioAt l.particles
    cullDistance := cullDistanceAt l.detail
    shadows := l.shadows
    fog := l.fog
    lodBias := lodBiasAt l.detail
    generation }

def best : Profile := ofLevels .best 0

/-- Whether nothing is dropped for quality. -/
def isLossless (p : Profile) : Bool := (1 : Single) ≤ p.keepRatio && p.cullDistance.isInfinite

/-- Whether two profiles drop the same: what culling reads of them is equal as numbers. -/
def cullsLike (p q : Profile) : Bool :=
  p.keepRatio.numEq q.keepRatio && p.cullDistance.numEq q.cullDistance

end Profile

/-- The load of one frame. -/
structure Sample where
  entities : UInt32 := 0
  particles : UInt32 := 0
  /-- Frame time in milliseconds. -/
  time : Single := 0
  /-- How often an average pixel was drawn. -/
  overdraw : Single := 0
deriving DecidableEq

end RenderStream
