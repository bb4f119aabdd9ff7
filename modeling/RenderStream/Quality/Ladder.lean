import RenderStream.Settings

/-!
# Hysteresis on one axis

A level drops at once when the pressure is too high, and rises by one only after a whole window of
calm frames. Any move, any frame that is not calm and any frame under an override starts the window
anew, so a level that oscillates around a threshold stays low.
-/

namespace RenderStream

/-- One axis under control. -/
structure Ladder where
  /-- The best level. -/
  top : Nat
  level : Nat := top
  /-- Calm frames in a row since the last move. -/
  calm : Nat := 0
deriving DecidableEq, Repr

/-- What one frame did to a level. -/
inductive Move where
  | hold
  | dropped (source target : Nat)
  | raised (source target : Nat)
deriving DecidableEq, Repr

def Settings.Quality.isHigh (q : Settings.Quality) (pressure : Single) : Bool :=
  q.dropPressure < pressure

def Settings.Quality.isCalm (q : Settings.Quality) (pressure : Single) : Bool :=
  !q.isHigh pressure && pressure < q.raisePressure

namespace Ladder

def ofAxis (a : Axis) : Ladder := { top := a.top }

/-- One level down, the window anew. -/
def down (l : Ladder) : Ladder × Move :=
  if l.level = 0 then ({ l with calm := 0 }, .hold)
  else ({ l with level := l.level - 1, calm := 0 }, .dropped l.level (l.level - 1))

/-- One level up, the window anew. -/
def up (l : Ladder) : Ladder × Move :=
  ({ l with level := l.level + 1, calm := 0 }, .raised l.level (l.level + 1))

def rest (window : Nat) (l : Ladder) : Ladder × Move :=
  if l.level = l.top then ({ l with calm := 0 }, .hold)
  else if window ≤ l.calm + 1 then l.up
  else ({ l with calm := l.calm + 1 }, .hold)

def step (q : Settings.Quality) (pressure : Single) (l : Ladder) : Ladder × Move :=
  if q.isHigh pressure then l.down
  else if q.isCalm pressure then l.rest q.raiseWindow.toNat
  else ({ l with calm := 0 }, .hold)

/-- One frame under an override: one level toward the forced one, the window anew. -/
def toward (target : Nat) (l : Ladder) : Ladder × Move :=
  let goal := min target l.top
  if goal < l.level then l.down
  else if l.level < goal then l.up
  else ({ l with calm := 0 }, .hold)

end Ladder

end RenderStream
