/-!
# Synchronous fallback

A producer that keeps running into a full queue is too fast for the stage behind it. After a run of
stalled deliveries it awaits every frame before it goes on, which keeps the delay short, until a
long run of frames came through in time.
-/

namespace RenderStream

/-- What the producer remembers of its waits. -/
structure Fallback where
  /-- Stalled deliveries in a row. -/
  stalls : Nat := 0
  /-- Whether every frame is awaited. -/
  active : Bool := false
  /-- Frames in a row that were awaited in time. -/
  calm : Nat := 0
deriving DecidableEq, Repr

namespace Fallback

/-- Calm frames in a row that end the fallback. -/
def recovery : Nat := 120

/-- A delivery. A stall ends the run of calm frames, and a run of stalls turns the fallback on. -/
def deliver (limit : Nat) (stalled : Bool) (f : Fallback) : Fallback :=
  let f := if stalled then { f with stalls := f.stalls + 1, calm := 0 } else { f with stalls := 0 }
  if !f.active && decide (limit ≤ f.stalls) then { f with active := true, calm := 0 } else f

/-- A frame that was awaited. One that came late ends the run of calm frames, and a run of calm
frames turns the fallback off. -/
def await (late : Bool) (f : Fallback) : Fallback :=
  let f := { f with calm := if late then 0 else f.calm + 1 }
  if recovery ≤ f.calm then {} else f

/-- A whole frame: its delivery, and its wait when there is one. -/
def observe (limit : Nat) (stalled late : Bool) (f : Fallback) : Fallback :=
  let f := f.deliver limit stalled
  if f.active then f.await late else f

end Fallback

end RenderStream
