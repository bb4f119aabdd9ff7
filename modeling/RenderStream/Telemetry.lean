import RenderStream.Quality.Governor

/-!
# Telemetry

One record is published for every frame that was processed, with the profile in force after it.
Counts of pacing go on independently. Nobody reads the board to decide anything: it is for display.
-/

namespace RenderStream

/-- What is published about a frame. -/
structure Record where
  index : UInt64 := 0
  presented : Bool := false
  particles : UInt32 := 0
  particlesSkipped : UInt32 := 0
  entities : UInt32 := 0
  entitiesCulled : UInt32 := 0
  tested : UInt32 := 0
  discarded : UInt32 := 0
  listHits : UInt32 := 0
  listMisses : UInt32 := 0
  listEvictions : UInt32 := 0
  batches : UInt32 := 0
  commands : UInt32 := 0
  stateRequests : UInt32 := 0
  stateSuppressed : UInt32 := 0
  /-- Frame time in milliseconds. -/
  time : Single := 0
  leastTime : Single := 0
  meanTime : Single := 0
  greatestTime : Single := 0
  /-- How often an average pixel was drawn. -/
  overdraw : Single := 0
  dropped : UInt64 := 0
  failures : UInt32 := 0
  /-- The levels in force for the next frame. -/
  levels : Levels := .best
deriving DecidableEq

/-- A part of a whole; zero when there is no whole. -/
def share (part whole : UInt32) : Single :=
  if whole = 0 then 0 else .ofNat part.toNat / .ofNat whole.toNat

namespace Record

def hitRate (r : Record) : Single := share r.listHits (r.listHits + r.listMisses)

def suppressionRate (r : Record) : Single := share r.stateSuppressed r.stateRequests

def skipRate (r : Record) : Single := share r.particlesSkipped r.particles

/-- The record with what quality control knows: frame times remembered and levels in force. -/
def withQuality (r : Record) (g : Governor) : Record :=
  let t := g.window.frameTimes
  { r with
    leastTime := t.least, meanTime := t.mean, greatestTime := t.greatest, levels := g.levels }

end Record

/-- Counts of pacing. -/
structure PacingCounts where
  submitted : Nat := 0
  completed : Nat := 0
  stalls : Nat := 0
  audioPackets : Nat := 0
  /-- Whether frames are awaited one by one. -/
  fallback : Bool := false
deriving DecidableEq, Repr

namespace PacingCounts

def submit (c : PacingCounts) : PacingCounts := { c with submitted := c.submitted + 1 }

def complete (c : PacingCounts) : PacingCounts := { c with completed := c.completed + 1 }

def stall (c : PacingCounts) : PacingCounts := { c with stalls := c.stalls + 1 }

def audio (c : PacingCounts) : PacingCounts := { c with audioPackets := c.audioPackets + 1 }

end PacingCounts

end RenderStream
