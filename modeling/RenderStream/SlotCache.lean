import RenderStream.Telemetry
import RenderStream.Command

/-!
# Redundant state writes

The cache knows, for every slot, which value the host holds, if that is known, and which value was
last wanted. A write of what the host holds is left out. What the host holds may be forgotten; what
was wanted never is, so it can be written again.
-/

namespace RenderStream

/-- Counts of state writes. -/
structure SlotCounts where
  requests : UInt32 := 0
  emitted : UInt32 := 0
  suppressed : UInt32 := 0
  invalidations : UInt32 := 0
deriving DecidableEq

def SlotCounts.rate (c : SlotCounts) : Single := share c.suppressed c.requests

/-- What the host holds and what it should hold. -/
structure SlotCache where
  /-- What the host is known to hold. -/
  held : SlotMap (Option SlotValue) := .const none
  /-- What was last wanted. -/
  wanted : SlotMap (Option SlotValue) := .const none
  counts : SlotCounts := {}

namespace SlotCache

/-- Whether the host is known to hold a value already. -/
def holds (c : SlotCache) (s : Slot) (v : SlotValue) : Bool := (c.held.get s).any (·.numEq v)

/-- A value wanted without being sent. -/
def note (c : SlotCache) (s : Slot) (v : SlotValue) : SlotCache :=
  { c with wanted := c.wanted.set s (some v) }

def emit (c : SlotCache) (s : Slot) (v : SlotValue) : SlotCache :=
  { c with
    held := c.held.set s (some v)
    counts := { c.counts with emitted := c.counts.emitted + 1 } }

/-- A value wanted: the command to send, unless the host holds the value. -/
def set (c : SlotCache) (s : Slot) (v : SlotValue) : SlotCache × Option Command :=
  let c := { c.note s v with counts := { c.counts with requests := c.counts.requests + 1 } }
  if c.holds s v then
    ({ c with counts := { c.counts with suppressed := c.counts.suppressed + 1 } }, none)
  else (c.emit s v, some (.set s v))

/-- The command that brings one slot to what was wanted. -/
def restoreSlot (c : SlotCache) (s : Slot) : SlotCache × List Command :=
  match c.wanted.get s with
  | none => (c, [])
  | some v => if c.holds s v then (c, []) else (c.emit s v, [.set s v])

def restoreNext (r : SlotCache × List Command) (s : Slot) : SlotCache × List Command :=
  let (c, more) := r.1.restoreSlot s
  (c, r.2 ++ more)

/-- The commands that bring every slot to what was wanted, in slot order. -/
@[irreducible] def restore (c : SlotCache) : SlotCache × List Command :=
  Slot.all.foldl restoreNext (c, [])

def invalidate (c : SlotCache) (scope : Scope) : SlotCache :=
  { c with
    held := match scope with
      | .slot s => c.held.set s none
      | .allState | .caches => .const none
    counts := { c.counts with invalidations := c.counts.invalidations + 1 } }

end SlotCache

end RenderStream
