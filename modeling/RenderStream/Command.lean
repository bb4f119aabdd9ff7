import RenderStream.Slot

/-!
# Render commands

The stream is an ordered sequence of commands. Two of them bound the batches that reach the host: a
write to a slot that is not deferrable starts a batch, and a barrier ends one.
-/

namespace RenderStream

/-- One operation for the host. -/
inductive Command where
  | set (slot : Slot) (value : SlotValue)
  | draw (primitive : Primitive)
  /-- Clear the image drawn to, and the depth buffer when a depth is given. -/
  | clear (color : Color) (depth : Option Single)
  /-- Everything before this reaches the host first. -/
  | barrier
deriving DecidableEq

namespace Command

/-- Whether earlier commands must be flushed before this one enters a batch. -/
def opensBatch : Command → Bool
  | .set slot _ => !slot.deferrable
  | _ => false

/-- Whether the batch is flushed once this command is in it. -/
def closesBatch : Command → Bool
  | .barrier => true
  | _ => false

end Command

end RenderStream
