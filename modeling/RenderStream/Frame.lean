import RenderStream.Fingerprint

/-!
# Frames

A frame is everything that was produced for one presented image: an ordered list of items, the load
it was produced under and the scene it shows. It is presented whole or dropped whole. Audio travels
beside the frames, in packets.
-/

namespace RenderStream

/-- A call of a display list: the commands, and a fingerprint when one is already known. A tag is
believed, so it has to be the fingerprint of the commands for a cached result to be the right one.
-/
structure ListCall where
  commands : List Command
  /-- The fingerprint, when one came with the call. -/
  tag : Option Fingerprint := none
deriving DecidableEq

namespace ListCall

/-- The fingerprint of the list: the tag, or else the digest of the commands. -/
def fingerprint (call : ListCall) : Fingerprint := call.tag.getD (.ofCommands call.commands)

def isTagged (call : ListCall) : Bool := call.tag.isSome

def tagged (call : ListCall) : ListCall := { call with tag := some call.fingerprint }

@[simp] theorem fingerprint_tagged (call : ListCall) :
    call.tagged.fingerprint = call.fingerprint := rfl

@[simp] theorem isTagged_tagged (call : ListCall) : call.tagged.isTagged = true := rfl

end ListCall

/-- One item of a frame. -/
inductive Item where
  | command (c : Command)
  | list (call : ListCall)
  /-- Notice that something changed on the host outside the stream. -/
  | invalidate (scope : Scope)
deriving DecidableEq

/-- What the frame was produced under. -/
structure Load where
  entities : UInt32 := 0
  particles : UInt32 := 0
deriving DecidableEq

/-- A frame. -/
structure Frame where
  index : UInt64 := 0
  scene : Option String := none
  load : Load := {}
  /-- Frame time in milliseconds, when the producer states it. -/
  time : Option Single := none
  items : List Item := []
deriving DecidableEq

namespace Frame

def listCalls (frame : Frame) : List ListCall :=
  frame.items.filterMap fun
    | .list call => some call
    | _ => none

end Frame

/-- Interleaved samples that belong to one frame. -/
structure AudioPacket where
  index : UInt64 := 0
  samples : List Int16 := []
deriving DecidableEq

end RenderStream
