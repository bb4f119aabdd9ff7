import RenderStream.Proofs.Upstream

/-!
# The pipeline without a cache

`processAfresh` is the pipeline that compiles a display list anew whenever it is called and asks no
cache. It takes the place of the real one in proofs about what is sent: here the commands of an item
alone decide what the stream has asked for behind it (`upstream_itemsAfresh`).
-/

namespace RenderStream.Pipeline

open Attempt

variable {η : Type} [Host η]

/-- A display list, compiled in the present state. -/
def callAfresh (p : Pipeline η) (call : ListCall) : Attempt HostError (Pipeline η) :=
  p.replay (.compile p.culling call.commands)

/-- One item. -/
def itemAfresh (p : Pipeline η) : Item → Attempt HostError (Pipeline η)
  | .command c => p.execute c
  | .list call => p.callAfresh call
  | .invalidate scope => ⟨p.invalidate scope, none⟩

/-- The items of a frame, behind what has to be restored. -/
def itemsAfresh (p : Pipeline η) (is : List Item) : Attempt HostError (Pipeline η) :=
  p.restore.andEach itemAfresh noteItem is

/-- The items and the present. -/
def attemptAfresh (p : Pipeline η) (frame : Frame) : Attempt HostError (Pipeline η) :=
  ({ p with ordinal := 0 }.itemsAfresh frame.items).andThen fun p =>
    p.batch.present.map ({ p with batch := · })

/-- One frame. -/
def processAfresh (elapsed : Single) (p : Pipeline η) (frame : Frame) :
    Attempt PipelineError (Pipeline η) :=
  settle frame (frame.time.getD elapsed) (p.attemptAfresh frame)

/-! ## What the stream has asked for -/

variable (p : Pipeline η)

/-- A call that is compiled anew is seen upstream as its commands. -/
theorem upstream_callAfresh (call : ListCall) :
    (p.callAfresh call).state.upstream = p.upstream.sees call.commands := by
  rw [callAfresh, upstream_replay, CompiledList.sees_compile]

/-- An item whose lists are compiled anew is seen upstream as its commands. -/
theorem upstream_itemAfresh (i : Item) :
    (p.itemAfresh i).state.upstream = p.upstream.sees i.commands := by
  cases i with
  | command c => exact p.upstream_execute c
  | list call => exact p.upstream_callAfresh call
  | invalidate scope => rfl

/-- The items of a frame are seen to the last one, wherever the host fails. -/
theorem upstream_itemsAfresh (is : List Item) :
    (p.itemsAfresh is).state.upstream = p.upstream.sees (is.flatMap Item.commands) := by
  rw [itemsAfresh, andEach, ← p.upstream_restore]
  cases p.restore.failure with
  | none => exact upstream_each Item.commands upstream_itemAfresh upstream_noteItem is _
  | some e => exact upstream_foldl Item.commands upstream_noteItem is _

/-- A frame whose lists are compiled anew is seen upstream as its commands. -/
theorem upstream_attemptAfresh (frame : Frame) :
    (p.attemptAfresh frame).state.upstream = p.upstream.sees frame.commands := by
  have hitems := upstream_itemsAfresh { p with ordinal := 0 } frame.items
  rw [attemptAfresh, andThen]
  cases ({ p with ordinal := 0 }.itemsAfresh frame.items).failure with
  | none => exact hitems
  | some e => exact hitems

/-- Behind a frame the stream has asked for all of its commands, and another profile may be in
force. -/
theorem upstream_processAfresh (elapsed : Single) (frame : Frame) :
    (p.processAfresh elapsed frame).state.upstream =
      (p.upstream.sees frame.commands).under
        (p.processAfresh elapsed frame).state.culling.profile := by
  rw [processAfresh, upstream_settle, upstream_attemptAfresh]

end RenderStream.Pipeline
