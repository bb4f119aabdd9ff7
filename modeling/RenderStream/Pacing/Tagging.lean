import RenderStream.Frame
import RenderStream.Pacing.Workers

/-!
# Tagging display lists ahead of time

The fingerprint of a display list depends on its commands only, so the workers may compute it before
the frame reaches the graphics stage. Nothing but the tags of a frame changes.
-/

namespace RenderStream

namespace Item

/-- The call of a list that still lacks its fingerprint. -/
def untagged? : Item → Option ListCall
  | .list call => if call.isTagged then none else some call
  | _ => none

/-- The items with the calls that lack a fingerprint replaced by others, in order. -/
def replaceUntagged : List Item → List ListCall → List Item
  | [], _ => []
  | is, [] => is
  | i :: is, call :: calls =>
    if i.untagged?.isSome then .list call :: replaceUntagged is calls
    else i :: replaceUntagged is (call :: calls)

end Item

namespace Frame

/-- Has the workers compute the missing fingerprints. One alone is not worth the detour. -/
def tagLists (frame : Frame) (w : Workers) : Workers × Except PacingError Frame :=
  let calls := frame.items.filterMap Item.untagged?
  if calls.length < 2 then (w, .ok frame)
  else
    let (w, r) := w.mapOrdered (fun call => some call.tagged) calls
    (w, r.map fun calls => { frame with items := Item.replaceUntagged frame.items calls })

end Frame

end RenderStream
