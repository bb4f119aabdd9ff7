import RenderStream.Fingerprint
import RenderStream.Quality.Levels
import RenderStream.Settings

/-!
# Culling

A primitive is left out when it cannot draw a pixel (it has no area, lies beyond the scissor, or is
turned away), or when quality demands it (an entity too far away, a particle off the stride). The
cheaper tests come first and the first that fails gives the verdict. Tolerances widen what is kept.
-/

namespace RenderStream

/-- What becomes of a primitive. -/
inductive Verdict where
  | keep
  | degenerate
  | outsideScissor
  | backFacing
  | distant
  /-- It is off the stride of kept particles. -/
  | decimated
deriving DecidableEq, Repr

/-- Counts of verdicts. -/
structure CullCounts where
  tested : UInt32 := 0
  degenerate : UInt32 := 0
  outsideScissor : UInt32 := 0
  backFacing : UInt32 := 0
  distant : UInt32 := 0
  decimated : UInt32 := 0
  entities : UInt32 := 0
  particles : UInt32 := 0
deriving DecidableEq

namespace CullCounts

def record (c : CullCounts) (kind : PrimitiveKind) (v : Verdict) : CullCounts :=
  { tested := c.tested + 1
    degenerate := c.degenerate + if v = .degenerate then 1 else 0
    outsideScissor := c.outsideScissor + if v = .outsideScissor then 1 else 0
    backFacing := c.backFacing + if v = .backFacing then 1 else 0
    distant := c.distant + if v = .distant then 1 else 0
    decimated := c.decimated + if v = .decimated then 1 else 0
    entities := c.entities + if kind = .entity then 1 else 0
    particles := c.particles + if kind = .particle then 1 else 0 }

def discarded (c : CullCounts) : UInt32 :=
  c.degenerate + c.outsideScissor + c.backFacing + c.distant + c.decimated

def add (c d : CullCounts) : CullCounts :=
  { tested := c.tested + d.tested
    degenerate := c.degenerate + d.degenerate
    outsideScissor := c.outsideScissor + d.outsideScissor
    backFacing := c.backFacing + d.backFacing
    distant := c.distant + d.distant
    decimated := c.decimated + d.decimated
    entities := c.entities + d.entities
    particles := c.particles + d.particles }

end CullCounts

/-- Whether the particle at a position of the sequence is kept: the share kept rises to a new whole
number there. -/
def keepOnStride (ordinal : UInt32) (ratio : Single) : Bool :=
  if (1 : Single) ≤ ratio then true
  else if ratio ≤ (0 : Single) then false
  else
    let r := ratio.widen
    let i : Double := .ofNat ordinal.toNat
    (i * r).floor < ((i + 1) * r).floor

/-- The host state that culling depends on. -/
structure CullView where
  /-- The scissor, once one was set. -/
  scissor : Option Rect := none
  /-- Faces left out. -/
  mode : CullMode := .none
  front : Winding := .counterClockwise
deriving DecidableEq

namespace CullView

/-- A state write seen. Only a value of the slot's own form has a meaning. -/
def observe (w : CullView) (s : Slot) (v : SlotValue) : CullView :=
  match s, v with
  | .scissor, .rect r => { w with scissor := some r }
  | .cullMode, .cull m => { w with mode := m }
  | .frontFace, .winding f => { w with front := f }
  | _, _ => w

/-- Whether the faces of a winding are left out. -/
def rejects (w : CullView) (facing : Winding) : Bool :=
  match w.mode with
  | .none => false
  | .back => facing != w.front
  | .front => facing == w.front
  | .both => true

end CullView

/-- Whether a box lies beyond one side of a rectangle. -/
def Bounds.beyond (b : Bounds) (r : Rect) : Bool :=
  b.maxX < r.x0 || r.x1 < b.minX || b.maxY < r.y0 || r.y1 < b.minY

/-- Culling of one stream. -/
structure Culling where
  tolerances : Settings.Culling
  view : CullView := {}
  profile : Profile := .best
  counts : CullCounts := {}
deriving DecidableEq

namespace Culling

def observe (c : Culling) (s : Slot) (v : SlotValue) : Culling :=
  { c with view := c.view.observe s v }

/-- The quality tests, by kind. -/
def lossyVerdict (profile : Profile) (p : Primitive) (ordinal : UInt32) : Verdict :=
  match p.kind with
  | .world => .keep
  | .entity => if profile.cullDistance < p.nearestDepth then .distant else .keep
  | .particle => if keepOnStride ordinal profile.keepRatio then .keep else .decimated

/-- The verdict on a primitive; `ordinal` is its place among the particles. -/
def test (c : Culling) (p : Primitive) (ordinal : UInt32) : Verdict :=
  let area := p.signedArea
  let facing : Winding := if (0 : Single) < area then .counterClockwise else .clockwise
  if area.abs ≤ c.tolerances.areaEpsilon then .degenerate
  else if c.view.scissor.any fun r => p.bounds.beyond (r.expand c.tolerances.scissorTolerance) then
    .outsideScissor
  else if c.view.rejects facing then .backFacing
  else lossyVerdict c.profile p ordinal

def judge (c : Culling) (p : Primitive) (ordinal : UInt32) : Culling × Verdict :=
  let v := c.test p ordinal
  ({ c with counts := c.counts.record p.kind v }, v)

/-- The bytes that stand for all that verdicts depend on, tolerances apart. -/
def bytes (c : Culling) : List UInt8 :=
  (match c.view.scissor with
    | some r => 1 :: Encoding.rect r
    | none => [0]) ++
  Encoding.cullMode c.view.mode ++ Encoding.winding c.view.front ++
  Encoding.single c.profile.keepRatio ++ Encoding.single c.profile.cullDistance

/-- The fingerprint of all that verdicts depend on, tolerances apart. -/
def fingerprint (c : Culling) : Fingerprint := .ofBytes c.bytes

end Culling

end RenderStream
