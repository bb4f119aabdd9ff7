import RenderStream.Binary

/-!
# Overdraw

How often an average pixel is drawn: the area of all that is drawn in a frame over the area of the
image. Nothing is known about what hides what, so this is an upper bound.
-/

namespace RenderStream

/-- The measure of one frame. -/
structure Fill where
  covered : Double
  draws : UInt32
  /-- Area drawn over area of the image. -/
  overdraw : Single
deriving DecidableEq

/-- What is measured in a frame. -/
structure FillMeter where
  /-- Area of the image, one at least. -/
  area : Double
  covered : Double := 0
  draws : UInt32 := 0
deriving DecidableEq

namespace FillMeter

/-- A meter for an image of a given size. -/
def ofSize (width height : UInt32) : FillMeter :=
  { area := (.ofNat width.toNat * .ofNat height.toNat : Double).max 1 }

/-- Primitives drawn, with their area. An area that is not finite and positive is not added. -/
def record (m : FillMeter) (area : Single) (draws : UInt32) : FillMeter :=
  { m with
    covered := if area.isFinite && (0 : Single) < area then m.covered + area.widen else m.covered
    draws := m.draws + draws }

def fill (m : FillMeter) : Fill :=
  { covered := m.covered, draws := m.draws, overdraw := (m.covered / m.area).narrow }

def cleared (m : FillMeter) : FillMeter := { area := m.area }

end FillMeter

end RenderStream
