import RenderStream.Binary

/-!
# Screen rectangles

A rectangle is its four edges, left and top inclusive, right and bottom exclusive. Edges may be
inverted or infinite; sides and area of an inverted rectangle are zero.
-/

namespace RenderStream

/-- An axis-aligned rectangle on the screen, in pixels. -/
structure Rect where
  x0 : Single
  y0 : Single
  x1 : Single
  y1 : Single
deriving DecidableEq

namespace Rect

/-- The rectangle of a given size at the origin. -/
def ofSize (width height : Single) : Rect := ⟨0, 0, width, height⟩

/-- Width, zero when the edges are inverted. -/
def width (r : Rect) : Single := (r.x1 - r.x0).max 0

/-- Height, zero when the edges are inverted. -/
def height (r : Rect) : Single := (r.y1 - r.y0).max 0

def area (r : Rect) : Single := r.width * r.height

/-- The rectangle with every edge moved outward by `margin`. -/
def expand (r : Rect) (margin : Single) : Rect :=
  ⟨r.x0 - margin, r.y0 - margin, r.x1 + margin, r.y1 + margin⟩

/-- Equality of all four edges as numbers. -/
def numEq (a b : Rect) : Bool :=
  a.x0.numEq b.x0 && a.y0.numEq b.y0 && a.x1.numEq b.x1 && a.y1.numEq b.y1

end Rect

end RenderStream
