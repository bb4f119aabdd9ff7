import RenderStream.Rect

/-!
# Primitives

A primitive is what one draw submits: the vertices of a triangle or convex fan, in order, and what
they belong to. Its signed area is the shoelace sum over the closed outline, taken in 64 bits so
that small areas survive large coordinates; the sign gives the winding.
-/

namespace RenderStream

/-- Four 8-bit channels. -/
structure Color where
  r : UInt8
  g : UInt8
  b : UInt8
  a : UInt8
deriving DecidableEq

namespace Color

def white : Color := ⟨255, 255, 255, 255⟩

def black : Color := ⟨0, 0, 0, 255⟩

end Color

/-- A transformed vertex: screen position, view depth, texture coordinates, shade. -/
structure Vertex where
  x : Single
  y : Single
  depth : Single
  u : Single := 0
  v : Single := 0
  color : Color := .white
deriving DecidableEq

/-- Order of a primitive's vertices on the screen. -/
inductive Winding where
  /-- Positive signed area. -/
  | counterClockwise
  /-- Negative signed area. -/
  | clockwise
deriving DecidableEq, Inhabited, Repr

/-- What a primitive belongs to. The lossy quality filters apply to entities and particles only. -/
inductive PrimitiveKind where
  | world
  | entity
  | particle
deriving DecidableEq, Inhabited, Repr

/-- A vertex set and its kind. -/
structure Primitive where
  vertices : List Vertex
  kind : PrimitiveKind := .world
deriving DecidableEq

/-- The box around a set of vertices. -/
structure Bounds where
  minX : Single
  minY : Single
  maxX : Single
  maxY : Single
deriving DecidableEq

namespace Bounds

def area (b : Bounds) : Single := (b.maxX - b.minX).max 0 * (b.maxY - b.minY).max 0

def grow (b : Bounds) (v : Vertex) : Bounds :=
  ⟨b.minX.min v.x, b.minY.min v.y, b.maxX.max v.x, b.maxY.max v.y⟩

end Bounds

namespace Primitive

/-- The closed outline: each vertex with its successor, the last with the first. -/
def outline (p : Primitive) : List (Vertex × Vertex) :=
  p.vertices.zip (p.vertices.tail ++ p.vertices.take 1)

/-- Twice the area that one edge sweeps around the origin. -/
def sweep (a b : Vertex) : Double :=
  a.x.widen * b.y.widen - b.x.widen * a.y.widen

/-- Signed area, positive when the vertices run counter-clockwise; zero below three vertices. -/
def signedArea (p : Primitive) : Single :=
  if p.vertices.length < 3 then 0
  else (p.outline.foldl (fun sum e => sum + sweep e.1 e.2) 0 * 0.5 : Double).narrow

def area (p : Primitive) : Single := p.signedArea.abs

/-- The winding, when the signed area has a sign. -/
def winding (p : Primitive) : Option Winding :=
  if 0 < p.signedArea then some .counterClockwise
  else if p.signedArea < 0 then some .clockwise
  else none

/-- The box around the vertices; without vertices the empty box at the origin. -/
def bounds (p : Primitive) : Bounds :=
  match p.vertices with
  | [] => ⟨0, 0, 0, 0⟩
  | v :: vs => vs.foldl .grow ⟨v.x, v.y, v.x, v.y⟩

/-- The least view depth, infinite without vertices. -/
def nearestDepth (p : Primitive) : Single :=
  p.vertices.foldl (fun d v => d.min v.depth) (.infinity false)

end Primitive

end RenderStream
