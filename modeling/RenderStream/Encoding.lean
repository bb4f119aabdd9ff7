import RenderStream.Command

/-!
# Byte encoding

The bytes over which fingerprints are taken. Every command starts with a tag, every slot value with
the tag of its form, and the vertices of a primitive with their count, so that a sequence of
commands can be read back from its bytes. Numbers are little-endian, floats are their patterns.
-/

namespace RenderStream.Encoding

def u8 (n : UInt8) : List UInt8 := [n]

/-- Four bytes, the least significant first. -/
def u32 (n : UInt32) : List UInt8 :=
  [n.toUInt8, (n >>> 8).toUInt8, (n >>> 16).toUInt8, (n >>> 24).toUInt8]

/-- Eight bytes, the least significant first. -/
def u64 (n : UInt64) : List UInt8 :=
  [n.toUInt8, (n >>> 8).toUInt8, (n >>> 16).toUInt8, (n >>> 24).toUInt8,
    (n >>> 32).toUInt8, (n >>> 40).toUInt8, (n >>> 48).toUInt8, (n >>> 56).toUInt8]

def length (n : Nat) : List UInt8 := u64 (UInt64.ofNat n)

def single (x : Single) : List UInt8 := u32 ⟨x.bits⟩

def color (c : Color) : List UInt8 := [c.r, c.g, c.b, c.a]

def rect (r : Rect) : List UInt8 := single r.x0 ++ single r.y0 ++ single r.x1 ++ single r.y1

def cullMode : CullMode → List UInt8
  | .none => [0]
  | .back => [1]
  | .front => [2]
  | .both => [3]

def winding : Winding → List UInt8
  | .counterClockwise => [0]
  | .clockwise => [1]

def kind : PrimitiveKind → List UInt8
  | .world => [0]
  | .entity => [1]
  | .particle => [2]

def slot (s : Slot) : List UInt8 := [UInt8.ofNat s.index]

/-- A slot value: the tag of its form, then the value. -/
def slotValue : SlotValue → List UInt8
  | .flag on => 0 :: [if on then 1 else 0]
  | .bits word => 1 :: u64 word
  | .color c => 2 :: color c
  | .rect r => 3 :: rect r
  | .cull mode => 4 :: cullMode mode
  | .winding w => 5 :: winding w
  | .handle id => 6 :: u32 id

def vertex (v : Vertex) : List UInt8 :=
  single v.x ++ single v.y ++ single v.depth ++ single v.u ++ single v.v ++ color v.color

/-- The vertices of a primitive, without a count. -/
def vertices (p : Primitive) : List UInt8 := p.vertices.flatMap vertex

/-- A primitive: its kind, the number of vertices, the vertices. -/
def primitive (p : Primitive) : List UInt8 :=
  kind p.kind ++ length p.vertices.length ++ vertices p

def depth : Option Single → List UInt8
  | none => [0]
  | some d => 1 :: single d

/-- A command: its tag, then its fields. -/
def command : Command → List UInt8
  | .set s value => 1 :: (slot s ++ slotValue value)
  | .draw p => 2 :: primitive p
  | .clear c d => 3 :: (color c ++ depth d)
  | .barrier => [4]

/-- A sequence of commands: their number, then each. -/
def commands (cs : List Command) : List UInt8 := length cs.length ++ cs.flatMap command

end RenderStream.Encoding
