import RenderStream.Primitive

/-!
# Host state

The host keeps one value in each of a closed set of slots. A slot may hold a value of any form; only
the slots read by culling give one form a meaning. `SlotMap` holds something for every slot.
-/

namespace RenderStream

/-- Which faces the host discards. -/
inductive CullMode where
  | none
  | back
  | front
  | both
deriving DecidableEq, Inhabited, Repr

/-- A piece of host state. -/
inductive Slot where
  | blendMode
  | depthMode
  | cullMode
  | frontFace
  | scissor
  | viewport
  | combiner
  | fogColor
  | primitiveColor
  | environmentColor
  | texture0
  | texture1
  /-- Image drawn to. -/
  | renderTarget
deriving DecidableEq, Inhabited, Repr

namespace Slot

abbrev count : Nat := 13

/-- Every slot, in index order. -/
def all : List Slot :=
  [.blendMode, .depthMode, .cullMode, .frontFace, .scissor, .viewport, .combiner, .fogColor,
    .primitiveColor, .environmentColor, .texture0, .texture1, .renderTarget]

/-- Position of a slot in `all`. -/
def index : Slot → Fin count
  | .blendMode => 0
  | .depthMode => 1
  | .cullMode => 2
  | .frontFace => 3
  | .scissor => 4
  | .viewport => 5
  | .combiner => 6
  | .fogColor => 7
  | .primitiveColor => 8
  | .environmentColor => 9
  | .texture0 => 10
  | .texture1 => 11
  | .renderTarget => 12

def name : Slot → String
  | .blendMode => "BlendMode"
  | .depthMode => "DepthMode"
  | .cullMode => "CullMode"
  | .frontFace => "FrontFace"
  | .scissor => "Scissor"
  | .viewport => "Viewport"
  | .combiner => "Combiner"
  | .fogColor => "FogColor"
  | .primitiveColor => "PrimitiveColor"
  | .environmentColor => "EnvironmentColor"
  | .texture0 => "Texture0"
  | .texture1 => "Texture1"
  | .renderTarget => "RenderTarget"

/-- Whether a write may sit in a batch behind earlier work. A change of the image drawn to may not:
what was recorded for the old image goes out first. -/
def deferrable (s : Slot) : Bool := s != .renderTarget

/-- Every slot is one of all. -/
theorem mem_all (s : Slot) : s ∈ all := by cases s <;> decide

/-- Slots have indices of their own. -/
theorem index_inj {s t : Slot} : s.index = t.index ↔ s = t := by
  constructor
  · intro h
    cases s <;> cases t <;> first | rfl | exact absurd h (by decide)
  · exact congrArg index

end Slot

/-- A value held in a slot. -/
inductive SlotValue where
  | flag (on : Bool)
  /-- Packed register bits. -/
  | bits (word : UInt64)
  | color (c : Color)
  | rect (r : Rect)
  | cull (mode : CullMode)
  | winding (w : Winding)
  | handle (id : UInt32)
deriving DecidableEq

namespace SlotValue

/-- Equality as the host sees it: edges of rectangles compare as numbers, all else by value. -/
def numEq : SlotValue → SlotValue → Bool
  | .rect a, .rect b => a.numEq b
  | a, b => a = b

end SlotValue

/-- What is out of date after a change that did not come through the stream. -/
inductive Scope where
  | slot (s : Slot)
  | allState
  /-- Every slot and every compiled display list. -/
  | caches
deriving DecidableEq, Repr

/-- Something for every slot. -/
structure SlotMap (α : Type) where
  /-- The entries, by index. -/
  entries : Vector α Slot.count
deriving DecidableEq

namespace SlotMap

variable {α : Type}

def const (a : α) : SlotMap α := ⟨.replicate _ a⟩

def get (m : SlotMap α) (s : Slot) : α := m.entries[s.index]

def set (m : SlotMap α) (s : Slot) (a : α) : SlotMap α := ⟨m.entries.set s.index a⟩

@[simp] theorem get_const (a : α) (s : Slot) : (const a).get s = a := by
  simp [const, get]

/-- What is put into a slot is found there, and the others are left. -/
theorem get_set (m : SlotMap α) (s t : Slot) (a : α) :
    (m.set s a).get t = if s = t then a else m.get t := by
  simp only [set, get, Fin.getElem_fin, Vector.getElem_set, ← Slot.index_inj, Fin.ext_iff]

@[simp] theorem get_set_self (m : SlotMap α) (s : Slot) (a : α) : (m.set s a).get s = a := by
  simp [get_set]

/-- What is put into a slot leaves the others. -/
theorem get_set_of_ne (m : SlotMap α) {s t : Slot} (a : α) (h : s ≠ t) :
    (m.set s a).get t = m.get t := by
  simp [get_set, h]

end SlotMap

end RenderStream
