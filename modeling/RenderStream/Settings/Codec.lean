import RenderStream.Settings
import RenderStream.Toml.Printer

/-!
# Settings as documents

Each type of field has a codec: how a value stands in a document, and which values of a document are
read as one. A section is a table; what it does not name keeps its default, and names it does not
know are passed over. A section may also be written as an array of its fields in order.
-/

namespace RenderStream

open Toml (Value)

/-- How values of a type stand in a document. -/
structure Codec (α : Type) where
  encode : α → Value
  decode : Value → Option α

namespace Codec

def flag : Codec Bool where
  encode := .flag
  decode
    | .flag on => some on
    | _ => none

/-- A natural number below a bound. -/
def nat (bound : Nat) : Codec Nat where
  encode n := .integer n
  decode
    | .integer n => if 0 ≤ n && n < bound then some n.toNat else none
    | _ => none

def map {α β : Type} (c : Codec α) (back : β → α) (f : α → β) : Codec β where
  encode b := c.encode (back b)
  decode v := (c.decode v).map f

def word8 : Codec UInt8 := (nat UInt8.size).map UInt8.toNat UInt8.ofNat

def word32 : Codec UInt32 := (nat UInt32.size).map UInt32.toNat UInt32.ofNat

def word64 : Codec UInt64 := (nat UInt64.size).map UInt64.toNat UInt64.ofNat

/-- A float. It is written in 64 bits; an integer is read as the float nearest to it. -/
def single : Codec Single where
  encode x := .float x.widen
  decode
    | .float x => some x.narrow
    | .integer n => some (.ofInt n)
    | _ => none

def text : Codec String where
  encode := .text
  decode
    | .text s => some s
    | _ => none

def isEmpty : Value → Bool
  | .table [] => true
  | .array [] => true
  | _ => false

/-- A choice by name: a string, or a table whose one key is the name and holds nothing. -/
def choice {α : Type} (name : α → String) (all : List α) : Codec α where
  encode a := .text (name a)
  decode
    | .text s => all.find? (name · == s)
    | .table [(s, v)] => if isEmpty v then all.find? (name · == s) else none
    | _ => none

end Codec

/-! ## Sections -/

/-- The fields of a section: by key in a table, by position in an array. -/
inductive Fields where
  /-- Fields by key. -/
  | keyed (entries : List (String × Value))
  /-- Fields by position. -/
  | listed (elements : List Value)

namespace Fields

/-- The fields that a value holds. A date stands for a table without known keys. -/
def ofValue : Value → Option Fields
  | .table entries => some (.keyed entries)
  | .array elements => some (.listed elements)
  | .moment _ => some (.keyed [])
  | _ => none

def get? (fields : Fields) (position : Nat) (key : String) : Option Value :=
  match fields with
  | .keyed entries => entries.lookup key
  | .listed elements => elements[position]?

def require {α : Type} (fields : Fields) (c : Codec α) (position : Nat) (key : String) :
    Option α := do
  c.decode (← fields.get? position key)

def optional {α : Type} (fields : Fields) (c : Codec α) (position : Nat) (key : String) :
    Option (Option α) :=
  match fields.get? position key with
  | none => some none
  | some v => (c.decode v).map some

def read {α : Type} (fields : Fields) (c : Codec α) (default : α) (position : Nat) (key : String) :
    Option α :=
  (fields.optional c position key).map (·.getD default)

end Fields

namespace Settings

def HostKind.name : HostKind → String
  | .null => "null"
  | .recording => "recording"

def HostKind.codec : Codec HostKind := .choice HostKind.name [.null, .recording]

end Settings

def Shadows.name : Shadows → String
  | .baked => "baked"
  | .dynamic => "dynamic"

def Shadows.codec : Codec Shadows := .choice Shadows.name [.baked, .dynamic]

def Fog.name : Fog → String
  | .single => "single"
  | .multi => "multi"

def Fog.codec : Codec Fog := .choice Fog.name [.single, .multi]

namespace Settings

def Threading.codec : Codec Threading where
  encode t := .table [
    ("enable_async_graphics", Codec.flag.encode t.asyncGraphics),
    ("enable_async_audio", Codec.flag.encode t.asyncAudio),
    ("enable_worker_threads", Codec.flag.encode t.useWorkers),
    ("worker_thread_count", Codec.word64.encode t.workerCount),
    ("graphics_queue_depth", Codec.word64.encode t.graphicsDepth),
    ("audio_queue_depth", Codec.word64.encode t.audioDepth),
    ("enable_parallel_rsp", Codec.flag.encode t.parallelLists),
    ("backpressure_stall_ms", Codec.word64.encode t.stallTime),
    ("stall_limit", Codec.word32.encode t.stallLimit)]
  decode v := do
    let d : Threading := {}
    let f ← Fields.ofValue v
    return {
      asyncGraphics := ← f.read .flag d.asyncGraphics 0 "enable_async_graphics"
      asyncAudio := ← f.read .flag d.asyncAudio 1 "enable_async_audio"
      useWorkers := ← f.read .flag d.useWorkers 2 "enable_worker_threads"
      workerCount := ← f.read .word64 d.workerCount 3 "worker_thread_count"
      graphicsDepth := ← f.read .word64 d.graphicsDepth 4 "graphics_queue_depth"
      audioDepth := ← f.read .word64 d.audioDepth 5 "audio_queue_depth"
      parallelLists := ← f.read .flag d.parallelLists 6 "enable_parallel_rsp"
      stallTime := ← f.read .word64 d.stallTime 7 "backpressure_stall_ms"
      stallLimit := ← f.read .word32 d.stallLimit 8 "stall_limit" }

def Batching.codec : Codec Batching where
  encode b := .table [
    ("batch_capacity", Codec.word64.encode b.batchCapacity),
    ("display_list_capacity", Codec.word64.encode b.listCapacity),
    ("max_consecutive_submit_failures", Codec.word32.encode b.failureLimit)]
  decode v := do
    let d : Batching := {}
    let f ← Fields.ofValue v
    return {
      batchCapacity := ← f.read .word64 d.batchCapacity 0 "batch_capacity"
      listCapacity := ← f.read .word64 d.listCapacity 1 "display_list_capacity"
      failureLimit := ← f.read .word32 d.failureLimit 2 "max_consecutive_submit_failures" }

def Culling.codec : Codec Culling where
  encode c := .table [
    ("degenerate_area_epsilon", Codec.single.encode c.areaEpsilon),
    ("scissor_tolerance", Codec.single.encode c.scissorTolerance)]
  decode v := do
    let d : Culling := {}
    let f ← Fields.ofValue v
    return {
      areaEpsilon := ← f.read .single d.areaEpsilon 0 "degenerate_area_epsilon"
      scissorTolerance := ← f.read .single d.scissorTolerance 1 "scissor_tolerance" }

def Quality.codec : Codec Quality where
  encode q := .table [
    ("target_frame_ms", Codec.single.encode q.targetTime),
    ("drop_pressure", Codec.single.encode q.dropPressure),
    ("raise_pressure", Codec.single.encode q.raisePressure),
    ("raise_window", Codec.word32.encode q.raiseWindow),
    ("entity_budget", Codec.word32.encode q.entityBudget),
    ("particle_budget", Codec.word32.encode q.particleBudget),
    ("overdraw_budget", Codec.single.encode q.overdrawBudget),
    ("history_len", Codec.word64.encode q.historyLength)]
  decode v := do
    let d : Quality := {}
    let f ← Fields.ofValue v
    return {
      targetTime := ← f.read .single d.targetTime 0 "target_frame_ms"
      dropPressure := ← f.read .single d.dropPressure 1 "drop_pressure"
      raisePressure := ← f.read .single d.raisePressure 2 "raise_pressure"
      raiseWindow := ← f.read .word32 d.raiseWindow 3 "raise_window"
      entityBudget := ← f.read .word32 d.entityBudget 4 "entity_budget"
      particleBudget := ← f.read .word32 d.particleBudget 5 "particle_budget"
      overdrawBudget := ← f.read .single d.overdrawBudget 6 "overdraw_budget"
      historyLength := ← f.read .word64 d.historyLength 7 "history_len" }

def Viewport.codec : Codec Viewport where
  encode v := .table [
    ("width", Codec.word32.encode v.width),
    ("height", Codec.word32.encode v.height)]
  decode v := do
    let d : Viewport := {}
    let f ← Fields.ofValue v
    return {
      width := ← f.read .word32 d.width 0 "width"
      height := ← f.read .word32 d.height 1 "height" }

/-- An override. A level that is not forced is not written. -/
def SceneOverride.codec : Codec SceneOverride where
  encode o := .table ([
    some ("scene", Codec.text.encode o.scene),
    o.particles.map fun n => ("particles", Codec.word8.encode n),
    o.shadows.map fun s => ("shadows", Shadows.codec.encode s),
    o.fog.map fun g => ("fog", Fog.codec.encode g),
    o.detail.map fun n => ("detail", Codec.word8.encode n)].filterMap id)
  decode v := do
    let f ← Fields.ofValue v
    return {
      scene := ← f.require .text 0 "scene"
      particles := ← f.optional .word8 1 "particles"
      shadows := ← f.optional Shadows.codec 2 "shadows"
      fog := ← f.optional Fog.codec 3 "fog"
      detail := ← f.optional .word8 4 "detail" }

def overridesCodec : Codec (List SceneOverride) where
  encode os := .array (os.map SceneOverride.codec.encode)
  decode
    | .array vs => vs.mapM SceneOverride.codec.decode
    | _ => none

def codec : Codec Settings where
  encode s := .table [
    ("backend", HostKind.codec.encode s.host),
    ("threading", Threading.codec.encode s.threading),
    ("batching", Batching.codec.encode s.batching),
    ("culling", Culling.codec.encode s.culling),
    ("quality", Quality.codec.encode s.quality),
    ("viewport", Viewport.codec.encode s.viewport),
    ("scene_overrides", overridesCodec.encode s.overrides)]
  decode v := do
    let d : Settings := {}
    let f ← Fields.ofValue v
    return {
      host := ← f.read HostKind.codec d.host 0 "backend"
      threading := ← f.read Threading.codec d.threading 1 "threading"
      batching := ← f.read Batching.codec d.batching 2 "batching"
      culling := ← f.read Culling.codec d.culling 3 "culling"
      quality := ← f.read Quality.codec d.quality 4 "quality"
      viewport := ← f.read Viewport.codec d.viewport 5 "viewport"
      overrides := ← f.read overridesCodec d.overrides 6 "scene_overrides" }

end Settings

end RenderStream
