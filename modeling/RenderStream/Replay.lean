import RenderStream.Decimal
import RenderStream.Session

/-!
# Replay of a load trace

A synthetic trace drives a session through light load, overload and recovery, and a table tells what
quality control and the caches made of it, one row a frame.
-/

namespace RenderStream.Replay

/-! ## The trace -/

/-- The load of a stretch of the trace. -/
structure Stretch where
  entities : Nat
  particles : Nat
  /-- Frame time in milliseconds. -/
  time : Single

def light : Stretch := ⟨10, 20, 10⟩

def overload : Stretch := ⟨35, 150, 30⟩

def length : Nat := 180

def stretch (index : Nat) : Stretch := if 30 ≤ index ∧ index < 60 then overload else light

def triangle (x y depth : Nat) (kind : PrimitiveKind) : Command :=
  let vertex (x y : Nat) : Vertex := ⟨.ofNat x, .ofNat y, .ofNat depth, 0, 0, .white⟩
  .draw ⟨[vertex x y, vertex (x + 6) y, vertex x (y + 6)], kind⟩

/-- What stands still, the same display list in every frame. -/
def scenery : ListCall :=
  { commands := .set .texture0 (.handle 1) :: (List.range 64).map fun i =>
      triangle (i % 16 * 18) (i / 16 * 40) (500 + i * 50) .world }

def frame (index : Nat) : Frame :=
  let s := stretch index
  let particles := (List.range s.particles).map fun p =>
    triangle (p * 7 % 300) (p * 13 % 220) 100 .particle
  let entities := (List.range s.entities).map fun e => triangle (e * 9) 120 (800 + e * 120) .entity
  { index := .ofNat index
    scene := some "replay"
    load := ⟨.ofNat s.entities, .ofNat s.particles⟩
    time := some s.time
    items := .command (.clear ⟨0, 0, 0, 255⟩ (some 1)) :: .list scenery ::
      (.set .blendMode (.bits 1) :: particles ++ entities).map .command }

def audio (index : Nat) : AudioPacket := ⟨.ofNat index, List.replicate 735 0⟩

/-! ## The table -/

/-- A text moved to the right end of a column. -/
def right (width : Nat) (text : String) : String :=
  String.ofList (text.toList.leftpad width ' ')

/-- A text moved to the left end of a column. -/
def left (width : Nat) (text : String) : String :=
  String.ofList (text.toList.rightpad width ' ')

def percent (width : Nat) (x : Single) : String := right width ((x * 100).toFixed 0) ++ "%"

def header : String :=
  " ".intercalate
    [right 5 "frame", right 6 "levels", right 10 "particles", right 9 "entities", right 8 "dl_hit",
      right 8 "batches", right 7 "supp", right 8 "overdraw"]

def row (r : Record) : String :=
  let level (a : Axis) := toString (r.levels.get a)
  " ".intercalate
    [right 5 (toString r.index),
      level .particles ++ level .shadows ++ level .fog ++ left 3 (level .detail),
      right 4 (toString r.particlesSkipped) ++ "/" ++ left 5 (toString r.particles),
      right 4 (toString r.entitiesCulled) ++ "/" ++ left 4 (toString r.entities),
      percent 7 r.hitRate,
      right 8 (toString r.batches),
      percent 6 r.suppressionRate,
      right 8 (r.overdraw.toFixed 2)]

def shadows : Shadows → String
  | .baked => "Baked"
  | .dynamic => "Dynamic"

def fog : Fog → String
  | .single => "Single"
  | .multi => "Multi"

def levels (l : Levels) : String :=
  "QualityLevels \x7b particles: " ++ toString l.particles ++ ", shadows: " ++ shadows l.shadows
    ++ ", fog: " ++ fog l.fog ++ ", detail: " ++ toString l.detail ++ " \x7d"

def summary (report : Report) (final : Levels) : List String :=
  ["", "frames processed : " ++ toString report.frames,
    "audio packets    : " ++ toString report.packets,
    "stalls           : " ++ toString report.pacing.stalls,
    "final quality    : " ++ levels final]

/-! ## The run -/

/-- A frame and its audio submitted; nothing if the session refuses one of them. -/
def submit (s : Session Device) (index : Nat) : Session Device × Bool :=
  match s.submitFrame (frame index) with
  | (s, .error _) => (s, false)
  | (s, .ok ()) =>
    match s.submitAudio (audio index) with
    | (s, .error _) => (s, false)
    | (s, .ok ()) => (s, true)

/-- The rows of frames, up to the first one that is refused. -/
def rows (s : Session Device) : List Nat → Session Device × List String
  | [] => (s, [])
  | index :: rest =>
    match submit s index with
    | (s, false) => (s, [])
    | (s, true) =>
      let (t, lines) := rows s rest
      (t, row s.record :: lines)

/-- The whole replay: what is printed, and whether the session ended well. -/
def run (settings : Settings) (processors : Nat) : List String × Bool :=
  let (s, lines) := rows (.ofSettings settings processors) (List.range length)
  let (s, report) := s.shutdown
  (header :: lines ++ summary report s.profile.levels, report.isClean)

/-- The settings of a replay for which none are given. -/
def defaults : Settings := { host := .recording }

end RenderStream.Replay
