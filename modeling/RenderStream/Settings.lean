import RenderStream.Quality.Levels

/-!
# Settings

What a user may set, in sections, each field with a default. Values are kept as they are given; what
is out of range is mended by `Settings.repaired`.
-/

namespace RenderStream

namespace Settings

/-- Threads and queues. -/
structure Threading where
  asyncGraphics : Bool := true
  asyncAudio : Bool := true
  useWorkers : Bool := true
  /-- Number of workers; zero asks the machine. -/
  workerCount : UInt64 := 0
  graphicsDepth : UInt64 := 2
  audioDepth : UInt64 := 2
  /-- Whether display lists are fingerprinted by the workers. -/
  parallelLists : Bool := false
  /-- Milliseconds after which a wait for the queue counts as a stall. -/
  stallTime : UInt64 := 50
  /-- Stalls in a row after which frames are awaited one by one. -/
  stallLimit : UInt32 := 8
deriving DecidableEq

/-- Batches, display lists and failures. -/
structure Batching where
  batchCapacity : UInt64 := 1024
  listCapacity : UInt64 := 256
  /-- Frames lost in a row after which the stage stops. -/
  failureLimit : UInt32 := 3
deriving DecidableEq

/-- Tolerances of culling. -/
structure Culling where
  /-- Area up to which a primitive is degenerate. -/
  areaEpsilon : Single := 1e-6
  /-- Pixels by which the scissor is widened. -/
  scissorTolerance : Single := 0.5
deriving DecidableEq

/-- Targets and budgets of quality control. -/
structure Quality where
  /-- Frame time aimed at, in milliseconds. -/
  targetTime : Single := 16.7
  /-- Pressure above which a level drops. -/
  dropPressure : Single := 1.2
  /-- Pressure below which a frame is calm. -/
  raisePressure : Single := 0.8
  /-- Calm frames in a row that raise a level. -/
  raiseWindow : UInt32 := 20
  /-- Entities that make a pressure of one. -/
  entityBudget : UInt32 := 30
  /-- Particles that make a pressure of one. -/
  particleBudget : UInt32 := 100
  /-- Overdraw that makes a pressure of one. -/
  overdrawBudget : Single := 4
  historyLength : UInt64 := 120
deriving DecidableEq

/-- Size of the image. -/
structure Viewport where
  width : UInt32 := 320
  height : UInt32 := 240
deriving DecidableEq

def Viewport.area (v : Viewport) : Single := .ofNat v.width.toNat * .ofNat v.height.toNat

/-- The host to draw on. -/
inductive HostKind where
  | null
  | recording
deriving DecidableEq, Repr

/-- Levels forced while a scene is shown; an axis not named is at its best. -/
structure SceneOverride where
  scene : String
  particles : Option UInt8 := none
  shadows : Option Shadows := none
  fog : Option Fog := none
  detail : Option UInt8 := none
deriving DecidableEq

def SceneOverride.levels (o : SceneOverride) : Levels :=
  Levels.clamped
    { particles := (o.particles.map UInt8.toNat).getD Levels.best.particles
      shadows := o.shadows.getD Levels.best.shadows
      fog := o.fog.getD Levels.best.fog
      detail := (o.detail.map UInt8.toNat).getD Levels.best.detail }

end Settings

/-- All settings. -/
structure Settings where
  host : Settings.HostKind := .null
  threading : Settings.Threading := {}
  batching : Settings.Batching := {}
  culling : Settings.Culling := {}
  quality : Settings.Quality := {}
  viewport : Settings.Viewport := {}
  overrides : List Settings.SceneOverride := []
deriving DecidableEq

namespace Settings

/-- The levels forced in a scene: those of the first override that names it. -/
def forced? (s : Settings) (scene : String) : Option Levels :=
  (s.overrides.find? (·.scene == scene)).map SceneOverride.levels

/-! ## Equality -/

def floats (s : Settings) : List Single :=
  [s.culling.areaEpsilon, s.culling.scissorTolerance, s.quality.targetTime, s.quality.dropPressure,
    s.quality.raisePressure, s.quality.overdrawBudget]

def withoutFloats (s : Settings) : Settings :=
  { s with
    culling := ⟨0, 0⟩
    quality := { s.quality with
      targetTime := 0
      dropPressure := 0
      raisePressure := 0
      overdrawBudget := 0 } }

/-- Equality of settings, floats compared as numbers. -/
def numEq (s t : Settings) : Bool :=
  s.withoutFloats = t.withoutFloats && (s.floats.zip t.floats).all fun (x, y) => x.numEq y

/-! ## Repair -/

def clampWord (lo hi n : UInt64) : UInt64 := if n < lo then lo else if hi < n then hi else n

def positive (n : UInt32) : UInt32 := if n = 0 then 1 else n

/-- A float moved into a range; the default when it is not a number. -/
def clampFloat (lo hi default x : Single) : Single := if x.isNaN then default else .clamp lo hi x

def Threading.repaired (t : Threading) : Threading :=
  { t with
    graphicsDepth := clampWord 1 3 t.graphicsDepth
    audioDepth := clampWord 1 3 t.audioDepth
    workerCount := clampWord 0 64 t.workerCount
    stallTime := if t.stallTime = 0 then 1 else t.stallTime
    stallLimit := positive t.stallLimit }

def Batching.repaired (b : Batching) : Batching :=
  { batchCapacity := clampWord 1 1048576 b.batchCapacity
    listCapacity := clampWord 1 65536 b.listCapacity
    failureLimit := positive b.failureLimit }

def Culling.repaired (c : Culling) : Culling :=
  let d : Culling := {}
  { areaEpsilon := clampFloat 0 1 d.areaEpsilon c.areaEpsilon
    scissorTolerance := clampFloat 0 64 d.scissorTolerance c.scissorTolerance }

/-- The two pressures in range and apart: unless frames are calm below the pressure that drops a
level, both are the defaults. -/
def pressures (q : Quality) : Single × Single :=
  let d : Quality := {}
  let drop := clampFloat 0.1 100 d.dropPressure q.dropPressure
  let raise := clampFloat 0.01 100 d.raisePressure q.raisePressure
  if drop ≤ raise then (d.dropPressure, d.raisePressure) else (drop, raise)

def Quality.repaired (q : Quality) : Quality :=
  let d : Quality := {}
  { targetTime := clampFloat 1 1000 d.targetTime q.targetTime
    dropPressure := (pressures q).1
    raisePressure := (pressures q).2
    raiseWindow := positive q.raiseWindow
    entityBudget := positive q.entityBudget
    particleBudget := positive q.particleBudget
    overdrawBudget := clampFloat 0.1 1000 d.overdrawBudget q.overdrawBudget
    historyLength := clampWord 1 10000 q.historyLength }

/-- A size without an empty side; the default when one is empty. -/
def Viewport.repaired (v : Viewport) : Viewport := if v.width = 0 || v.height = 0 then {} else v

def SceneOverride.repaired (o : SceneOverride) : SceneOverride :=
  { o with particles := o.particles.map (min · 3), detail := o.detail.map (min · 2) }

def repaired (s : Settings) : Settings :=
  { s with
    threading := s.threading.repaired
    batching := s.batching.repaired
    culling := s.culling.repaired
    quality := s.quality.repaired
    viewport := s.viewport.repaired
    overrides := s.overrides.map SceneOverride.repaired }

end Settings

end RenderStream
