import RenderStream.Batch
import RenderStream.Frame
import RenderStream.ListCache
import RenderStream.Overdraw
import RenderStream.SlotCache

/-!
# The frame pipeline

A frame goes through in order: its items, then the present, then measurement, quality control and
publication. It is presented whole or dropped whole. A host failure drops the frame: what the host
holds is then unknown, so the next frame first writes again whatever was wanted. State writes behind
the failing command are not sent, but they are still noted, so nothing that was wanted is lost. Only
a run of dropped frames stops the pipeline.
-/

namespace RenderStream

/-- What is on display. -/
structure Display where
  record : Record := {}
  profile : Profile := .best
deriving DecidableEq

/-- The pipeline in front of a host. -/
structure Pipeline (η : Type) where
  /-- Frames lost in a row that stop the pipeline. -/
  failureLimit : UInt32
  slots : SlotCache := {}
  culling : Culling
  batch : Batch η
  lists : ListCache
  meter : FillMeter
  governor : Governor
  /-- Particles so far in the frame, display lists apart. -/
  ordinal : UInt32 := 0
  /-- Whether the host may have lost what was wanted. -/
  mustRestore : Bool := false
  presented : Nat := 0
  dropped : Nat := 0
  /-- Frames dropped in a row. -/
  failures : UInt32 := 0
  display : Display := {}

namespace Pipeline

variable {η : Type} [Host η]

/-- The pipeline at its start, under settings in range. -/
def ofSettings (s : Settings) (host : η) : Pipeline η :=
  { failureLimit := s.batching.failureLimit
    culling := { tolerances := s.culling }
    batch := .ofHost host s.batching.batchCapacity.toNat
    lists := .empty s.batching.listCapacity.toNat
    meter := .ofSize s.viewport.width s.viewport.height
    governor := .ofSettings s.quality s.overrides }

/-! ## Items -/

def send (p : Pipeline η) (c : Command) : Attempt HostError (Pipeline η) :=
  (p.batch.accept c).map ({ p with batch := · })

/-- A state write: seen by culling, and sent unless the host holds the value. -/
def write (p : Pipeline η) (s : Slot) (v : SlotValue) : Attempt HostError (Pipeline η) :=
  let (slots, command) := p.slots.set s v
  let p := { p with culling := p.culling.observe s v, slots }
  match command with
  | some c => p.send c
  | none => ⟨p, none⟩

/-- A draw: sent if culling keeps it. -/
def draw (p : Pipeline η) (x : Primitive) : Attempt HostError (Pipeline η) :=
  let (culling, verdict) := p.culling.judge x p.ordinal
  let p := { p with culling, ordinal := CompiledList.nextOrdinal p.ordinal x }
  if verdict = .keep then { p with meter := p.meter.record x.area 1 }.send (.draw x)
  else ⟨p, none⟩

def execute (p : Pipeline η) : Command → Attempt HostError (Pipeline η)
  | .set s v => p.write s v
  | .draw x => p.draw x
  | c => p.send c

/-- A state write noted and not sent; other commands leave no trace. -/
def note (p : Pipeline η) : Command → Pipeline η
  | .set s v => { p with culling := p.culling.observe s v, slots := p.slots.note s v }
  | _ => p

/-- One command of a compiled list: culled already. -/
def replayCommand (p : Pipeline η) : Command → Attempt HostError (Pipeline η)
  | .set s v => p.write s v
  | c => p.send c

/-- A compiled list: its verdicts and its area are added as a whole. -/
def replay (p : Pipeline η) (l : CompiledList) : Attempt HostError (Pipeline η) :=
  let p :=
    { p with
      culling := { p.culling with counts := p.culling.counts.add l.counts }
      meter := p.meter.record l.covered l.draws }
  .each replayCommand note p l.commands

/-- The compiled form of a list in the present state, from the cache or put there. -/
def compiled (p : Pipeline η) (call : ListCall) : Pipeline η × CompiledList :=
  let key := call.fingerprint.combine p.culling.fingerprint
  match p.lists.lookup key with
  | (lists, some l) => ({ p with lists }, l)
  | (lists, none) =>
    let l := CompiledList.compile p.culling call.commands
    ({ p with lists := (lists.insert key l).1 }, l)

def call (p : Pipeline η) (c : ListCall) : Attempt HostError (Pipeline η) :=
  let (p, l) := p.compiled c
  p.replay l

def invalidate (p : Pipeline η) (scope : Scope) : Pipeline η :=
  { p with
    slots := p.slots.invalidate scope
    lists := if scope = .caches then p.lists.invalidate else p.lists }

def item (p : Pipeline η) : Item → Attempt HostError (Pipeline η)
  | .command c => p.execute c
  | .list c => p.call c
  | .invalidate scope => ⟨p.invalidate scope, none⟩

/-- One item of a frame that is lost: state writes are noted and invalidations hold. -/
def noteItem (p : Pipeline η) : Item → Pipeline η
  | .command c => p.note c
  | .list c => c.commands.foldl note p
  | .invalidate scope => p.invalidate scope

/-- What the host may have lost is written again. -/
def restore (p : Pipeline η) : Attempt HostError (Pipeline η) :=
  if p.mustRestore then
    let (slots, commands) := p.slots.restore
    .each send (fun p _ => p) { p with slots, mustRestore := false } commands
  else ⟨p, none⟩

/-- The items of a frame, behind what has to be restored. -/
def items (p : Pipeline η) (is : List Item) : Attempt HostError (Pipeline η) :=
  p.restore.andEach item noteItem is

/-! ## Outcome -/

def keepFrame (p : Pipeline η) : Pipeline η :=
  { p with presented := p.presented + 1, failures := 0 }

/-- The frame is dropped, and nothing is known about the host. -/
def dropFrame (p : Pipeline η) : Pipeline η :=
  { p with
    batch := p.batch.discard
    slots := p.slots.invalidate .allState
    mustRestore := true
    dropped := p.dropped + 1
    failures := p.failures + 1 }

/-- A profile in force for the next frame. Lists compiled under another one are of no use. -/
def adopt (p : Pipeline η) (profile : Profile) : Pipeline η :=
  { p with
    culling := { p.culling with profile }
    lists := if p.culling.profile.cullsLike profile then p.lists else p.lists.invalidate }

/-- A count in 32 bits, the greatest one for all that are too large. -/
def saturate (n : Nat) : UInt32 := .ofNat (min n (UInt32.size - 1))

def recordOf (p : Pipeline η) (frame : Frame) (presented : Bool) (time overdraw : Single) :
    Record :=
  let counts := p.culling.counts
  let record : Record :=
    { index := frame.index
      presented
      particles := counts.particles
      particlesSkipped := counts.decimated
      entities := counts.entities
      entitiesCulled := counts.distant
      tested := counts.tested
      discarded := counts.discarded
      listHits := saturate p.lists.frame.hits
      listMisses := saturate p.lists.frame.misses
      listEvictions := saturate p.lists.frame.evictions
      batches := p.batch.counts.batches
      commands := p.batch.counts.commands
      stateRequests := p.slots.counts.requests
      stateSuppressed := p.slots.counts.suppressed
      time
      overdraw
      dropped := .ofNat p.dropped
      failures := p.failures }
  record.withQuality p.governor

def cleared (p : Pipeline η) : Pipeline η :=
  { p with
    culling := { p.culling with counts := {} }
    slots := { p.slots with counts := {} }
    batch := { p.batch with counts := {} }
    lists := p.lists.takeFrame.1 }

/-- The end of a frame that did not stop the pipeline: it is measured, quality follows, and the
record is published. -/
def conclude (p : Pipeline η) (frame : Frame) (presented : Bool) (time : Single) : Pipeline η :=
  let overdraw := p.meter.fill.overdraw
  let sample : Sample := ⟨frame.load.entities, frame.load.particles, time, overdraw⟩
  let governor := p.governor.observe sample frame.scene
  let p := { p with meter := p.meter.cleared, governor }.adopt governor.profile
  { p.cleared with
    display := { record := p.recordOf frame presented time overdraw, profile := governor.profile } }

/-- The items and the present. -/
def attempt (p : Pipeline η) (frame : Frame) : Attempt HostError (Pipeline η) :=
  ({ p with ordinal := 0 }.items frame.items).andThen fun p =>
    p.batch.present.map ({ p with batch := · })

/-- What comes of an attempted frame: it was presented, or it is dropped, or it was one too many. -/
def settle (frame : Frame) (time : Single) (r : Attempt HostError (Pipeline η)) :
    Attempt PipelineError (Pipeline η) :=
  match r.failure with
  | none => ⟨r.state.keepFrame.conclude frame true time, none⟩
  | some e =>
    let q := r.state.dropFrame
    if q.failureLimit ≤ q.failures then ⟨q, some (.framesLost q.failures e)⟩
    else ⟨q.conclude frame false time, none⟩

/-- One frame. `elapsed` is the time since the last frame, for a frame that does not state its own.
-/
def process (elapsed : Single) (p : Pipeline η) (frame : Frame) :
    Attempt PipelineError (Pipeline η) :=
  settle frame (frame.time.getD elapsed) (p.attempt frame)

end Pipeline

end RenderStream
