import RenderStream.Host.Device
import RenderStream.Pacing.Clock
import RenderStream.Pipeline

/-!
# Sessions

A session is the whole layer at work: a frame pipeline in front of a host, behind a producer with
its stages, under one set of settings. Nothing is shared between sessions.
-/

namespace RenderStream

/-- Audio that is only counted. -/
structure Silence where
  samples : Nat := 0
deriving DecidableEq, Repr

instance : Sink AudioPacket Silence where
  accept packet s := ⟨{ s with samples := s.samples + packet.samples.length }, none⟩
  finish s := s

/-- The pipeline as a stage. On the clock of a session processing takes no time, so no time lies
between a frame that does not state its own and the one before. -/
instance {η : Type} [Host η] : Sink Frame (Pipeline η) where
  accept frame p :=
    let r := p.process 0 frame
    ⟨r.state, r.failure.map .failed⟩
  finish p := p

/-- A session. -/
structure Session (η : Type) where
  settings : Settings
  work : Timed (Pipeline η) Silence

namespace Session

variable {η : Type} [Host η]

/-- Starts a session on a host, on a machine with some processors. -/
def start (s : Settings) (host : η) (processors : Nat) : Session η :=
  let s := s.repaired
  { settings := s
    work :=
      { handoff := .ofSettings s.threading processors (Pipeline.ofSettings s host) {}
        patience := s.threading.stallTime.toNat } }

/-- Starts a session on the host that the settings name. -/
def ofSettings (s : Settings) (processors : Nat) : Session Device :=
  start s (.ofKind s.host) processors

def submitFrame (s : Session η) (frame : Frame) : Session η × Except PacingError Unit :=
  let (work, r) := s.work.submitFrame frame
  ({ s with work }, r)

def submitAudio (s : Session η) (packet : AudioPacket) : Session η × Except PacingError Unit :=
  let (work, r) := s.work.submitAudio packet
  ({ s with work }, r)

def runJob (s : Session η) (panics : Bool) : Session η × Except PacingError Unit :=
  let (work, r) := s.work.runJob panics
  ({ s with work }, r)

def pipeline (s : Session η) : Pipeline η := s.work.handoff.graphics.stage.sink

def host (s : Session η) : η := s.pipeline.batch.host

def record (s : Session η) : Record := s.pipeline.display.record

def profile (s : Session η) : Profile := s.pipeline.display.profile

def pacing (s : Session η) : PacingCounts := s.work.handoff.pacing

def mapHost (f : η → η) (s : Session η) : Session η :=
  let onStage (stage : Stage (Pipeline η)) : Stage (Pipeline η) :=
    let p := stage.sink
    { stage with sink := { p with batch := { p.batch with host := f p.batch.host } } }
  let h := s.work.handoff
  let graphics := match h.graphics with
    | .direct stage => .direct (onStage stage)
    | .queued lane => .queued { lane with stage := onStage lane.stage }
  { s with work := { s.work with handoff := { h with graphics } } }

/-- Serves everything submitted, ends every thread, and reports. -/
def shutdown (s : Session η) : Session η × Report :=
  let (handoff, report) := s.work.handoff.shutdown
  ({ s with work := { s.work with handoff } }, report)

end Session

end RenderStream
