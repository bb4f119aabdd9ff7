import RenderStream.Pacing.Completions
import RenderStream.Pacing.Fallback
import RenderStream.Pacing.Stage
import RenderStream.Pacing.Tagging
import RenderStream.Settings
import RenderStream.Telemetry

/-!
# Handing frames and audio over

The producer hands frames to the graphics stage and packets to the audio stage, each in order.
Stages on threads of their own run beside it, so a call of the producer is a sequence of short moves
between which the threads may move too. `Handoff.turn` is one move of any of them; a schedule is a
list of turns. What the clock says enters a turn of the producer as one bit: whether its present
wait has been longer than a wait should be.

A graphics stage on a thread of its own says how many frames it has served, and the producer counts
a frame as served when it hears so; what it waits for depends on nothing else. A stage that broke
down refuses what comes after, and shutdown reports what it broke down with.
-/

namespace RenderStream

/-- Where the producer stands. -/
inductive Phase where
  /-- Between two calls; the last one ended so. -/
  | free (result : Except PacingError Unit)
  /-- Offering a frame, for the first time or after a wait. -/
  | pushing (frame : Frame) (waited : Bool)
  /-- Awaiting every frame submitted so far. -/
  | awaiting
  /-- Hearing of the frames served meanwhile. -/
  | settling
  | mixing (packet : AudioPacket)

/-- A producer with its stages. -/
structure Handoff (γ α : Type) where
  /-- Whether display lists are fingerprinted by the workers. -/
  parallelLists : Bool
  /-- Stalls in a row that turn the fallback on. -/
  stallLimit : Nat
  graphics : Outlet Frame γ
  audio : Outlet AudioPacket α
  workers : Workers
  fallback : Fallback := {}
  /-- The frames that were handed to the thread of the graphics stage, if it has one. -/
  completions : Completions := {}
  /-- What is published, for display only. -/
  counts : PacingCounts := {}
  phase : Phase := .free (.ok ())

/-- What a handoff did in its life. -/
structure Report where
  frames : Nat := 0
  packets : Nat := 0
  /-- The error that stopped the graphics stage. -/
  error : Option PipelineError := none
  panicked : Bool := false
  pacing : PacingCounts := {}
deriving DecidableEq

/-- Whether the graphics stage ran until shutdown. -/
def Report.isClean (r : Report) : Bool := r.error.isNone && !r.panicked

/-- A move of one of the threads. -/
inductive Turn where
  | producer (late : Bool)
  | graphics
  | audio
deriving DecidableEq, Repr

namespace Handoff

variable {γ α : Type} [Sink Frame γ] [Sink AudioPacket α]

/-- The stages that the settings ask for, on a machine with some processors. -/
def ofSettings (t : Settings.Threading) (processors : Nat) (graphics : γ) (audio : α) :
    Handoff γ α :=
  { parallelLists := t.parallelLists
    stallLimit := t.stallLimit.toNat
    graphics := .start t.asyncGraphics t.graphicsDepth.toNat graphics
    audio := .start t.asyncAudio t.audioDepth.toNat audio
    workers :=
      if t.useWorkers then .ofCount (Workers.countFor t.workerCount.toNat processors) else .inline }

def pacing (h : Handoff γ α) : PacingCounts := { h.counts with fallback := h.fallback.active }

def give (h : Handoff γ α) (result : Except PacingError Unit) : Handoff γ α :=
  { h with phase := .free result }

/-- The producer hears that so many frames have been served. -/
def hear (h : Handoff γ α) (done : Nat) : Handoff γ α :=
  { h with completions := h.completions.receive done, counts := h.counts.complete }

/-- The producer receives every count there is, one at a time. -/
def hearAll (h : Handoff γ α) : Handoff γ α := h.completions.channel.foldl hear h

/-! ## Calls -/

def serveFrame (h : Handoff γ α) (stage : Stage γ) (frame : Frame) : Handoff γ α :=
  if stage.isUp then
    let stage := stage.serve frame
    let h := { h with graphics := .direct stage, counts := h.counts.submit }
    if stage.isUp then { h with counts := h.counts.complete }.give (.ok ())
    else h.give (.error .graphicsStopped)
  else h.give (.error .graphicsStopped)

/-- The call with a frame whose lists are as they should be. -/
def handFrame (h : Handoff γ α) (frame : Frame) : Handoff γ α :=
  match h.graphics with
  | .direct stage => h.serveFrame stage frame
  | .queued _ => { h with phase := .pushing frame false }

def beginFrame (h : Handoff γ α) (frame : Frame) : Handoff γ α :=
  if h.parallelLists && h.workers.isThreaded then
    let (workers, r) := frame.tagLists h.workers
    let h := { h with workers }
    match r with
    | .ok frame => h.handFrame frame
    | .error e => h.give (.error e)
  else h.handFrame frame

def beginAudio (h : Handoff γ α) (packet : AudioPacket) : Handoff γ α :=
  match h.audio with
  | .direct stage =>
    { h with audio := .direct (stage.serve packet), counts := h.counts.audio }.give (.ok ())
  | .queued _ => { h with phase := .mixing packet }

def runJob (h : Handoff γ α) (panics : Bool) : Handoff γ α × Except PacingError Unit :=
  match h.workers.execute panics with
  | .ok workers => ({ h with workers }, .ok ())
  | .error e => (h, .error e)

/-! ## Turns -/

def pushed (h : Handoff γ α) (delivery : Delivery) : Handoff γ α :=
  let fallback := h.fallback.deliver h.stallLimit delivery.isStall
  let counts := h.counts.submit
  { h with
    fallback
    completions := h.completions.submit
    counts := if delivery.isStall then counts.stall else counts
    phase := if fallback.active then .awaiting else .settling }

/-- The producer goes on with its call, unless it has to wait or is between two calls. -/
def act (late : Bool) (h : Handoff γ α) : Option (Handoff γ α) :=
  match h.phase, h.graphics, h.audio with
  | .pushing frame waited, .queued lane, _ =>
    match lane.queue.offer frame with
    | (_, .refused) => some (h.give (.error .graphicsStopped))
    | (_, .full) => if waited then none else some { h with phase := .pushing frame true }
    | (queue, .taken) =>
      let delivery := if waited then .afterWait late else .immediate
      some ({ h with graphics := .queued { lane with queue } }.pushed delivery)
  | .awaiting, .queued lane, _ =>
    if h.completions.completed < h.completions.submitted then
      match h.completions.channel with
      | done :: _ => some (h.hear done)
      | [] => if lane.isGone then some (h.give (.error .graphicsStopped)) else none
    else some { h with fallback := h.fallback.await late, phase := .settling }
  | .settling, .queued _, _ =>
    match h.completions.channel with
    | done :: _ => some (h.hear done)
    | [] => some (h.give (.ok ()))
  | .mixing packet, _, .queued lane =>
    match lane.queue.offer packet with
    | (_, .refused) => some (h.give (.error .audioStopped))
    | (_, .full) => none
    | (queue, .taken) =>
      some ({ h with audio := .queued { lane with queue }, counts := h.counts.audio }.give (.ok ()))
  | _, _, _ => none

def turn (h : Handoff γ α) : Turn → Option (Handoff γ α)
  | .producer late => h.act late
  | .graphics =>
    h.graphics.act.map ({ h with
      graphics := ·
      completions := h.completions.send h.graphics.word })
  | .audio => h.audio.act.map ({ h with audio := · })

/-- A schedule, if every turn of it is possible. -/
def run (h : Handoff γ α) (schedule : List Turn) : Option (Handoff γ α) := schedule.foldlM turn h

/-- How the last call ended, if it has. -/
def result? (h : Handoff γ α) : Option (Except PacingError Unit) :=
  match h.phase with
  | .free r => some r
  | _ => none

/-! ## Shutdown -/

/-- Everything handed over is served, every thread has ended, and the producer has heard of it. The
threads have nothing to do with each other any more, so their order does not matter. -/
def shutdown (h : Handoff γ α) : Handoff γ α × Report :=
  let h :=
    { h with
      graphics := h.graphics.close
      completions := h.completions.send h.graphics.words }.hearAll
  let h := { h with audio := h.audio.close, workers := h.workers.shutdown, fallback := {} }
  (h,
    { frames := h.graphics.stage.account
      packets := h.audio.stage.account
      error := h.graphics.stage.error?
      panicked := h.graphics.stage.panicked
      pacing := h.pacing })

end Handoff

end RenderStream
