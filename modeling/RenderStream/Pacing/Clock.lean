import RenderStream.Pacing.Handoff

/-!
# Pacing on a virtual clock

One particular schedule: the stages move as soon as they can, and time passes only while the
producer has nothing else to do than wait. The graphics stage needs a known time for each frame;
everything else takes none.
-/

namespace RenderStream

/-- A handoff on a virtual clock, in milliseconds. -/
structure Timed (γ α : Type) where
  handoff : Handoff γ α
  /-- Longest wait that is no stall. -/
  patience : Nat
  /-- Time that the graphics stage needs for a frame. -/
  cost : Frame → Nat := fun _ => 0
  now : Nat := 0
  /-- When the frame in hand will have been served. -/
  due : Nat := 0
  /-- When the producer began to wait. -/
  since : Nat := 0

namespace Timed

variable {γ α : Type} [Sink Frame γ] [Sink AudioPacket α]

/-- The frame that the graphics stage has taken and not served yet. -/
def hand? (w : Timed γ α) : Option Frame :=
  match w.handoff.graphics with
  | .queued lane => lane.hand
  | .direct _ => none

/-- The next move of the graphics stage, if it has one at this time. -/
def actGraphics (w : Timed γ α) : Option (Timed γ α) :=
  if w.hand?.isSome && decide (w.now < w.due) then none
  else do
    let handoff ← w.handoff.turn .graphics
    let w := { w with handoff }
    return { w with due := (w.hand?.map fun frame => w.now + w.cost frame).getD w.due }

/-- The next move of the audio stage, if it has one. -/
def actAudio (w : Timed γ α) : Option (Timed γ α) :=
  (w.handoff.turn .audio).map ({ w with handoff := · })

/-- The next move of the producer, if it need not wait. A wait begins with the move before it. -/
def actProducer (w : Timed γ α) : Option (Timed γ α) := do
  let handoff ← w.handoff.turn (.producer (decide (w.since + w.patience < w.now)))
  let waits := match w.handoff.phase with
    | .awaiting => true
    | _ => false
  return { w with handoff, since := if waits then w.since else w.now }

/-- What happens next: a stage moves, or else the producer does, or else time passes until a frame
has been served. -/
def next (w : Timed γ α) : Timed γ α :=
  (w.actGraphics <|> w.actAudio <|> w.actProducer).getD { w with now := max w.now w.due }

/-- As many moves as are given, until the call has returned. -/
def advance (w : Timed γ α) : Nat → Timed γ α
  | 0 => w
  | n + 1 => if w.handoff.result?.isSome then w else w.next.advance n

/-- Moves that a call needs at most. Each item on its way is taken and served, time may pass for it,
and the producer hears of it; the producer makes five moves of its own, and each stage may end. -/
def moves (w : Timed γ α) : Nat :=
  let waiting := match w.handoff.graphics, w.handoff.audio with
    | .queued g, .queued a => g.queue.items.length + a.queue.items.length
    | .queued g, _ => g.queue.items.length
    | _, .queued a => a.queue.items.length
    | _, _ => 0
  4 * (waiting + (w.handoff.completions.submitted - w.handoff.completions.completed) + 4)

def finishCall (w : Timed γ α) : Timed γ α × Except PacingError Unit :=
  let w := w.advance w.moves
  (w, w.handoff.result?.getD (.error .graphicsStopped))

def submitFrame (w : Timed γ α) (frame : Frame) : Timed γ α × Except PacingError Unit :=
  { w with handoff := w.handoff.beginFrame frame }.finishCall

def submitAudio (w : Timed γ α) (packet : AudioPacket) : Timed γ α × Except PacingError Unit :=
  { w with handoff := w.handoff.beginAudio packet }.finishCall

def runJob (w : Timed γ α) (panics : Bool) : Timed γ α × Except PacingError Unit :=
  let (handoff, r) := w.handoff.runJob panics
  ({ w with handoff }, r)

end Timed

end RenderStream
