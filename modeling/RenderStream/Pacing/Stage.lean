import RenderStream.Attempt
import RenderStream.Error
import RenderStream.Pacing.Queue

/-!
# Stages

A stage serves items to a sink, one at a time, until it is finished or breaks down. It either runs
in the call that hands an item in, or on a thread of its own behind a bounded queue.
-/

namespace RenderStream

/-- Why a sink takes no further item. -/
inductive Breakdown where
  | failed (cause : PipelineError)
  | panicked
deriving DecidableEq, Repr

/-- What serves items. -/
class Sink (ι : outParam Type) (σ : Type) where
  accept : ι → σ → Attempt Breakdown σ
  /-- Is told that no further item comes. -/
  finish : σ → σ

/-- A sink that serves items. -/
structure Stage (σ : Type) where
  sink : σ
  served : Nat := 0
  /-- Whether it has come to an end of its own, and then how. -/
  breakdown : Option Breakdown := none
  /-- Whether the sink was told that no further item comes. -/
  finished : Bool := false
deriving DecidableEq

namespace Stage

variable {ι σ : Type} [Sink ι σ]

def isUp (s : Stage σ) : Bool := s.breakdown.isNone && !s.finished

/-- The sink is told that no further item comes, once, and not after a panic. -/
def finish (s : Stage σ) : Stage σ :=
  if s.finished || s.breakdown == some .panicked then s
  else { s with sink := Sink.finish s.sink, finished := true }

/-- Serves one item. A sink that gives up is told at once that this was the last one. -/
def serve (s : Stage σ) (item : ι) : Stage σ :=
  if s.isUp then
    let r := Sink.accept item s.sink
    match r.failure with
    | none => { s with sink := r.state, served := s.served + 1 }
    | some e => { s with sink := r.state, breakdown := some e }.finish
  else s

/-- Serves items as long as the stage is up; the others are left over. -/
def serveAll (s : Stage σ) : List ι → Stage σ × List ι
  | [] => (s, [])
  | item :: rest => if s.isUp then (s.serve item).serveAll rest else (s, item :: rest)

/-- What a thread says behind an item that it served: how many items it has served by then. Behind
an item that brought the stage down it says nothing. -/
def word (s : Stage σ) : List Nat := if s.isUp then [s.served] else []

/-- What a thread says while it serves items. -/
def words (s : Stage σ) : List ι → List Nat
  | [] => []
  | item :: rest => (s.serve item).word ++ (s.serve item).words rest

/-- The error that the sink gave up with. -/
def error? (s : Stage σ) : Option PipelineError :=
  match s.breakdown with
  | some (.failed e) => some e
  | _ => none

def panicked (s : Stage σ) : Bool := s.breakdown == some .panicked

/-- Items that the stage answers for. One that panicked answers for none. -/
def account (s : Stage σ) : Nat := if s.panicked then 0 else s.served

end Stage

/-- A stage on a thread of its own. -/
structure Lane (ι σ : Type) where
  queue : Queue ι
  /-- The item taken and not served yet. -/
  hand : Option ι := none
  stage : Stage σ
deriving DecidableEq

namespace Lane

variable {ι σ : Type} [Sink ι σ]

def isGone (l : Lane ι σ) : Bool := !l.queue.consumer

/-- The thread ends; what still waits is never served. -/
def exit (l : Lane ι σ) : Lane ι σ := { l with stage := l.stage.finish, queue := l.queue.abandon }

/-- The next move of the thread, if it has one now: it serves what it has taken, ends after a
breakdown, takes what waits, or ends when nothing can come any more. -/
def act (l : Lane ι σ) : Option (Lane ι σ) :=
  match l.hand with
  | some item => some { l with hand := none, stage := l.stage.serve item }
  | none =>
    if l.isGone then none
    else if !l.stage.isUp then some l.exit
    else
      match l.queue.pop? with
      | some (item, queue) => some { l with hand := some item, queue }
      | none => if l.queue.isEnded then some l.exit else none

/-- What the thread says with its next move. -/
def word (l : Lane ι σ) : List Nat :=
  match l.hand with
  | some item => (l.stage.serve item).word
  | none => []

/-- What the thread still says after its producers are gone. -/
def words (l : Lane ι σ) : List Nat := l.stage.words (l.hand.toList ++ l.queue.items)

/-- The lane after its producers are gone and the thread has ended. -/
def close (l : Lane ι σ) : Lane ι σ :=
  let (stage, items) := l.stage.serveAll (l.hand.toList ++ l.queue.items)
  { queue := { l.queue.close.abandon with items }, stage := stage.finish }

end Lane

/-- A stage as its producer reaches it. -/
inductive Outlet (ι σ : Type) where
  /-- It runs in the call of the producer. -/
  | direct (stage : Stage σ)
  /-- It runs on a thread of its own. -/
  | queued (lane : Lane ι σ)
deriving DecidableEq

namespace Outlet

variable {ι σ : Type} [Sink ι σ]

def start (threaded : Bool) (depth : Nat) (sink : σ) : Outlet ι σ :=
  if threaded then .queued { queue := .ofDepth depth, stage := { sink } } else .direct { sink }

def stage : Outlet ι σ → Stage σ
  | .direct s => s
  | .queued l => l.stage

/-- Whether the stage has a thread of its own. -/
def isQueued : Outlet ι σ → Bool
  | .direct _ => false
  | .queued _ => true

/-- The next move of its thread, if it has a thread that can move. -/
def act : Outlet ι σ → Option (Outlet ι σ)
  | .direct _ => none
  | .queued l => l.act.map .queued

def word : Outlet ι σ → List Nat
  | .direct _ => []
  | .queued l => l.word

def words : Outlet ι σ → List Nat
  | .direct _ => []
  | .queued l => l.words

/-- The stage after its producer is gone and everything that was handed in has been served. -/
def close : Outlet ι σ → Outlet ι σ
  | .direct s => .direct s.finish
  | .queued l => .queued l.close

end Outlet

end RenderStream
