import Mathlib.Data.List.Forall2
import RenderStream.Proofs.Afresh
import RenderStream.Proofs.Requests

/-!
# Runs

A run feeds a pipeline one frame after another, and goes on whatever comes of them. Beside it stands
the run of the pipeline without a cache.
-/

namespace RenderStream

/-- A frame and the time that passed before it came. -/
structure Arrival where
  elapsed : Single := 0
  frame : Frame

/-- The frame time: the stated one, or else the time that passed. -/
def Arrival.time (a : Arrival) : Single := a.frame.time.getD a.elapsed

/-- The same frame under the same frame time. -/
structure Arrival.Same (a b : Arrival) : Prop where
  frame_eq : a.frame = b.frame
  time_eq : a.time = b.time

/-- A frame that states its time is the same whenever it comes. -/
theorem Arrival.same_of_stated {a b : Arrival} (h : a.frame = b.frame) (ht : a.frame.time.isSome) :
    a.Same b := by
  obtain ⟨t, ht⟩ := Option.isSome_iff_exists.1 ht
  refine ⟨h, ?_⟩
  rw [time, time, ← h, ht]
  rfl

/-- The settings with another capacity of the cache of compiled lists. -/
def Settings.withLists (s : Settings) (n : UInt64) : Settings :=
  { s with batching := { s.batching with listCapacity := n } }

/-- The stream before its first frame. -/
def Settings.upstream (s : Settings) : Upstream := { culling := { tolerances := s.culling } }

/-- The commands of a sequence of frames. -/
def Arrival.commands (as : List Arrival) : List Command := as.flatMap (·.frame.commands)

/-- What can be seen of a pipeline from outside when it is done with a frame. -/
structure Outcome (η : Type) where
  result : Except PipelineError Unit
  /-- The host, with all that it was asked for. -/
  host : η
  /-- What is published, apart from the traffic of the cache of compiled lists. -/
  display : Display

/-- A display that says nothing about the cache of compiled lists. -/
def Display.withoutLists (d : Display) : Display :=
  { d with record := { d.record with listHits := 0, listMisses := 0, listEvictions := 0 } }

namespace Pipeline

variable {η : Type} [Host η]

/-- One frame more. -/
def feed (p : Pipeline η) (a : Arrival) : Attempt PipelineError (Pipeline η) :=
  process a.elapsed p a.frame

/-- A sequence of frames more. -/
def run (p : Pipeline η) (as : List Arrival) : Pipeline η :=
  as.foldl (fun p a => (p.feed a).state) p

/-- The requests for compiled lists that a sequence of frames makes. -/
def requests (p : Pipeline η) : List Arrival → List Request
  | [] => []
  | a :: as => p.upstream.requests a.frame.items ++ (p.feed a).state.requests as

omit [Host η] in
/-- What is seen when a frame is done with. -/
def outcome (r : Attempt PipelineError (Pipeline η)) : Outcome η :=
  ⟨r.result, r.state.batch.host, r.state.display.withoutLists⟩

/-- What is seen behind every frame. -/
def outcomes (p : Pipeline η) : List Arrival → List (Outcome η)
  | [] => []
  | a :: as => outcome (p.feed a) :: (p.feed a).state.outcomes as

/-- One frame more, without a cache. -/
def feedAfresh (p : Pipeline η) (a : Arrival) : Attempt PipelineError (Pipeline η) :=
  p.processAfresh a.elapsed a.frame

/-- A sequence of frames more, without a cache. -/
def runAfresh (p : Pipeline η) (as : List Arrival) : Pipeline η :=
  as.foldl (fun p a => (p.feedAfresh a).state) p

/-- What is seen behind every frame, without a cache. -/
def outcomesAfresh (p : Pipeline η) : List Arrival → List (Outcome η)
  | [] => []
  | a :: as => outcome (p.feedAfresh a) :: (p.feedAfresh a).state.outcomesAfresh as

/-! ## Along a run -/

/-- The requests of frames are those of the first ones, and then those of the others behind them. -/
theorem requests_append (as bs : List Arrival) :
    ∀ p : Pipeline η, p.requests (as ++ bs) = p.requests as ++ (p.run as).requests bs := by
  induction as with
  | nil => exact fun p => rfl
  | cons a as ih =>
    intro p
    rw [List.cons_append, requests, requests, ih, List.append_assoc]
    rfl

/-- A longer run makes the requests of a shorter one first. -/
theorem requests_prefix (as bs : List Arrival) (p : Pipeline η) {r : Request}
    (h : r ∈ p.requests as) : r ∈ p.requests (as ++ bs) := by
  rw [requests_append]
  exact List.mem_append_left _ h

/-- The stream has asked for all commands of all frames, and the profile in force is the last one.
-/
theorem upstream_runAfresh (as : List Arrival) :
    ∀ p : Pipeline η, (p.runAfresh as).upstream =
      (p.upstream.sees (Arrival.commands as)).under (p.runAfresh as).culling.profile := by
  induction as with
  | nil => exact fun p => rfl
  | cons a as ih =>
    intro p
    have hrest := ih (p.feedAfresh a).state
    rw [feedAfresh, upstream_processAfresh, Upstream.sees_under, ← Upstream.sees_append] at hrest
    exact hrest

end Pipeline

/-! ## A stream to try things on -/

namespace Demo

/-- A triangle near the origin. -/
def triangle (kind : PrimitiveKind) : Primitive :=
  { vertices := [⟨1, 1, 2, 0, 0, .white⟩, ⟨5, 1, 2, 0, 0, .white⟩, ⟨1, 5, 2, 0, 0, .white⟩], kind }

/-- A tagged display list that draws, moves the scissor away from where it draws, and draws again.
-/
def list : ListCall :=
  { commands :=
      [.draw (triangle .particle), .draw (triangle .particle),
        .set .scissor (.rect ⟨50, 50, 90, 90⟩), .draw (triangle .world)]
    tag := some ⟨7, 7⟩ }

/-- A frame that sets the scissor to where the list draws and calls the list twice. Its load calls
for less quality. -/
def frame (fog : Color) : Frame :=
  { load := { particles := 500 }
    time := some 20
    items :=
      [.command (.set .fogColor (.color fog)), .command (.set .scissor (.rect ⟨0, 0, 9, 9⟩)),
        .list list, .command .barrier, .list list] }

/-- The frame, some time after the one before. -/
def arrival (elapsed : Single) (fog : Color) : Arrival := ⟨elapsed, frame fog⟩

theorem same_arrival (elapsed elapsed' : Single) (fog : Color) :
    (arrival elapsed fog).Same (arrival elapsed' fog) := Arrival.same_of_stated rfl rfl

/-- Small batches, so that a frame takes several calls of the host. -/
def settings : Settings := { batching := { batchCapacity := 2 } }

/-- A host that refuses the batch behind a number of calls, and loses what its slots held. -/
def refusing (n : Nat) : Script :=
  { failure := fun k => if k = n then some .deviceLost else none
    leaves := fun k => .const (.bits (.ofNat k)) }

end Demo

end RenderStream
