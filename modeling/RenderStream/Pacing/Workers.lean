import RenderStream.Error

/-!
# Workers

A pool of threads that run jobs, oldest first, each job once. A job that panics is counted and does
no other harm: its panic is caught around the job, so that the worker goes on with the next one. A
worker leaves its loop at a queue that is closed and empty. A pool without threads runs every job in
the call that hands it in, before shutdown and after.

What a job does is its owner's business. The pool numbers the jobs in the order in which it accepted
them and keeps the order in which they ended, which is all that the owner has to know of the
schedule.
-/

namespace RenderStream

/-- How a call comes to its end. -/
inductive Exit where
  | returned
  /-- It unwinds, and so does its caller unless it catches the panic. -/
  | panicked
deriving DecidableEq, Repr

/-- A job. -/
structure Job where
  /-- Its number: how many jobs were accepted before it. -/
  number : Nat
  /-- Whether it panics when it runs. -/
  panics : Bool := false
deriving DecidableEq, Repr

def Job.exit (job : Job) : Exit := if job.panics then .panicked else .returned

/-- What a thread of a pool is doing. -/
inductive Worker where
  /-- It waits for a job. -/
  | idle
  | busy (job : Job)
  /-- Its loop is over. -/
  | exited
deriving DecidableEq, Repr

namespace Worker

def job? : Worker → Option Job
  | .busy job => some job
  | .idle | .exited => none

/-- A worker behind a turn of its loop. A panic that leaves the turn ends the loop. -/
def after : Exit → Worker
  | .returned => .idle
  | .panicked => .exited

/-- A worker once its job has ended. -/
def freed : Worker → Worker
  | .busy _ => .after .returned
  | w => w

end Worker

/-- A pool of workers. -/
structure Workers where
  /-- Number of threads; none for a pool that runs jobs in the caller. -/
  threads : Option Nat := none
  isOpen : Bool := true
  accepted : Nat := 0
  /-- Jobs that wait, oldest first. -/
  waiting : List Job := []
  crew : List Worker := []
  /-- Jobs that ended, in that order. -/
  ended : List Job := []
  /-- Number of jobs that returned. -/
  completed : Nat := 0
  /-- Number of jobs that panicked. -/
  panicked : Nat := 0
deriving DecidableEq

/-- A move of a thread. -/
inductive Workers.Turn where
  /-- A worker that waits takes the oldest job. -/
  | take (worker : Nat)
  /-- The job of a worker comes to its end. -/
  | finish (worker : Nat)
  /-- A worker that waits leaves its loop. -/
  | exit (worker : Nat)
deriving DecidableEq, Repr

namespace Workers

/-- Jobs that may wait for each thread. -/
def jobsPerThread : Nat := 16

/-- Threads left to the graphics and the audio stage. -/
def reserved : Nat := 2

/-- The number of threads to start. Zero asks for what the machine has left, at least one. -/
def countFor (requested processors : Nat) : Nat :=
  if requested = 0 then max (processors - reserved) 1 else requested

def inline : Workers := {}

def ofCount (count : Nat) : Workers :=
  { threads := some count, crew := List.replicate count .idle }

def isThreaded (w : Workers) : Bool := w.threads.isSome && w.isOpen

def count (w : Workers) : Nat := if w.isOpen then w.threads.getD 0 else 0

def running (w : Workers) : List Job := w.crew.filterMap Worker.job?

def hasRun (w : Workers) (number : Nat) : Bool :=
  w.ended.any fun job => job.number == number && !job.panics

/-! ## The threads -/

/-- Runs a job and counts it. Its panic is caught here, so the call returns in either case. -/
def runJob (w : Workers) (job : Job) : Workers × Exit :=
  let w := { w with ended := w.ended ++ [job] }
  match job.exit with
  | .returned => ({ w with completed := w.completed + 1 }, .returned)
  | .panicked => ({ w with panicked := w.panicked + 1 }, .returned)

def turn (w : Workers) : Turn → Option Workers
  | .take i =>
    match w.crew[i]?, w.waiting with
    | some .idle, job :: rest => some { w with waiting := rest, crew := w.crew.set i (.busy job) }
    | _, _ => none
  | .finish i =>
    match w.crew[i]? with
    | some (.busy job) =>
      let (w, exit) := w.runJob job
      some { w with crew := w.crew.set i (.after exit) }
    | _ => none
  | .exit i =>
    match w.crew[i]? with
    | some .idle =>
      if w.waiting.isEmpty && !w.isOpen then some { w with crew := w.crew.set i .exited } else none
    | _ => none

/-- The pool once nothing runs or waits: the jobs that run end first, then the others in their
order. -/
def drain (w : Workers) : Workers :=
  (w.running ++ w.waiting).foldl (fun w job => (w.runJob job).1)
    { w with waiting := [], crew := w.crew.map Worker.freed }

/-! ## The owner -/

def hasRoom (w : Workers) : Bool := decide (w.waiting.length < w.threads.getD 0 * jobsPerThread)

def enqueue (w : Workers) (panics : Bool) : Workers :=
  { w with accepted := w.accepted + 1, waiting := w.waiting ++ [⟨w.accepted, panics⟩] }

def runHere (w : Workers) (panics : Bool) : Workers :=
  { (w.runJob ⟨w.accepted, panics⟩).1 with accepted := w.accepted + 1 }

/-- Hands a job in. While there is no room for it the caller waits and the threads go on. -/
def execute (w : Workers) (panics : Bool) : Except PacingError Workers :=
  match w.threads with
  | none => .ok (w.runHere panics)
  | some _ =>
    if w.isOpen then .ok ((if w.hasRoom then w else w.drain).enqueue panics)
    else .error .poolClosed

/-- Closes the queue and awaits every worker. They leave their loops once nothing is left. -/
def shutdown (w : Workers) : Workers :=
  { w.drain with isOpen := false, crew := w.crew.map fun _ => .exited }

/-- The results that arrived, in order, if all of them did. -/
def gather {β : Type} (slots : List (Option β)) : Except PacingError (List β) :=
  let missing := slots.countP (·.isNone)
  if missing = 0 then .ok (slots.filterMap id) else .error (.jobsPanicked missing)

/-- Applies a function to every item, one job each, and gathers the results in the order of the
items, whatever the order of the jobs. The function has no value where its job panics. -/
def mapOrdered {α β : Type} (f : α → Option β) (xs : List α) (w : Workers) :
    Workers × Except PacingError (List β) :=
  match xs.foldlM (fun w x => w.execute (f x).isNone) w with
  | .error e => (w, .error e)
  | .ok v =>
    let v := v.drain
    (v, gather (xs.mapIdx fun i x => if v.hasRun (w.accepted + i) then f x else none))

def describe (w : Workers) : String :=
  "WorkerPool \x7b workers: " ++ toString w.count ++ ", inline: " ++ toString w.threads.isNone
    ++ ", stats: WorkerPoolStats \x7b completed: " ++ toString w.completed ++ ", panicked: "
    ++ toString w.panicked ++ " \x7d \x7d"

end Workers

end RenderStream
