import Mathlib.Algebra.GroupWithZero.Nat
import Mathlib.Data.List.Perm.Basic
import Mathlib.Order.OrderIsoNat
import RenderStream.Pacing.Workers

/-!
# What a pool can come to

A pool is handed jobs, and its workers take them, run them and count them, in any order
(`Workers.Reached`). `Workers.Move` lists what a worker can do; what a pool keeps is read off this
list and the ways to hand a job in.

Two things are never lost. A job that was accepted waits, runs or has ended (`Workers.jobs`,
`Workers.jobs_turn`), and the counters say how the jobs ended (`Workers.Tallies`). And no worker
leaves its loop as long as the queue is open or holds a job (`Sound.exited`): a panic does not leave
the turn of the loop in which the job ran (`Workers.runJob_returns`). So a job that waits can be
taken some time, and once all workers have left nothing waits or runs (`Sound.idle_of_exited`).
-/

namespace RenderStream

/-- Moves of which each lessens a measure come to an end. -/
theorem not_endless {σ : Type} {step : σ → σ → Prop} {inv : σ → Prop} (work : σ → Nat)
    (hstep : ∀ {c d : σ}, inv c → step c d → inv d ∧ work d < work c) {c : σ} (hc : inv c) :
    ¬∃ run : Nat → σ, run 0 = c ∧ ∀ n, step (run n) (run (n + 1)) := by
  rintro ⟨run, rfl, hrun⟩
  have hinv : ∀ n, inv (run n) := by
    intro n
    induction n with
    | zero => exact hc
    | succ n ih => exact (hstep ih (hrun n)).1
  exact not_strictAnti_of_wellFoundedLT (fun n => work (run n))
    (strictAnti_nat_of_succ_lt fun n => (hstep (hinv n) (hrun n)).2)

/-- Moves that a worker has left at most if it is given no further job. -/
def Worker.load : Worker → Nat
  | .idle => 1
  | .busy _ => 2
  | .exited => 0

namespace Workers

variable {α β : Type} {w v : Workers} {panics : Bool} {t : Turn} {i : Nat} {job : Job}

/-! ## Jobs -/

/-- The jobs that a pool knows of, wherever they are. -/
def jobs (w : Workers) : List Job := w.ended ++ w.running ++ w.waiting

/-- The jobs that have not ended. -/
def pending (w : Workers) : List Job := w.running ++ w.waiting

/-- Every job has ended or has not. -/
theorem jobs_eq (w : Workers) : w.jobs = w.ended ++ w.pending := List.append_assoc _ _ _

/-- The call that runs a job catches its panic. -/
theorem runJob_returns (w : Workers) (job : Job) : (w.runJob job).2 = .returned := by
  rw [runJob]
  cases job.exit <;> rfl

/-- What a job leaves behind it: it has ended, and is counted for what it did. -/
theorem runJob_fst (w : Workers) (job : Job) :
    (w.runJob job).1 =
      { w with
        ended := w.ended ++ [job]
        completed := w.completed + (!job.panics).toNat
        panicked := w.panicked + job.panics.toNat } := by
  obtain ⟨number, _ | _⟩ := job <;> rfl

/-- Jobs that are run one after the other. -/
theorem foldl_runJob (w : Workers) (js : List Job) :
    js.foldl (fun w job => (w.runJob job).1) w =
      { w with
        ended := w.ended ++ js
        completed := w.completed + js.countP (!·.panics)
        panicked := w.panicked + js.countP (·.panics) } := by
  induction js generalizing w with
  | nil => simp
  | cons job js ih =>
    rw [List.foldl_cons, ih, runJob_fst]
    obtain ⟨number, _ | _⟩ := job <;> simp [Nat.add_assoc, Nat.add_comm 1]

/-- A pool that is left alone ends all its jobs and counts them. -/
theorem drain_eq (w : Workers) :
    w.drain =
      { w with
        waiting := []
        crew := w.crew.map Worker.freed
        ended := w.jobs
        completed := w.completed + w.pending.countP (!·.panics)
        panicked := w.panicked + w.pending.countP (·.panics) } := by
  rw [drain, foldl_runJob, jobs_eq]
  rfl

/-- A worker whose job has ended has none. -/
@[simp] theorem job?_freed (k : Worker) : k.freed.job? = none := by cases k <;> rfl

@[simp] theorem running_drain (w : Workers) : w.drain.running = [] := by
  rw [running, drain_eq, List.filterMap_map]
  exact List.filterMap_eq_nil_iff.2 fun k _ => job?_freed k

@[simp] theorem waiting_drain (w : Workers) : w.drain.waiting = [] := by rw [drain_eq]

@[simp] theorem pending_drain (w : Workers) : w.drain.pending = [] := by
  rw [pending, running_drain, waiting_drain, List.append_nil]

@[simp] theorem ended_drain (w : Workers) : w.drain.ended = w.jobs := by rw [drain_eq]

@[simp] theorem threads_drain (w : Workers) : w.drain.threads = w.threads := by rw [drain_eq]

@[simp] theorem isOpen_drain (w : Workers) : w.drain.isOpen = w.isOpen := by rw [drain_eq]

@[simp] theorem accepted_drain (w : Workers) : w.drain.accepted = w.accepted := by rw [drain_eq]

@[simp] theorem jobs_drain (w : Workers) : w.drain.jobs = w.jobs := by
  rw [jobs, ended_drain, running_drain, waiting_drain, List.append_nil, List.append_nil]

/-- A job that is queued is the newest one of the pool. -/
theorem jobs_enqueue (w : Workers) (panics : Bool) :
    (w.enqueue panics).jobs = w.jobs ++ [⟨w.accepted, panics⟩] :=
  (List.append_assoc _ _ _).symm

/-- A job that is queued has not ended. -/
theorem pending_enqueue (w : Workers) (panics : Bool) :
    (w.enqueue panics).pending = w.pending ++ [⟨w.accepted, panics⟩] :=
  (List.append_assoc _ _ _).symm

/-! ## Handing a job in -/

/-- How a job is accepted: it is run at once, or it is queued as soon as there is room for it. -/
theorem execute_cases (h : w.execute panics = .ok v) :
    (w.threads = none ∧ v = w.runHere panics) ∨
    (∃ n, w.threads = some n ∧ w.isOpen = true ∧
      v = (if w.hasRoom then w else w.drain).enqueue panics) := by
  rw [execute] at h
  cases hthreads : w.threads with
  | none =>
    rw [hthreads] at h
    exact .inl ⟨rfl, (Except.ok.inj h).symm⟩
  | some n =>
    rw [hthreads] at h
    dsimp only at h
    split at h
    · next hopen => exact .inr ⟨n, rfl, hopen, (Except.ok.inj h).symm⟩
    · cases h

/-- A job is refused by a pool whose threads have been ended. -/
theorem execute_error {e : PacingError} (h : w.execute panics = .error e) :
    w.threads ≠ none ∧ w.isOpen = false ∧ e = .poolClosed := by
  rw [execute] at h
  cases hthreads : w.threads with
  | none =>
    rw [hthreads] at h
    cases h
  | some n =>
    rw [hthreads] at h
    dsimp only at h
    split at h
    · cases h
    · next hclosed =>
      exact ⟨Option.some_ne_none n, Bool.eq_false_iff.2 hclosed, (Except.error.inj h).symm⟩

/-- A job that is run in the call. -/
theorem runHere_eq (w : Workers) (panics : Bool) :
    w.runHere panics =
      { w with
        accepted := w.accepted + 1
        ended := w.ended ++ [⟨w.accepted, panics⟩]
        completed := w.completed + (!panics).toNat
        panicked := w.panicked + panics.toNat } := by
  rw [runHere, runJob_fst]

@[simp] theorem pending_runHere (w : Workers) (panics : Bool) :
    (w.runHere panics).pending = w.pending := by
  rw [runHere_eq]
  rfl

/-- Handing a job in changes neither the threads of a pool nor whether it is open. -/
theorem execute_keeps (h : w.execute panics = .ok v) :
    v.threads = w.threads ∧ v.isOpen = w.isOpen ∧ v.accepted = w.accepted + 1 := by
  rcases execute_cases h with ⟨-, rfl⟩ | ⟨n, -, -, rfl⟩
  · rw [runHere_eq]
    exact ⟨rfl, rfl, rfl⟩
  · split
    · exact ⟨rfl, rfl, rfl⟩
    · exact ⟨threads_drain w, isOpen_drain w, congrArg (· + 1) (accepted_drain w)⟩

/-- A pool without threads has no job left over behind a call either. -/
theorem idle_execute (h : w.execute panics = .ok v)
    (hidle : w.threads = none → w.running = [] ∧ w.waiting = []) :
    v.threads = none → v.running = [] ∧ v.waiting = [] := by
  intro hnone
  have hthreads := (execute_keeps h).1.symm.trans hnone
  rcases execute_cases h with ⟨-, rfl⟩ | ⟨n, hn, -, -⟩
  · rw [runHere_eq]
    exact hidle hthreads
  · exact absurd (hthreads.symm.trans hn) (Option.some_ne_none n).symm

/-- A job that is handed in is the newest one of the pool. -/
theorem jobs_execute (h : w.execute panics = .ok v)
    (hidle : w.threads = none → w.running = [] ∧ w.waiting = []) :
    v.jobs = w.jobs ++ [⟨w.accepted, panics⟩] := by
  rcases execute_cases h with ⟨hnone, rfl⟩ | ⟨n, -, -, rfl⟩
  · obtain ⟨hrunning, hwaiting⟩ := hidle hnone
    have hrunning' : (w.runHere panics).running = w.running := by rw [runHere_eq]; rfl
    rw [jobs, jobs, hrunning', runHere_eq, hrunning, hwaiting]
    simp
  · split
    · exact jobs_enqueue w panics
    · rw [jobs_enqueue, jobs_drain, accepted_drain]

/-! ## Counters -/

/-- The counters of a pool tell how its jobs ended. -/
structure Tallies (w : Workers) : Prop where
  completed_eq : w.completed = w.ended.countP (!·.panics)
  panicked_eq : w.panicked = w.ended.countP (·.panics)

/-- A job that is run is counted where it belongs. -/
theorem Tallies.runJob (h : w.Tallies) (job : Job) : (w.runJob job).1.Tallies := by
  obtain ⟨hcompleted, hpanicked⟩ := h
  rw [runJob_fst]
  constructor
  · rw [hcompleted, List.countP_append]
    cases hp : job.panics <;> simp [hp]
  · rw [hpanicked, List.countP_append]
    cases hp : job.panics <;> simp [hp]

/-- Jobs that all end are all counted. -/
theorem Tallies.drain (h : w.Tallies) : w.drain.Tallies := by
  obtain ⟨hcompleted, hpanicked⟩ := h
  rw [drain_eq]
  constructor
  · rw [hcompleted, jobs_eq, List.countP_append]
  · rw [hpanicked, jobs_eq, List.countP_append]

/-- Handing a job in counts those that end meanwhile, and nothing else. -/
theorem Tallies.execute (h : w.Tallies) (execute : w.execute panics = .ok v) : v.Tallies := by
  rcases execute_cases execute with ⟨-, rfl⟩ | ⟨n, -, -, rfl⟩
  · exact ⟨(h.runJob _).completed_eq, (h.runJob _).panicked_eq⟩
  · split
    · exact ⟨h.completed_eq, h.panicked_eq⟩
    · exact ⟨h.drain.completed_eq, h.drain.panicked_eq⟩

/-! ## A map over the pool -/

/-- A pool that takes jobs in. One without threads has none left over. -/
structure Takes (w : Workers) : Prop where
  isOpen : w.isOpen = true
  idle : w.threads = none → w.running = [] ∧ w.waiting = []

/-- An open pool with threads takes jobs in. -/
theorem takes_of_isThreaded (h : w.isThreaded = true) : w.Takes := by
  rw [isThreaded, Bool.and_eq_true] at h
  exact ⟨h.2, fun hnone => absurd h.1 (by simp [hnone])⟩

/-- A pool that has taken jobs in since `w`. -/
structure Accepts (w : Workers) (jobs : List Job) (v : Workers) : Prop where
  threads_eq : v.threads = w.threads
  takes : v.Takes
  accepted_eq : v.accepted = w.accepted + jobs.length
  jobs_eq : v.jobs = w.jobs ++ jobs
  tallies : w.Tallies → v.Tallies

/-- A pool that takes jobs in accepts whatever is handed in. -/
theorem execute_accepts (h : w.Takes) (panics : Bool) :
    ∃ v, w.execute panics = .ok v ∧ w.Accepts [⟨w.accepted, panics⟩] v := by
  obtain ⟨v, hv⟩ : ∃ v, w.execute panics = .ok v := by
    rw [execute]
    cases w.threads with
    | none => exact ⟨_, rfl⟩
    | some n => exact ⟨_, if_pos h.isOpen⟩
  obtain ⟨hthreads, hopen, haccepted⟩ := execute_keeps hv
  exact ⟨v, hv, hthreads, ⟨hopen.trans h.isOpen, idle_execute hv h.idle⟩, haccepted,
    jobs_execute hv h.idle, fun htallies => htallies.execute hv⟩

/-- The jobs of a list of items, numbered from the next number on. -/
theorem execute_all (f : α → Option β) (xs : List α) (h : w.Takes) :
    ∃ v, xs.foldlM (fun w x => w.execute (f x).isNone) w = .ok v ∧
      w.Accepts (xs.mapIdx fun i x => ⟨w.accepted + i, (f x).isNone⟩) v := by
  induction xs generalizing w with
  | nil => exact ⟨w, rfl, rfl, h, rfl, (List.append_nil _).symm, id⟩
  | cons x xs ih =>
    obtain ⟨u, hu, hfirst⟩ := execute_accepts h (f x).isNone
    obtain ⟨v, hv, hrest⟩ := ih hfirst.takes
    refine ⟨v, ?_, hrest.threads_eq.trans hfirst.threads_eq, hrest.takes, ?_, ?_,
      fun htallies => hrest.tallies (hfirst.tallies htallies)⟩
    · rw [List.foldlM_cons, hu]
      exact hv
    · rw [hrest.accepted_eq, hfirst.accepted_eq]
      simp only [List.length_mapIdx, List.length_cons, List.length_nil]
      omega
    · rw [hrest.jobs_eq, hfirst.jobs_eq, hfirst.accepted_eq, List.mapIdx_cons, List.append_assoc]
      simp only [List.length_singleton, Nat.add_assoc, Nat.add_comm 1, Nat.add_zero]
      rfl

/-- A pool keeps its threads, whatever it takes in. -/
theorem Accepts.isThreaded_drain {js : List Job} (h : w.Accepts js v) (hw : w.Takes) :
    v.drain.isThreaded = w.isThreaded := by
  rw [isThreaded, isThreaded, threads_drain, isOpen_drain, h.threads_eq, h.takes.isOpen, hw.isOpen]

/-- On an open pool the results are the values of the function in the order of the items, and the
pool has run one job for each of them. -/
theorem mapOrdered_eq (f : α → Option β) (xs : List α) (h : w.Takes) :
    ∃ v, mapOrdered f xs w = (v.drain, gather (xs.map f)) ∧
      w.Accepts (xs.mapIdx fun i x => ⟨w.accepted + i, (f x).isNone⟩) v := by
  obtain ⟨v, hv, hjobs⟩ := execute_all f xs h
  refine ⟨v, ?_, hjobs⟩
  have hslots : (xs.mapIdx fun i x => if v.drain.hasRun (w.accepted + i) then f x else none) =
      xs.map f := by
    rw [List.mapIdx_eq_iff]
    intro i
    rw [List.getElem?_map]
    refine Option.map_congr fun x hx => ?_
    split
    · rfl
    · next hrun =>
      -- A job that did not end in a value is one that panicked.
      cases hf : f x with
      | none => rfl
      | some y =>
        refine absurd (List.any_eq_true.2 ⟨⟨w.accepted + i, false⟩, ?_, by simp⟩) hrun
        rw [ended_drain, hjobs.jobs_eq]
        refine List.mem_append_right _ (List.mem_of_getElem? (i := i) ?_)
        rw [List.getElem?_mapIdx, hx]
        simp [hf]
  rw [mapOrdered, hv]
  exact congrArg (v.drain, gather ·) hslots

/-- When no result is missing the results are what arrived. -/
theorem gather_map_some (ys : List β) : gather (ys.map some) = .ok ys := by
  have hnone : (ys.map some).countP (·.isNone) = 0 := by
    rw [List.countP_map]
    exact List.countP_eq_zero.2 fun _ _ => Bool.false_ne_true
  rw [gather, if_pos hnone]
  simp

/-! ## What the workers do -/

/-- The moves of the workers. -/
inductive Move (w : Workers) : Turn → Workers → Prop where
  | takes {i : Nat} {job : Job} {rest : List Job} (idle : w.crew[i]? = some .idle)
      (waiting : w.waiting = job :: rest) :
      Move w (.take i) { w with waiting := rest, crew := w.crew.set i (.busy job) }
  | finishes {i : Nat} {job : Job} (busy : w.crew[i]? = some (.busy job)) :
      Move w (.finish i) { (w.runJob job).1 with crew := w.crew.set i .idle }
  | exits {i : Nat} (idle : w.crew[i]? = some .idle) (waiting : w.waiting = [])
      (closed : w.isOpen = false) : Move w (.exit i) { w with crew := w.crew.set i .exited }

/-- A worker behind a job is in front of the queue again, whatever the job did. -/
theorem turn_finish (busy : w.crew[i]? = some (.busy job)) :
    w.turn (.finish i) = some { (w.runJob job).1 with crew := w.crew.set i .idle } := by
  simp only [turn, busy]
  rw [runJob_returns, Worker.after, runJob_fst]

/-- A worker can do nothing but what the list says. -/
theorem turn_cases (h : w.turn t = some v) : w.Move t v := by
  cases t with
  | take i =>
    rw [turn] at h
    split at h
    · next idle waiting => exact Option.some.inj h ▸ .takes idle waiting
    · cases h
  | finish i =>
    cases hcrew : w.crew[i]? with
    | none => simp [turn, hcrew] at h
    | some k =>
      cases k with
      | idle | exited => simp [turn, hcrew] at h
      | busy job =>
        rw [turn_finish hcrew] at h
        exact Option.some.inj h ▸ .finishes hcrew
  | exit i =>
    rw [turn] at h
    split at h
    · next idle =>
      split at h
      · next ended =>
        rw [Bool.and_eq_true, List.isEmpty_iff, Bool.not_eq_true'] at ended
        exact Option.some.inj h ▸ .exits idle ended.1 ended.2
      · cases h
    · cases h

/-- An idle worker can take the oldest job. -/
theorem turn_take {rest : List Job} (idle : w.crew[i]? = some .idle)
    (waiting : w.waiting = job :: rest) :
    w.turn (.take i) = some { w with waiting := rest, crew := w.crew.set i (.busy job) } := by
  simp only [turn, idle, waiting]

/-- An idle worker can leave at a queue that is closed and empty. -/
theorem turn_exit (idle : w.crew[i]? = some .idle) (waiting : w.waiting = [])
    (closed : w.isOpen = false) :
    w.turn (.exit i) = some { w with crew := w.crew.set i .exited } := by
  simp only [turn, idle, waiting, closed, List.isEmpty_nil, Bool.not_false, Bool.and_self, if_true]

/-- A crew around one of its workers. -/
theorem exists_split {crew : List Worker} {k : Worker} (h : crew[i]? = some k) :
    ∃ before after, crew = before ++ k :: after ∧
      ∀ k', crew.set i k' = before ++ k' :: after := by
  obtain ⟨hi, hk⟩ := List.getElem?_eq_some_iff.1 h
  refine ⟨crew.take i, crew.drop (i + 1), ?_,
    fun k' => List.set_eq_take_append_cons_drop ▸ if_pos hi⟩
  rw [← hk, List.getElem_cons_drop, List.take_append_drop]

/-- A job that is taken has not ended. -/
theorem pending_take {rest : List Job} (idle : w.crew[i]? = some .idle)
    (waiting : w.waiting = job :: rest) :
    ({ w with waiting := rest, crew := w.crew.set i (.busy job) } : Workers).pending.Perm
      w.pending := by
  obtain ⟨before, after, hcrew, hset⟩ := exists_split idle
  simp only [pending, running, hset, waiting]
  rw [hcrew]
  simp only [List.filterMap_append, List.filterMap_cons, Worker.job?, List.append_assoc]
  exact (List.perm_middle.append_left _).symm.trans (by simp)

/-- The job of a worker is one that has not ended, until it ends. -/
theorem pending_finish (busy : w.crew[i]? = some (.busy job)) :
    (job :: ({ (w.runJob job).1 with crew := w.crew.set i .idle } : Workers).pending).Perm
      w.pending := by
  obtain ⟨before, after, hcrew, hset⟩ := exists_split busy
  rw [runJob_fst]
  simp only [pending, running, hset]
  rw [hcrew]
  simp only [List.filterMap_append, List.filterMap_cons, Worker.job?, List.append_assoc]
  exact List.perm_middle.symm

/-- A worker that leaves has no job. -/
theorem pending_exit (idle : w.crew[i]? = some .idle) :
    ({ w with crew := w.crew.set i .exited } : Workers).pending = w.pending := by
  obtain ⟨before, after, hcrew, hset⟩ := exists_split idle
  simp only [pending, running, hset]
  rw [hcrew]
  simp only [List.filterMap_append, List.filterMap_cons, Worker.job?]

/-- A move of the workers loses no job. -/
theorem jobs_turn (h : w.turn t = some v) : v.jobs.Perm w.jobs := by
  rw [jobs_eq, jobs_eq]
  cases turn_cases h with
  | takes idle waiting => exact (pending_take idle waiting).append_left _
  | finishes busy =>
    refine List.Perm.trans (.of_eq ?_) ((pending_finish busy).append_left _)
    rw [runJob_fst, List.append_assoc]
    rfl
  | exits idle => exact .of_eq (congrArg (w.ended ++ ·) (pending_exit idle))

/-- A move of the workers changes neither their number nor whether the pool is open. -/
theorem turn_keeps (h : w.turn t = some v) :
    v.threads = w.threads ∧ v.isOpen = w.isOpen ∧ v.accepted = w.accepted := by
  cases turn_cases h with
  | takes | exits => exact ⟨rfl, rfl, rfl⟩
  | finishes =>
    rw [runJob_fst]
    exact ⟨rfl, rfl, rfl⟩

/-- A job that has ended is counted when its worker is idle again. -/
theorem Tallies.turn (h : w.Tallies) (turn : w.turn t = some v) : v.Tallies := by
  cases turn_cases turn with
  | takes | exits => exact ⟨h.completed_eq, h.panicked_eq⟩
  | @finishes i job => exact ⟨(h.runJob job).completed_eq, (h.runJob job).panicked_eq⟩

/-! ## A sound pool -/

/-- There is a worker to start for every request. -/
theorem countFor_pos (requested processors : Nat) : 0 < countFor requested processors := by
  rw [countFor]
  split <;> omega

/-- A pool with threads has at least one and has them all, and one without has no job left over. No
worker leaves before the queue is closed and empty. -/
structure Sound (w : Workers) : Prop where
  threads_pos : ∀ n, w.threads = some n → 0 < n
  crew_length : w.crew.length = w.threads.getD 0
  idle : w.threads = none → w.running = [] ∧ w.waiting = []
  exited : .exited ∈ w.crew → w.isOpen = false ∧ w.waiting = []
  tallies : w.Tallies

/-- A new pool of threads. -/
theorem sound_ofCount {count : Nat} (h : 0 < count) : (ofCount count).Sound where
  threads_pos _ hn := Option.some.inj hn ▸ h
  crew_length := List.length_replicate
  idle := nofun
  exited hmem := absurd (List.eq_of_mem_replicate hmem) nofun
  tallies := ⟨rfl, rfl⟩

/-- A new pool without threads. -/
theorem sound_inline : inline.Sound where
  threads_pos := nofun
  crew_length := rfl
  idle _ := ⟨rfl, rfl⟩
  exited := nofun
  tallies := ⟨rfl, rfl⟩

namespace Sound

/-- A pool that is left alone keeps its workers. -/
theorem drain (h : w.Sound) : w.drain.Sound where
  threads_pos n hn := h.threads_pos n ((threads_drain w).symm.trans hn)
  crew_length := by
    rw [threads_drain, drain_eq]
    exact (List.length_map _).trans h.crew_length
  idle _ := ⟨running_drain w, waiting_drain w⟩
  exited hmem := by
    rw [drain_eq] at hmem
    obtain ⟨k, hk, hfreed⟩ := List.mem_map.1 hmem
    cases k with
    | idle | busy => cases hfreed
    | exited => exact ⟨(isOpen_drain w).trans (h.exited hk).1, waiting_drain w⟩
  tallies := h.tallies.drain

/-- Nothing is queued that nobody could take: workers leave a closed pool only. -/
theorem enqueue (h : w.Sound) (hthreads : w.threads ≠ none) (hopen : w.isOpen = true)
    (panics : Bool) : (w.enqueue panics).Sound where
  threads_pos := h.threads_pos
  crew_length := h.crew_length
  idle hnone := absurd hnone hthreads
  exited hmem := absurd ((h.exited hmem).1.symm.trans hopen) Bool.false_ne_true
  tallies := ⟨h.tallies.completed_eq, h.tallies.panicked_eq⟩

/-- Handing a job in keeps a pool sound. -/
theorem execute (h : w.Sound) (execute : w.execute panics = .ok v) : v.Sound := by
  rcases execute_cases execute with ⟨hnone, rfl⟩ | ⟨n, hn, hopen, rfl⟩
  · have htallies := h.tallies.execute execute
    have hidle := idle_execute execute h.idle
    rw [runHere_eq] at htallies hidle ⊢
    exact ⟨h.threads_pos, h.crew_length, hidle, h.exited, htallies⟩
  · have hthreads : w.threads ≠ none := by simp [hn]
    split
    · exact h.enqueue hthreads hopen panics
    · exact h.drain.enqueue (by rwa [threads_drain]) (by rwa [isOpen_drain]) panics

/-- A move of the workers keeps a pool sound. The one that leaves finds the queue closed and empty,
and no other one leaves: a job that panicked sends its worker back to the queue. -/
theorem turn (h : w.Sound) (turn : w.turn t = some v) : v.Sound := by
  obtain ⟨hthreads, hopen, -⟩ := turn_keeps turn
  have htallies := h.tallies.turn turn
  have hnone : v.threads = none → ∀ (i : Nat) (k : Worker), w.crew[i]? ≠ some k := by
    intro hnone i k hcrew
    have hempty : w.crew = [] := List.eq_nil_of_length_eq_zero
      (by rw [h.crew_length, hthreads.symm.trans hnone]; rfl)
    simp [hempty] at hcrew
  have hpos : ∀ n, v.threads = some n → 0 < n :=
    fun n hn => h.threads_pos n (hthreads.symm.trans hn)
  cases turn_cases turn with
  | takes idle waiting =>
    refine ⟨hpos, (List.length_set ..).trans h.crew_length, fun hn => absurd idle (hnone hn _ _),
      fun hmem => ?_, htallies⟩
    have hmem := (List.mem_or_eq_of_mem_set hmem).resolve_right nofun
    exact absurd ((h.exited hmem).2.symm.trans waiting) nofun
  | finishes busy =>
    rw [runJob_fst] at *
    refine ⟨hpos, (List.length_set ..).trans h.crew_length, fun hn => absurd busy (hnone hn _ _),
      fun hmem => ?_, htallies⟩
    exact h.exited ((List.mem_or_eq_of_mem_set hmem).resolve_right nofun)
  | exits idle waiting closed =>
    exact ⟨hpos, (List.length_set ..).trans h.crew_length, fun hn => absurd idle (hnone hn _ _),
      fun _ => ⟨closed, waiting⟩, htallies⟩

/-- Closing the queue takes nothing out of it. -/
theorem close (h : w.Sound) : Sound { w with isOpen := false } :=
  ⟨h.threads_pos, h.crew_length, h.idle, fun hmem => ⟨rfl, (h.exited hmem).2⟩,
    h.tallies.completed_eq, h.tallies.panicked_eq⟩

/-- A pool that is shut down has run its jobs, and its workers have left. -/
theorem shutdown (h : w.Sound) : w.shutdown.Sound where
  threads_pos := h.drain.threads_pos
  crew_length := by
    refine (List.length_map _).trans ?_
    rw [h.crew_length, Workers.shutdown, threads_drain]
  idle _ := by
    refine ⟨?_, waiting_drain w⟩
    refine (List.filterMap_map ..).trans (List.filterMap_eq_nil_iff.2 fun k _ => rfl)
  exited _ := ⟨rfl, waiting_drain w⟩
  tallies := ⟨h.tallies.drain.completed_eq, h.tallies.drain.panicked_eq⟩

/-- With no job in the queue there is room for one. -/
theorem hasRoom (h : w.Sound) (hthreads : w.threads ≠ none) (hwaiting : w.waiting = []) :
    w.hasRoom = true := by
  obtain ⟨n, hn⟩ := Option.ne_none_iff_exists'.1 hthreads
  refine decide_eq_true ?_
  rw [hwaiting, hn, jobsPerThread]
  exact Nat.mul_pos (h.threads_pos n hn) (by decide)

/-- A job that has to wait for room is accepted once there is some. -/
theorem execute_drain (h : w.Sound) (execute : w.execute panics = .ok v)
    (full : w.threads ≠ none ∧ w.hasRoom = false) : w.drain.execute panics = .ok v := by
  obtain ⟨hthreads, hroom⟩ := full
  have hroom' : w.drain.hasRoom = true :=
    h.drain.hasRoom (by rwa [threads_drain]) (waiting_drain w)
  rcases execute_cases execute with ⟨hnone, -⟩ | ⟨n, hn, hopen, rfl⟩
  · exact absurd hnone hthreads
  · have hn' : w.drain.threads = some n := (threads_drain w).trans hn
    have hopen' : w.drain.isOpen = true := (isOpen_drain w).trans hopen
    rw [Workers.execute, hn']
    simp only [hopen', hroom, hroom', Bool.false_eq_true, if_true, if_false]

/-- Where a job waits there is a worker that has not left; when none runs it can take the job. -/
theorem idle_of_waiting (h : w.Sound) (hrunning : w.running = []) (hwaiting : w.waiting ≠ []) :
    w.crew[0]? = some .idle := by
  cases hcrew : w.crew with
  | nil =>
    have hlength := h.crew_length
    rw [hcrew] at hlength
    cases hthreads : w.threads with
    | none => exact absurd (h.idle hthreads).2 hwaiting
    | some n =>
      have hpos := h.threads_pos n hthreads
      rw [hthreads] at hlength
      exact absurd hlength (Nat.ne_of_lt hpos)
  | cons k rest =>
    cases k with
    | idle => rfl
    | busy job =>
      rw [Workers.running, hcrew] at hrunning
      exact absurd hrunning nofun
    | exited => exact absurd (h.exited (hcrew ▸ List.mem_cons_self)).2 hwaiting

end Sound

/-- Some worker has the first of the jobs that run. -/
theorem exists_busy {rest : List Job} (hrunning : w.running = job :: rest) :
    ∃ i, w.crew[i]? = some (.busy job) ∧ (w.crew.set i .idle).filterMap Worker.job? = rest := by
  obtain ⟨before, k, after, hcrew, hbefore, hk, hafter⟩ := List.filterMap_eq_cons_iff.1 hrunning
  obtain rfl : k = .busy job := by
    cases k with
    | idle | exited => cases hk
    | busy job' => exact congrArg _ (Option.some.inj hk)
  refine ⟨before.length, by simp [hcrew], ?_⟩
  rw [hcrew, List.set_append_right _ _ (Nat.le_refl _), Nat.sub_self, List.set_cons_zero,
    List.filterMap_append, List.filterMap_eq_nil_iff.2 hbefore]
  exact hafter

/-- While a job has not ended a worker can move. -/
theorem Sound.exists_turn (h : w.Sound) (hpending : w.pending ≠ []) :
    ∃ t v, w.turn t = some v := by
  cases hrunning : w.running with
  | cons job rest =>
    obtain ⟨i, busy, -⟩ := exists_busy hrunning
    exact ⟨_, _, turn_finish busy⟩
  | nil =>
    cases hwaiting : w.waiting with
    | cons job rest =>
      exact ⟨_, _, turn_take (h.idle_of_waiting hrunning (by simp [hwaiting])) hwaiting⟩
    | nil => exact absurd (by rw [pending, hrunning, hwaiting]; rfl) hpending

/-- When all workers have left, nothing runs or waits. -/
theorem Sound.idle_of_exited (h : w.Sound) (hexited : ∀ k ∈ w.crew, k = .exited) :
    w.pending = [] := by
  have hrunning : w.running = [] :=
    List.filterMap_eq_nil_iff.2 fun k hk => by rw [hexited k hk]; rfl
  have hwaiting : w.waiting = [] := by
    by_contra hwaiting
    have hfirst := h.idle_of_waiting hrunning hwaiting
    exact absurd (hexited _ (List.mem_of_getElem? hfirst)) nofun
  rw [pending, hrunning, hwaiting]
  rfl

/-! ## Left alone -/

/-- Two workers that come to the same once their jobs have ended can stand for one another. -/
theorem map_freed_set {k : Worker} (h : w.crew[i]? = some k) (k' : Worker)
    (hsame : k'.freed = k.freed) :
    (w.crew.set i k').map Worker.freed = w.crew.map Worker.freed := by
  obtain ⟨before, after, hcrew, hset⟩ := exists_split h
  rw [hset, hcrew, List.map_append, List.map_append, List.map_cons, List.map_cons, hsame]

/-- When the first of the jobs that run ends, the pool comes to the same. -/
theorem drain_finish {rest : List Job} (busy : w.crew[i]? = some (.busy job))
    (hrunning : w.running = job :: rest)
    (hrest : (w.crew.set i .idle).filterMap Worker.job? = rest) :
    ({ (w.runJob job).1 with crew := w.crew.set i .idle } : Workers).drain = w.drain := by
  have hfreed := map_freed_set busy .idle rfl
  rw [drain, drain, hrunning, List.cons_append, List.foldl_cons, runJob_fst, runJob_fst]
  simp only [running, hrest, hfreed]

/-- When the first job is taken and none runs yet, the pool comes to the same. -/
theorem drain_take {rest : List Job} (idle : w.crew[i]? = some .idle) (hrunning : w.running = [])
    (hwaiting : w.waiting = job :: rest) :
    ({ w with waiting := rest, crew := w.crew.set i (.busy job) } : Workers).drain = w.drain := by
  have hfreed := map_freed_set idle (.busy job) rfl
  have hjob : (w.crew.set i (.busy job)).filterMap Worker.job? = [job] := by
    obtain ⟨before, after, hcrew, hset⟩ := exists_split idle
    rw [running, hcrew, List.filterMap_append, List.append_eq_nil_iff] at hrunning
    rw [hset, List.filterMap_append, hrunning.1, List.nil_append]
    exact congrArg (job :: ·) hrunning.2
  rw [drain, drain, hrunning, hwaiting]
  simp only [running, hjob, hfreed, List.singleton_append, List.nil_append]

/-- A pool that has nothing to do stays as it is. -/
theorem drain_of_idle (hrunning : w.running = []) (hwaiting : w.waiting = []) : w.drain = w := by
  have hfreed : w.crew.map Worker.freed = w.crew := by
    refine (List.map_congr_left fun k hk => ?_).trans (List.map_id _)
    cases k with
    | idle | exited => rfl
    | busy job =>
      have hnone := List.filterMap_eq_nil_iff.1 hrunning _ hk
      cases hnone
  rw [drain, hrunning, hfreed]
  obtain ⟨threads, isOpen, accepted, waiting, crew, ended, completed, panicked⟩ := w
  obtain rfl : waiting = [] := hwaiting
  rfl

/-- Shutdown lets the workers go on and then leave. -/
theorem exits_drain (w : Workers) :
    ({ drain { w with isOpen := false } with
        crew := (drain { w with isOpen := false }).crew.map fun _ => .exited } : Workers) =
      w.shutdown := by
  rw [shutdown, drain_eq, drain_eq]
  simp only [List.map_map]
  rfl

/-- Every pool there can be. -/
inductive Reached : Workers → Prop where
  | inline : Reached .inline
  | ofCount (requested processors : Nat) : Reached (.ofCount (countFor requested processors))
  | execute {w v : Workers} {panics : Bool} (reached : Reached w)
      (execute : w.execute panics = .ok v) : Reached v
  | turn {w v : Workers} {t : Turn} (reached : Reached w) (turn : w.turn t = some v) : Reached v
  | shutdown {w : Workers} (reached : Reached w) : Reached w.shutdown

/-- Every pool there can be is sound. -/
theorem Reached.sound (h : w.Reached) : w.Sound := by
  induction h with
  | inline => exact sound_inline
  | ofCount requested processors => exact sound_ofCount (countFor_pos requested processors)
  | execute reached execute ih => exact ih.execute execute
  | turn reached turn ih => exact ih.turn turn
  | shutdown reached ih => exact ih.shutdown

/-- Every open pool there can be takes jobs in. -/
theorem Reached.takes (h : w.Reached) (hopen : w.isOpen = true) : w.Takes := ⟨hopen, h.sound.idle⟩

/-! ## What a pool has counted -/

/-- What a pool has counted since it was `w`, when the jobs that have not ended yet are taken for
counted, before and now. -/
structure Grows (w v : Workers) (completed panicked : Nat) : Prop where
  completed_eq : v.completed + v.pending.countP (!·.panics) =
    w.completed + w.pending.countP (!·.panics) + completed
  panicked_eq : v.panicked + v.pending.countP (·.panics) =
    w.panicked + w.pending.countP (·.panics) + panicked

/-- Every job is counted once, among those that ended or among the others. -/
theorem countP_jobs (w : Workers) (p : Job → Bool) :
    w.ended.countP p + w.pending.countP p = w.jobs.countP p := by
  rw [jobs_eq, List.countP_append]

/-- A pool that has its old jobs and one for every item. -/
theorem grows_of_jobs {f : α → Option β} {xs : List α} (hw : w.Tallies) (hv : v.Tallies)
    (h : (v.jobs.map Job.panics).Perm (w.jobs.map Job.panics ++ xs.map fun x => (f x).isNone)) :
    w.Grows v (xs.length - xs.countP fun x => (f x).isNone) (xs.countP fun x => (f x).isNone) := by
  have hcount (p : Bool → Bool) : v.jobs.countP (fun job => p job.panics) =
      w.jobs.countP (fun job => p job.panics) + xs.countP fun x => p (f x).isNone := by
    have hmap := h.countP_eq p
    rwa [List.countP_append, List.countP_map, List.countP_map, List.countP_map] at hmap
  have hlength := List.length_eq_countP_add_countP (l := xs) fun x => (f x).isNone
  simp only [Bool.not_eq_true, Bool.decide_eq_false] at hlength
  constructor
  · rw [hv.completed_eq, hw.completed_eq, countP_jobs, countP_jobs, hcount (!·)]
    omega
  · rw [hv.panicked_eq, hw.panicked_eq, countP_jobs, countP_jobs, hcount (·)]

/-! ## How much is left to do -/

/-- Moves that the workers have left at most. -/
def load (w : Workers) : Nat := 2 * w.waiting.length + (w.crew.map Worker.load).sum

@[simp] theorem load_runHere (w : Workers) (panics : Bool) :
    (w.runHere panics).load = w.load := by
  rw [runHere_eq]
  rfl

/-- A job that is queued is to be taken and finished. -/
@[simp] theorem load_enqueue (w : Workers) (panics : Bool) :
    (w.enqueue panics).load = w.load + 2 := by
  simp only [load, enqueue, List.length_append, List.length_singleton]
  omega

/-- When a worker turns to something else, its moves are exchanged for others. -/
theorem sum_load_set {crew : List Worker} {k : Worker} (h : crew[i]? = some k) (k' : Worker) :
    ((crew.set i k').map Worker.load).sum + k.load = (crew.map Worker.load).sum + k'.load := by
  obtain ⟨before, after, rfl, hset⟩ := exists_split h
  rw [hset]
  simp only [List.map_append, List.map_cons, List.sum_append, List.sum_cons]
  omega

/-- Every move of a worker lessens what is left to do. -/
theorem load_turn (h : w.turn t = some v) : v.load < w.load := by
  cases turn_cases h with
  | @takes i job rest idle waiting =>
    have hload := sum_load_set idle (.busy job)
    simp only [load, waiting, Worker.load, List.length_cons] at hload ⊢
    omega
  | finishes busy =>
    have hload := sum_load_set busy .idle
    rw [runJob_fst]
    simp only [load, Worker.load] at hload ⊢
    omega
  | exits idle =>
    have hload := sum_load_set idle .exited
    simp only [load, Worker.load] at hload ⊢
    omega

end Workers

end RenderStream
