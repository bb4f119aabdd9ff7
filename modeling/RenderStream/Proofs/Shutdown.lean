import Mathlib.Logic.Relation
import RenderStream.Proofs.Workers

/-!
# Handing jobs in around a shutdown

The owner of a pool makes its calls one after the other, while the workers take and finish jobs
whenever they like: `Owner.Step` is one move of any of them. A shutdown closes the queue and then
awaits the end of one worker after the other; it does not look at the jobs. `Workers.shutdown` and
an `execute` that waits for room let the workers go on at once, which is one of their schedules
(`Owner.reaches_made`).

That no job is left when shutdown returns follows from what a worker does. It leaves its loop at a
queue that is closed and empty, and at no other place, because the panic of a job ends in the turn
of the loop that ran it. The jobs of a pool are always those that it has accepted, up to their order
(`Workers.Has`), so by then they have all ended, each once. What is handed in after that depends on
the pool: with threads it is refused, without threads it is run, because a pool without threads
never looks whether it was shut down.
-/

namespace RenderStream

namespace Workers

variable {w v : Workers} {ps : List Bool} {panics : Bool} {t : Turn}

/-! ## What a pool has been handed -/

/-- A pool as it comes into being. -/
inductive Fresh : Workers → Prop where
  | inline : Fresh .inline
  | ofCount (requested processors : Nat) : Fresh (.ofCount (countFor requested processors))

/-- The jobs of a pool that accepted some, each with whether it panics. -/
def numbered (ps : List Bool) : List Job := ps.mapIdx fun i panics => ⟨i, panics⟩

/-- Numbering jobs does not change which of them panic. -/
theorem map_panics_numbered (ps : List Bool) : (numbered ps).map Job.panics = ps := by
  refine List.ext_getElem? fun i => ?_
  simp [numbered, Function.comp_def]

/-- Jobs are numbered in the order in which they are handed in. -/
theorem map_number_numbered (ps : List Bool) :
    (numbered ps).map Job.number = List.range ps.length := by
  refine List.ext_getElem (by simp [numbered]) fun i hi hi' => ?_
  simp [numbered]

/-- No two jobs are the same. -/
theorem nodup_numbered (ps : List Bool) : (numbered ps).Nodup :=
  List.Nodup.of_map Job.number (map_number_numbered ps ▸ List.nodup_range)

/-- A pool that has accepted some jobs since it was `w`, and has lost none. -/
structure Has (w : Workers) (ps : List Bool) (v : Workers) : Prop where
  sound : v.Sound
  threads_eq : v.threads = w.threads
  accepted_eq : v.accepted = ps.length
  jobs : v.jobs.Perm (numbered ps)

/-- A new pool has accepted nothing. -/
theorem Fresh.has (hw : w.Fresh) : w.Has [] w := by
  cases hw with
  | inline => exact ⟨sound_inline, rfl, rfl, .nil⟩
  | ofCount requested processors =>
    refine ⟨sound_ofCount (countFor_pos requested processors), rfl, rfl, .of_eq ?_⟩
    simp [jobs, running, Workers.ofCount, Worker.job?, numbered]

/-- A new pool is open. -/
theorem Fresh.isOpen (hw : w.Fresh) : w.isOpen = true := by cases hw <;> rfl

/-- A move of a worker loses nothing that was accepted. -/
theorem Has.turn (h : w.Has ps v) {u : Workers} (turn : v.turn t = some u) : w.Has ps u where
  sound := h.sound.turn turn
  threads_eq := (turn_keeps turn).1.trans h.threads_eq
  accepted_eq := (turn_keeps turn).2.2.trans h.accepted_eq
  jobs := (jobs_turn turn).trans h.jobs

/-- Closing the queue takes nothing out of it. -/
theorem Has.close (h : w.Has ps v) : w.Has ps { v with isOpen := false } :=
  ⟨h.sound.close, h.threads_eq, h.accepted_eq, h.jobs⟩

/-- A job that is handed in is the last one that was accepted. -/
theorem Has.execute (h : w.Has ps v) {u : Workers} (execute : v.execute panics = .ok u) :
    w.Has (ps ++ [panics]) u where
  sound := h.sound.execute execute
  threads_eq := (execute_keeps execute).1.trans h.threads_eq
  accepted_eq := by
    rw [List.length_append, ← h.accepted_eq]
    exact (execute_keeps execute).2.2
  jobs := by
    rw [jobs_execute execute h.sound.idle, h.accepted_eq, numbered, List.mapIdx_concat]
    exact h.jobs.append_right _

/-- Once nothing is left to do, every job has ended once, and the counters say how. -/
theorem Has.of_idle (h : w.Has ps v) (hidle : v.pending = []) :
    v.ended.Perm (numbered ps) ∧ v.completed = ps.countP (!·) ∧ v.panicked = ps.countP (·) := by
  have hended : v.ended = v.jobs := by rw [jobs_eq, hidle, List.append_nil]
  have hcount (p : Bool → Bool) : v.ended.countP (fun job => p job.panics) = ps.countP p := by
    rw [hended, h.jobs.countP_eq, ← Function.comp_def p, ← List.countP_map, map_panics_numbered]
  refine ⟨hended ▸ h.jobs, ?_, ?_⟩
  · rw [h.sound.tallies.completed_eq, hcount (!·)]
  · rw [h.sound.tallies.panicked_eq, hcount (·)]

/-! ## Who has left -/

/-- A worker that has left stays away. -/
theorem exited_turn (turn : w.turn t = some v) {i : Nat} (h : w.crew[i]? = some .exited) :
    v.crew[i]? = some .exited := by
  have hother {j : Nat} {k k' : Worker} (hk : w.crew[j]? = some k) (hne : k ≠ .exited) :
      (w.crew.set j k')[i]? = some .exited := by
    have hij : j ≠ i := by
      rintro rfl
      exact hne (Option.some.inj (hk.symm.trans h))
    rwa [List.getElem?_set_ne hij]
  cases turn_cases turn with
  | takes idle | exits idle => exact hother idle nofun
  | finishes busy => exact hother busy nofun

/-- A pool that all workers have left moves no more. -/
theorem not_turn_of_exited (hexited : ∀ k ∈ w.crew, k = .exited) (turn : w.turn t = some v) :
    False := by
  cases turn_cases turn with
  | takes idle | exits idle => exact absurd (hexited _ (List.mem_of_getElem? idle)) nofun
  | finishes busy => exact absurd (hexited _ (List.mem_of_getElem? busy)) nofun

/-- No worker comes or goes on a move. -/
theorem length_crew_turn (turn : w.turn t = some v) : v.crew.length = w.crew.length := by
  cases turn_cases turn with
  | takes | finishes | exits => exact List.length_set ..

/-- Handing a job in leaves the workers what they are, if there is room for the job. -/
theorem crew_execute (execute : w.execute panics = .ok v)
    (room : w.threads ≠ none → w.hasRoom = true) : v.crew = w.crew := by
  rcases execute_cases execute with ⟨-, rfl⟩ | ⟨n, hn, -, rfl⟩
  · rw [runHere_eq]
  · rw [if_pos (room (by simp [hn]))]
    rfl

end Workers

/-! ## Moves -/

/-- A call of the owner of a pool. -/
inductive Owner.Call where
  /-- A job is handed in, which panics or does not. -/
  | execute (panics : Bool)
  | shutdown

/-- A pool in the hands of its owner. -/
structure Owner where
  pool : Workers
  /-- The calls that have not returned, in order. -/
  calls : List Owner.Call
  /-- What handing jobs in was answered with, in order. -/
  answers : List (Except PacingError Unit) := []
  /-- Workers whose end was awaited, one after the other. -/
  joined : Nat := 0

namespace Owner

/-- A move of the owner or of a worker. -/
inductive Step : Owner → Owner → Prop where
  /-- A job is accepted, as soon as there is room for it if it has to be queued. -/
  | handIn {o : Owner} {panics : Bool} {rest : List Call} {pool : Workers}
      (calls : o.calls = .execute panics :: rest)
      (room : o.pool.threads ≠ none → o.pool.hasRoom = true)
      (execute : o.pool.execute panics = .ok pool) :
      Step o { o with pool, calls := rest, answers := o.answers ++ [.ok ()] }
  | refused {o : Owner} {panics : Bool} {rest : List Call} {e : PacingError}
      (calls : o.calls = .execute panics :: rest) (execute : o.pool.execute panics = .error e) :
      Step o { o with calls := rest, answers := o.answers ++ [.error e] }
  | close {o : Owner} {rest : List Call} (calls : o.calls = .shutdown :: rest)
      (isOpen : o.pool.isOpen = true) : Step o { o with pool := { o.pool with isOpen := false } }
  /-- The next worker to be awaited has left its loop. -/
  | join {o : Owner} {rest : List Call} (calls : o.calls = .shutdown :: rest)
      (closed : o.pool.isOpen = false) (left : o.pool.crew[o.joined]? = some .exited) :
      Step o { o with joined := o.joined + 1 }
  /-- Shutdown returns behind the last worker. -/
  | returns {o : Owner} {rest : List Call} (calls : o.calls = .shutdown :: rest)
      (closed : o.pool.isOpen = false) (all : o.pool.crew.length ≤ o.joined) :
      Step o { o with calls := rest }
  | turn {o : Owner} {t : Workers.Turn} {pool : Workers} (turn : o.pool.turn t = some pool) :
      Step o { o with pool }

variable {o o' : Owner} {w : Workers} {before after : List Bool}

/-! ## No call waits for ever -/

/-- Moves that are left at most. -/
def work (o : Owner) : Nat :=
  3 * o.calls.length + o.pool.load + o.pool.isOpen.toNat + (o.pool.crew.length - o.joined)

/-- Every move lessens what is left to do. -/
theorem Step.work_lt (h : o.Step o') : o'.work < o.work := by
  cases h with
  | @handIn panics rest pool calls room execute =>
    have hcrew := Workers.crew_execute execute room
    have hopen := (Workers.execute_keeps execute).2.1
    have hload : pool.load ≤ o.pool.load + 2 := by
      rcases Workers.execute_cases execute with ⟨-, rfl⟩ | ⟨n, hn, -, rfl⟩
      · rw [Workers.load_runHere]
        exact Nat.le_add_right _ _
      · rw [if_pos (room (by simp [hn])), Workers.load_enqueue]
    simp only [work, calls, hcrew, hopen, List.length_cons]
    omega
  | refused calls execute =>
    simp only [work, calls, List.length_cons]
    omega
  | close calls isOpen => simp [work, isOpen, Workers.load]
  | join calls closed left =>
    have hlt := (List.getElem?_eq_some_iff.1 left).1
    simp only [work]
    omega
  | returns calls closed all =>
    simp only [work, calls, List.length_cons]
    omega
  | turn turn =>
    have hload := Workers.load_turn turn
    simp only [work, (Workers.turn_keeps turn).2.1, Workers.length_crew_turn turn]
    omega

/-- A worker that shutdown waits for can move, if it has not left: it finishes its job, takes the
next one, or leaves. -/
theorem exists_step_of_joining {rest : List Call} (calls : o.calls = .shutdown :: rest)
    (closed : o.pool.isOpen = false) : ∃ o', o.Step o' := by
  cases hnext : o.pool.crew[o.joined]? with
  | none => exact ⟨_, .returns calls closed (List.getElem?_eq_none_iff.1 hnext)⟩
  | some k =>
    cases k with
    | exited => exact ⟨_, .join calls closed hnext⟩
    | busy job => exact ⟨_, .turn (Workers.turn_finish hnext)⟩
    | idle =>
      cases hwaiting : o.pool.waiting with
      | cons job rest => exact ⟨_, .turn (Workers.turn_take hnext hwaiting)⟩
      | nil => exact ⟨_, .turn (Workers.turn_exit hnext hwaiting closed)⟩

/-- While a call has not returned somebody can move: the owner, or a worker that it waits for. -/
theorem exists_step (h : o.pool.Sound) (hcalls : o.calls ≠ []) : ∃ o', o.Step o' := by
  obtain ⟨call, rest, calls⟩ := List.exists_cons_of_ne_nil hcalls
  cases call with
  | execute panics =>
    cases execute : o.pool.execute panics with
    | error e => exact ⟨_, .refused calls execute⟩
    | ok pool =>
      by_cases room : o.pool.threads ≠ none → o.pool.hasRoom = true
      · exact ⟨_, .handIn calls room execute⟩
      · -- There is no room because jobs wait.
        have hpending : o.pool.pending ≠ [] := fun hidle =>
          room fun threaded => h.hasRoom threaded (List.append_eq_nil_iff.1 hidle).2
        obtain ⟨t, v, turn⟩ := h.exists_turn hpending
        exact ⟨_, .turn turn⟩
  | shutdown =>
    cases isOpen : o.pool.isOpen with
    | true => exact ⟨_, .close calls isOpen⟩
    | false => exact exists_step_of_joining calls isOpen

/-! ## At every moment -/

/-- The jobs that are run of those handed in before and after shutdown. -/
def ran (w : Workers) (before after : List Bool) : List Bool :=
  if w.threads = none then before ++ after else before

/-- The answers to handing jobs in before and after shutdown. -/
def answered (w : Workers) (before after : List Bool) : List (Except PacingError Unit) :=
  before.map (fun _ => .ok ()) ++
    after.map fun _ => if w.threads = none then .ok () else .error .poolClosed

/-- The owner at its start: it hands jobs in before and after a shutdown. -/
def start (w : Workers) (before after : List Bool) : Owner :=
  { pool := w, calls := before.map .execute ++ .shutdown :: after.map .execute }

/-- What holds at every moment. -/
inductive Inv (w : Workers) (before after : List Bool) : Owner → Prop where
  /-- Until shutdown has returned. It closes the queue behind the last job. -/
  | serving {pool : Workers} {done todo : List Bool} {joined : Nat} (split : before = done ++ todo)
      (isOpen : todo ≠ [] → pool.isOpen = true)
      (left : ∀ i < joined, pool.crew[i]? = some .exited) (has : w.Has done pool) :
      Inv w before after
        ⟨pool, todo.map .execute ++ .shutdown :: after.map .execute, answered w done [], joined⟩
  | shut {pool : Workers} {done todo : List Bool} {joined : Nat} (split : after = done ++ todo)
      (closed : pool.isOpen = false) (left : ∀ k ∈ pool.crew, k = .exited)
      (has : w.Has (ran w before done) pool) :
      Inv w before after ⟨pool, todo.map .execute, answered w before done, joined⟩

/-- The jobs before the shutdown are all run. -/
theorem ran_nil (w : Workers) (before : List Bool) : ran w before [] = before := by
  rw [ran]
  split
  · exact List.append_nil before
  · rfl

/-- Without threads a job behind the shutdown is run as well. -/
theorem ran_concat (hw : w.threads = none) (panics : Bool) :
    ran w before (after ++ [panics]) = ran w before after ++ [panics] := by
  rw [ran, ran, if_pos hw, if_pos hw, List.append_assoc]

/-- A job before the shutdown is accepted. -/
theorem answered_served (w : Workers) (before : List Bool) (panics : Bool) :
    answered w (before ++ [panics]) [] = answered w before [] ++ [.ok ()] := by
  rw [answered, answered, List.map_append, List.map_nil, List.append_nil, List.append_nil]
  rfl

/-- A job behind the shutdown is refused, unless there are no threads. -/
theorem answered_concat (w : Workers) (before after : List Bool) (panics : Bool) :
    answered w before (after ++ [panics]) = answered w before after ++
      [if w.threads = none then .ok () else .error .poolClosed] := by
  rw [answered, answered, List.map_append, List.append_assoc]
  rfl

/-- The next call, if shutdown has not returned. -/
theorem calls_serving {todo rest : List Bool} {call : Call} {calls : List Call}
    (h : todo.map Call.execute ++ .shutdown :: rest.map .execute = call :: calls) :
    (todo = [] ∧ call = .shutdown ∧ calls = rest.map .execute) ∨
    ∃ panics more, todo = panics :: more ∧ call = .execute panics ∧
      calls = more.map .execute ++ .shutdown :: rest.map .execute := by
  cases todo with
  | nil =>
    obtain ⟨rfl, rfl⟩ := List.cons.inj h
    exact .inl ⟨rfl, rfl, rfl⟩
  | cons panics more =>
    obtain ⟨rfl, rfl⟩ := List.cons.inj h
    exact .inr ⟨panics, more, rfl, rfl, rfl⟩

/-- Until shutdown returns, whatever the next move is, no accepted job is lost, and a worker whose
end was awaited has left. -/
theorem Inv.step (hinv : Inv w before after o) (hstep : o.Step o') : Inv w before after o' := by
  cases hinv with
  | @serving pool done todo joined split isOpen left has =>
    cases hstep with
    | @handIn panics rest pool' calls room execute =>
      obtain ⟨-, hcall, -⟩ | ⟨panics, todo, rfl, hcall, rfl⟩ := calls_serving calls
      · cases hcall
      · cases hcall
        have hopen : pool'.isOpen = true :=
          (Workers.execute_keeps execute).2.1.trans (isOpen (List.cons_ne_nil _ _))
        rw [← answered_served]
        have hsplit : before = (done ++ [panics]) ++ todo := by rw [split, List.append_assoc]; rfl
        have hcrew : pool'.crew = pool.crew := Workers.crew_execute execute room
        exact .serving hsplit (fun _ => hopen) (hcrew ▸ left) (has.execute execute)
    | @refused panics rest e calls execute =>
      obtain ⟨-, hcall, -⟩ | ⟨panics, todo, rfl, hcall, rfl⟩ := calls_serving calls
      · cases hcall
      · obtain ⟨-, hclosed, -⟩ := Workers.execute_error execute
        exact absurd (isOpen (List.cons_ne_nil _ _)) (Bool.eq_false_iff.1 hclosed)
    | @close rest calls isOpen' =>
      obtain ⟨rfl, -, rfl⟩ | ⟨panics, todo, rfl, hcall, rfl⟩ := calls_serving calls
      · exact .serving split (fun h => absurd rfl h) left has.close
      · cases hcall
    | @join rest calls closed next =>
      refine .serving split isOpen (fun i hi => ?_) has
      rcases Nat.lt_succ_iff_lt_or_eq.1 hi with hi | rfl
      · exact left i hi
      · exact next
    | @returns rest calls closed all =>
      obtain ⟨rfl, -, rfl⟩ | ⟨panics, todo, rfl, hcall, rfl⟩ := calls_serving calls
      · rw [List.append_nil] at split
        subst split
        refine .shut (List.nil_append after).symm closed (fun k hk => ?_) (by rwa [ran_nil])
        obtain ⟨i, hi, hk⟩ := List.getElem_of_mem hk
        have hexited := left i (Nat.lt_of_lt_of_le hi all)
        rw [List.getElem?_eq_getElem hi, hk] at hexited
        exact Option.some.inj hexited
      · cases hcall
    | @turn t pool' turn =>
      exact .serving split (fun h => (Workers.turn_keeps turn).2.1.trans (isOpen h))
        (fun i hi => Workers.exited_turn turn (left i hi)) (has.turn turn)
  | @shut pool done todo joined split closed left has =>
    cases hstep with
    | @handIn panics rest pool' calls room execute =>
      obtain ⟨panics, todo, rfl, hcall, rfl⟩ := List.map_eq_cons_iff.1 calls
      cases hcall
      have hcrew : pool'.crew = pool.crew := Workers.crew_execute execute room
      obtain ⟨hnone, -⟩ | ⟨n, -, hopen, -⟩ := Workers.execute_cases execute
      · have hinline : w.threads = none := has.threads_eq.symm.trans hnone
        have hanswered := answered_concat w before done panics
        rw [if_pos hinline] at hanswered
        rw [← hanswered]
        refine .shut (by rw [split, List.append_assoc]; rfl)
          ((Workers.execute_keeps execute).2.1.trans closed) (hcrew ▸ left) ?_
        rw [ran_concat hinline]
        exact has.execute execute
      · exact absurd hopen (Bool.eq_false_iff.1 closed)
    | @refused panics rest e calls execute =>
      obtain ⟨panics, todo, rfl, hcall, rfl⟩ := List.map_eq_cons_iff.1 calls
      cases hcall
      obtain ⟨hthreads, -, rfl⟩ := Workers.execute_error execute
      have hsome : w.threads ≠ none := has.threads_eq ▸ hthreads
      have hanswered := answered_concat w before done panics
      rw [if_neg hsome] at hanswered
      rw [← hanswered]
      refine .shut (by rw [split, List.append_assoc]; rfl) closed left ?_
      rwa [ran, if_neg hsome] at has ⊢
    | @close rest calls | @join rest calls | @returns rest calls =>
      obtain ⟨panics, todo, rfl, hcall, rfl⟩ := List.map_eq_cons_iff.1 calls
      cases hcall
    | @turn t pool' turn => exact (Workers.not_turn_of_exited left turn).elim

/-- The invariant holds behind every schedule. -/
theorem Inv.reaches (hinv : Inv w before after o) (h : Relation.ReflTransGen Step o o') :
    Inv w before after o' := by
  induction h with
  | refl => exact hinv
  | tail _ hstep ih => exact ih.step hstep

/-- At its start the owner has not handed anything in. -/
theorem inv_start (hw : w.Fresh) (before after : List Bool) :
    Inv w before after (start w before after) :=
  .serving (List.nil_append before).symm (fun _ => hw.isOpen)
    (fun i hi => absurd hi (Nat.not_lt_zero i)) hw.has

/-- The pool is sound at every moment. -/
theorem Inv.sound (hinv : Inv w before after o) : o.pool.Sound := by
  cases hinv with
  | serving _ _ _ has | shut _ _ _ has => exact has.sound

/-! ## One schedule -/

/-- Calls made with `Workers.execute` and `Workers.shutdown`. -/
def made (pool : Workers) (answers : List (Except PacingError Unit)) (joined : Nat) :
    List Call → Owner
  | [] => ⟨pool, [], answers, joined⟩
  | .execute panics :: rest =>
    match pool.execute panics with
    | .ok pool' => made pool' (answers ++ [.ok ()]) joined rest
    | .error e => made pool (answers ++ [.error e]) joined rest
  | .shutdown :: rest => made pool.shutdown answers pool.crew.length rest

section
variable {answers : List (Except PacingError Unit)} {calls rest : List Call} {joined : Nat}

/-- While the owner waits the workers may go on until nothing is left for them. -/
theorem reaches_drain {w : Workers} (h : w.Sound) :
    Relation.ReflTransGen Step ⟨w, calls, answers, joined⟩ ⟨w.drain, calls, answers, joined⟩ := by
  cases hrunning : w.running with
  | cons job js =>
    obtain ⟨i, busy, hjs⟩ := Workers.exists_busy hrunning
    have turn := Workers.turn_finish busy
    have hless := Workers.load_turn turn
    rw [← Workers.drain_finish busy hrunning hjs]
    exact .head (.turn turn) (reaches_drain (h.turn turn))
  | nil =>
    cases hwaiting : w.waiting with
    | cons job js =>
      have idle := h.idle_of_waiting hrunning (by simp [hwaiting])
      have turn := Workers.turn_take idle hwaiting
      have hless := Workers.load_turn turn
      rw [← Workers.drain_take idle hrunning hwaiting]
      exact .head (.turn turn) (reaches_drain (h.turn turn))
    | nil =>
      rw [Workers.drain_of_idle hrunning hwaiting]
termination_by w.load

/-- Behind the last job the workers may leave one after the other. -/
theorem reaches_exits {w : Workers} (hclosed : w.isOpen = false) (hidle : w.pending = []) :
    Relation.ReflTransGen Step ⟨w, calls, answers, joined⟩
      ⟨{ w with crew := w.crew.map fun _ => .exited }, calls, answers, joined⟩ := by
  obtain ⟨hrunning, hwaiting⟩ := List.append_eq_nil_iff.1 hidle
  by_cases hleft : ∀ k ∈ w.crew, k = .exited
  · have hcrew : (w.crew.map fun _ => Worker.exited) = w.crew :=
      (List.map_congr_left fun k hk => (hleft k hk).symm).trans (List.map_id _)
    rw [hcrew]
  · obtain ⟨k, hk, hstays⟩ : ∃ k ∈ w.crew, k ≠ .exited := by simpa using hleft
    obtain ⟨i, hi⟩ := List.getElem?_of_mem hk
    have idle : w.crew[i]? = some .idle := by
      cases k with
      | idle => exact hi
      | busy job =>
        have hnone := List.filterMap_eq_nil_iff.1 hrunning _ hk
        cases hnone
      | exited => exact absurd rfl hstays
    have turn := Workers.turn_exit idle hwaiting hclosed
    have hless := Workers.load_turn turn
    have hrest := reaches_exits (w := { w with crew := w.crew.set i .exited }) hclosed
      ((Workers.pending_exit idle).trans hidle)
    have hsame : ((w.crew.set i .exited).map fun _ => Worker.exited) =
        w.crew.map fun _ => .exited := by
      rw [List.map_const', List.map_const', List.length_set]
    rw [hsame] at hrest
    exact .head (.turn turn) hrest
termination_by w.load

/-- Workers that have left need not be awaited. -/
theorem reaches_joins {w : Workers} (hclosed : w.isOpen = false)
    (hleft : ∀ k ∈ w.crew, k = .exited) (hjoined : joined ≤ w.crew.length) :
    Relation.ReflTransGen Step ⟨w, .shutdown :: rest, answers, joined⟩
      ⟨w, .shutdown :: rest, answers, w.crew.length⟩ := by
  induction hjoined using Nat.decreasingInduction with
  | self => exact .refl
  | of_succ n hn ih =>
    have hnext : w.crew[n]? = some .exited := by
      rw [List.getElem?_eq_getElem hn, hleft _ (List.getElem_mem hn)]
    exact .head (.join rfl hclosed hnext) ih

/-- To let the workers move only while the owner waits for them is one of the schedules. -/
theorem reaches_made (calls : List Call) :
    ∀ {w : Workers} {answers : List (Except PacingError Unit)} {joined : Nat}, w.Sound →
      joined ≤ w.threads.getD 0 →
      Relation.ReflTransGen Step ⟨w, calls, answers, joined⟩ (made w answers joined calls) := by
  induction calls with
  | nil => exact fun _ _ => .refl
  | cons call rest ih =>
    intro w answers joined h hjoined
    cases call with
    | execute panics =>
      rw [made]
      cases execute : w.execute panics with
      | error e => exact .head (.refused rfl execute) (ih h hjoined)
      | ok pool =>
        have hthreads := (Workers.execute_keeps execute).1
        have hrest : Relation.ReflTransGen Step ⟨pool, rest, answers ++ [.ok ()], joined⟩ _ :=
          ih (h.execute execute) (hthreads ▸ hjoined)
        by_cases room : w.threads ≠ none → w.hasRoom = true
        · exact .head (.handIn rfl room execute) hrest
        · rw [Classical.not_imp, Bool.not_eq_true] at room
          have hroom : w.drain.threads ≠ none → w.drain.hasRoom = true :=
            fun threaded => h.drain.hasRoom threaded (Workers.waiting_drain w)
          exact (reaches_drain h).trans
            (.head (.handIn rfl hroom (h.execute_drain execute room)) hrest)
    | shutdown =>
      rw [made]
      have hclose : Relation.ReflTransGen Step ⟨w, .shutdown :: rest, answers, joined⟩
          ⟨{ w with isOpen := false }, .shutdown :: rest, answers, joined⟩ := by
        cases hopen : w.isOpen with
        | true => exact .single (.close rfl hopen)
        | false => rw [← hopen]
      have hleave : Relation.ReflTransGen Step
          ⟨Workers.drain { w with isOpen := false }, .shutdown :: rest, answers, joined⟩ _ :=
        reaches_exits (Workers.isOpen_drain _) (Workers.pending_drain _)
      rw [Workers.exits_drain] at hleave
      have hlength : w.shutdown.crew.length = w.crew.length := List.length_map _
      have hleft : ∀ k ∈ w.shutdown.crew, k = .exited := by simp [Workers.shutdown]
      have hjoins : Relation.ReflTransGen Step ⟨w.shutdown, .shutdown :: rest, answers, joined⟩ _ :=
        reaches_joins rfl hleft (hlength.trans h.crew_length ▸ hjoined)
      rw [hlength] at hjoins
      refine (hclose.trans (reaches_drain h.close)).trans (hleave.trans (hjoins.trans ?_))
      refine .head (.returns rfl rfl (Nat.le_of_eq hlength)) (ih h.shutdown ?_)
      rw [h.crew_length, Workers.shutdown, Workers.threads_drain]

end

/-! ## Behind a shutdown -/

/-- Behind the shutdown all workers have left, and what was accepted was not lost. -/
theorem Inv.of_shut (hinv : Inv w before after o) {todo : List Bool}
    (hcalls : o.calls = todo.map .execute) :
    ∃ done, after = done ++ todo ∧ (∀ k ∈ o.pool.crew, k = .exited) ∧
      o.answers = answered w before done ∧ w.Has (ran w before done) o.pool := by
  cases hinv with
  | @serving pool done todo' joined split isOpen left has =>
    have hmem : Call.shutdown ∈ todo.map Call.execute := by
      rw [← hcalls]
      exact List.mem_append_right _ List.mem_cons_self
    obtain ⟨panics, -, hcall⟩ := List.mem_map.1 hmem
    cases hcall
  | @shut pool done todo' joined split closed left has =>
    obtain rfl : todo' = todo := List.map_injective_iff.2 (fun _ _ => Call.execute.inj) hcalls
    exact ⟨done, split, left, rfl, has⟩

/-- Jobs handed in around a shutdown, however the workers are scheduled. No call waits for ever.
When shutdown has returned, every worker has left its loop, and nothing runs or waits any more. The
jobs handed in before it were all accepted; they have ended, each once, and the counters tell those
that panicked from the others. What is handed in behind it a pool with threads refuses, and stays as
it is; a pool without threads runs it like all the jobs before. -/
theorem jobs_around_shutdown (hw : w.Fresh) (before after : List Bool) :
    (¬∃ run : Nat → Owner, run 0 = start w before after ∧ ∀ n, (run n).Step (run (n + 1))) ∧
    Relation.ReflTransGen Step (start w before after)
      (made w [] 0 (start w before after).calls) ∧
    ∀ o, Relation.ReflTransGen Step (start w before after) o →
      (o.calls ≠ [] → ∃ o', o.Step o') ∧
      ∀ todo, o.calls = todo.map .execute → ∃ done, after = done ++ todo ∧
        (∀ k ∈ o.pool.crew, k = .exited) ∧
        o.pool.pending = [] ∧ o.answers = answered w before done ∧
        o.pool.ended.Nodup ∧ o.pool.ended.Perm (Workers.numbered (ran w before done)) ∧
        o.pool.completed = (ran w before done).countP (!·) ∧
        o.pool.panicked = (ran w before done).countP (·) := by
  have hstart := inv_start hw before after
  refine ⟨not_endless work (fun hc hstep => ⟨hc.step hstep, hstep.work_lt⟩) hstart,
    reaches_made _ hstart.sound (Nat.zero_le _), fun o ho => ?_⟩
  have hinv := hstart.reaches ho
  refine ⟨fun hcalls => exists_step hinv.sound hcalls, fun todo hcalls => ?_⟩
  obtain ⟨done, hsplit, hleft, hanswers, hhas⟩ := hinv.of_shut hcalls
  have hidle := hinv.sound.idle_of_exited hleft
  obtain ⟨hended, hcounts⟩ := hhas.of_idle hidle
  exact ⟨done, hsplit, hleft, hidle, hanswers,
    hended.nodup_iff.2 (Workers.nodup_numbered _), hended, hcounts⟩

/-- Three jobs on one thread, of which the second panics while the third waits behind it, and one
behind the shutdown. -/
theorem jobs_around_shutdown_demo :
    let first := start (.ofCount (Workers.countFor 1 4)) [false, true, false] [false]
    (∃ o, Relation.ReflTransGen Step first o ∧ o.calls = []) ∧
    ∀ o, Relation.ReflTransGen Step first o → o.calls = [] →
      o.pool.completed = 2 ∧ o.pool.panicked = 1 ∧
      o.answers = [.ok (), .ok (), .ok (), .error .poolClosed] := by
  intro first
  obtain ⟨-, hmade, h⟩ := jobs_around_shutdown (.ofCount 1 4) [false, true, false] [false]
  refine ⟨⟨_, hmade, rfl⟩, fun o ho hcalls => ?_⟩
  obtain ⟨done, hdone, -, -, hanswers, -, -, hcompleted, hpanicked⟩ := (h o ho).2 [] hcalls
  rw [List.append_nil] at hdone
  subst hdone
  exact ⟨hcompleted, hpanicked, hanswers⟩

/-- A pool without threads takes jobs behind its shutdown. -/
theorem inline_outlives_shutdown :
    ¬∀ w : Workers, w.Fresh → ∀ panics, w.shutdown.execute panics = .error .poolClosed := by
  intro h
  have hrefused := h .inline .inline false
  cases hrefused

end Owner

end RenderStream
