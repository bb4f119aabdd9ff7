import Mathlib.Logic.Relation
import RenderStream.Proofs.Workers

/-!
# A map over the pool, move by move

`Workers.mapOrdered` lets the threads go on only when its caller has to wait. They really move
whenever they like: a job is taken, sends its result over a channel, gives up its end of the channel
and is counted. Meanwhile the caller hands in the next item or, behind the last one, takes results
out of the channel until no end of it is left. `Mapping.Step` is one move of any of them.

What carries the proof is where the values are (`Mapping.Holds`): the value of an item that was
handed in is owed by its job, or waits in the channel, or stands in its slot, and nothing else is in
any of these places. So once the channel has ended every slot holds what its item gave. That it ends
is counted: every move lessens what is left to do (`Step.work_lt`), and as long as something is left
somebody can move (`Inv.exists_step`).
-/

namespace RenderStream

/-! ## Moves -/

/-- What a job of a map still has to do with the channel. It keeps its end until it is over. -/
structure Sender (β : Type) where
  /-- The number of the job. -/
  number : Nat
  /-- The place of the item. -/
  place : Nat
  /-- The result that is still to be sent; none if there is none, or not any more. -/
  owed : Option β

namespace Sender

variable {β : Type}

/-- Moves that a job has left at most before it is counted. -/
def load (s : Sender β) : Nat := if s.owed.isSome then 3 else 1

/-- A sender has three moves at most before it. -/
theorem load_le (s : Sender β) : s.load ≤ 3 := by
  rw [load]
  split <;> omega

/-- The message that a job is about to send. -/
def message? (s : Sender β) : Option (Nat × β) := s.owed.map (s.place, ·)

end Sender

/-- A map that the caller has begun. -/
structure Mapping (α β : Type) where
  pool : Workers
  /-- The items that are still to be handed in. -/
  todo : List α
  /-- The place of the next one. -/
  next : Nat := 0
  /-- The ends of the channel that jobs hold. -/
  senders : List (Sender β) := []
  /-- The results on their way. -/
  channel : List (Nat × β) := []
  slots : List (Option β)
  /-- What the call returned. -/
  result : Option (Except PacingError (List β)) := none

namespace Mapping

variable {α β : Type}

/-- The beginning of a map, with an empty slot for every item. -/
def start (xs : List α) (w : Workers) : Mapping α β :=
  { pool := w, todo := xs, slots := List.replicate xs.length none }

/-- Whether a result finds room in the channel. -/
def hasRoom (c : Mapping α β) : Bool := decide (c.channel.length < max c.slots.length 1)

/-- A move of the caller or of a thread. -/
inductive Step (f : α → Option β) : Mapping α β → Mapping α β → Prop where
  /-- The next job is queued, once there is room for it. -/
  | handIn {c : Mapping α β} {x : α} {rest : List α} {pool : Workers} (waits : c.result = none)
      (todo : c.todo = x :: rest) (threaded : c.pool.threads ≠ none) (room : c.pool.hasRoom = true)
      (execute : c.pool.execute (f x).isNone = .ok pool) :
      Step f c
        { c with
          pool, todo := rest, next := c.next + 1
          senders := c.senders ++ [⟨c.pool.accepted, c.next, f x⟩] }
  /-- Without threads the job is over when it is handed in. -/
  | runHere {c : Mapping α β} {x : α} {rest : List α} {pool : Workers} (waits : c.result = none)
      (todo : c.todo = x :: rest) (inline : c.pool.threads = none) (room : c.hasRoom = true)
      (execute : c.pool.execute (f x).isNone = .ok pool) :
      Step f c
        { c with
          pool, todo := rest, next := c.next + 1
          channel := c.channel ++ ((f x).map (c.next, ·)).toList }
  | refused {c : Mapping α β} {x : α} {rest : List α} {e : PacingError} (waits : c.result = none)
      (todo : c.todo = x :: rest) (execute : c.pool.execute (f x).isNone = .error e) :
      Step f c { c with result := some (.error e) }
  /-- A thread takes a job, or counts one that is over. -/
  | turn {c : Mapping α β} {t : Workers.Turn} {pool : Workers} (turn : c.pool.turn t = some pool)
      (unheld : ∀ i job, t = .finish i → c.pool.crew[i]? = some (.busy job) →
        ∀ s ∈ c.senders, s.number ≠ job.number) :
      Step f c { c with pool }
  | send {c : Mapping α β} {before after : List (Sender β)} {s : Sender β} {y : β}
      (senders : c.senders = before ++ s :: after)
      (runs : ∃ job ∈ c.pool.running, job.number = s.number) (owed : s.owed = some y)
      (room : c.hasRoom = true) :
      Step f c
        { c with
          senders := before ++ { s with owed := none } :: after
          channel := c.channel ++ [(s.place, y)] }
  /-- A job is over, by its return or by its panic. -/
  | hangUp {c : Mapping α β} {before after : List (Sender β)} {s : Sender β}
      (senders : c.senders = before ++ s :: after)
      (runs : ∃ job ∈ c.pool.running, job.number = s.number) (owed : s.owed = none) :
      Step f c { c with senders := before ++ after }
  | receive {c : Mapping α β} {before after : List (Nat × β)} {m : Nat × β}
      (waits : c.result = none) (todo : c.todo = []) (channel : c.channel = before ++ m :: after) :
      Step f c { c with channel := before ++ after, slots := c.slots.set m.1 (some m.2) }
  /-- The channel has ended. -/
  | conclude {c : Mapping α β} (waits : c.result = none) (todo : c.todo = [])
      (channel : c.channel = []) (senders : c.senders = []) :
      Step f c { c with result := some (Workers.gather c.slots) }

/-- However the threads are scheduled, the call returns, and returns this. -/
def Returns (f : α → Option β) (c : Mapping α β) (r : Except PacingError (List β)) : Prop :=
  (¬∃ run : Nat → Mapping α β, run 0 = c ∧ ∀ n, (run n).Step f (run (n + 1))) ∧
  ∀ d, Relation.ReflTransGen (Step f) c d →
    (d.result = none → ∃ e, d.Step f e) ∧ ∀ r', d.result = some r' → r' = r

variable {f : α → Option β} {xs : List α} {w : Workers} {c d : Mapping α β}

/-! ## No map goes on for ever -/

/-- Moves that are left at most. -/
def work (c : Mapping α β) : Nat :=
  6 * c.todo.length + c.pool.load + (c.senders.map Sender.load).sum + c.channel.length +
    if c.result.isNone then 1 else 0

/-- Every move lessens what is left to do. -/
theorem Step.work_lt (h : c.Step f d) : d.work < c.work := by
  cases h with
  | @handIn x rest pool waits todo threaded room execute =>
    rcases Workers.execute_cases execute with ⟨hnone, -⟩ | ⟨n, -, -, rfl⟩
    · exact absurd hnone threaded
    · have hload := Sender.load_le ⟨c.pool.accepted, c.next, f x⟩
      simp only [work, todo, room, if_true, Workers.load_enqueue, List.length_cons,
        List.map_append, List.map_cons, List.map_nil, List.sum_append, List.sum_cons, List.sum_nil]
      omega
  | @runHere x rest pool waits todo inline room execute =>
    rcases Workers.execute_cases execute with ⟨-, rfl⟩ | ⟨n, hn, -⟩
    · have hsent := ((f x).map (c.next, ·)).length_toList_le
      simp only [work, todo, Workers.load_runHere, List.length_cons, List.length_append]
      omega
    · exact absurd inline (by simp [hn])
  | refused waits todo execute => simp [work, waits]
  | turn turn unheld =>
    have hload := Workers.load_turn turn
    simp only [work]
    omega
  | send senders runs owed room =>
    simp only [work, senders, Sender.load, owed, List.map_append, List.map_cons, List.sum_append,
      List.sum_cons, List.length_append, List.length_singleton, Option.isSome]
    simp only [if_true, Bool.false_eq_true, if_false]
    omega
  | hangUp senders runs owed =>
    simp only [work, senders, Sender.load, owed, List.map_append, List.map_cons, List.sum_append,
      List.sum_cons, Option.isSome]
    simp only [Bool.false_eq_true, if_false]
    omega
  | receive waits todo channel =>
    simp only [work, channel, List.length_append, List.length_cons]
    omega
  | conclude waits todo channel senders => simp [work, waits]

/-! ## Where the values are -/

/-- What the item at a place is mapped to. -/
def value (f : α → Option β) (xs : List α) (i : Nat) : Option β := xs[i]?.bind f

/-- Of the items up to a place every value is on its way or in its slot, and nothing else is. -/
structure Holds (f : α → Option β) (xs : List α) (next : Nat) (messages : List (Nat × β))
    (slots : List (Option β)) : Prop where
  sent : ∀ m ∈ messages, value f xs m.1 = some m.2
  filled : ∀ i y, slots[i]? = some (some y) → value f xs i = some y
  kept : ∀ i y, i < next → value f xs i = some y →
    slots[i]? = some (some y) ∨ (i, y) ∈ messages
  length_eq : slots.length = xs.length

section
variable {next : Nat} {messages messages' : List (Nat × β)} {slots : List (Option β)}

/-- At the start no result was received. -/
theorem holds_start (f : α → Option β) (xs : List α) :
    Holds f xs 0 [] (List.replicate xs.length none) where
  sent := nofun
  filled i y h := by simp [List.getElem?_replicate] at h
  kept i y h := absurd h (Nat.not_lt_zero i)
  length_eq := List.length_replicate

/-- The order of the messages does not matter. -/
theorem Holds.carry (h : Holds f xs next messages slots) (hsame : messages'.Perm messages) :
    Holds f xs next messages' slots where
  sent m hm := h.sent m (hsame.mem_iff.1 hm)
  filled := h.filled
  kept i y hi hy := (h.kept i y hi hy).imp_right hsame.mem_iff.2
  length_eq := h.length_eq

/-- One item more is handed in; its value, if it has one, is on its way. -/
theorem Holds.hand {x : α} (h : Holds f xs next messages slots) (hx : xs[next]? = some x)
    (hmore : messages'.Perm (messages ++ ((f x).map (next, ·)).toList)) :
    Holds f xs (next + 1) messages' slots := by
  have hvalue : value f xs next = f x := by rw [value, hx, Option.bind_some]
  refine ⟨fun m hm => ?_, h.filled, fun i y hi hy => ?_, h.length_eq⟩
  · rcases List.mem_append.1 (hmore.mem_iff.1 hm) with hm | hm
    · exact h.sent m hm
    · obtain ⟨y, hy, rfl⟩ := Option.map_eq_some_iff.1 (Option.mem_toList.1 hm)
      exact hvalue.trans hy
  · rcases Nat.lt_succ_iff_lt_or_eq.1 hi with hi | rfl
    · refine (h.kept i y hi hy).imp_right fun hm => ?_
      exact hmore.mem_iff.2 (List.mem_append_left _ hm)
    · refine .inr (hmore.mem_iff.2 (List.mem_append_right _ (Option.mem_toList.2 ?_)))
      exact Option.map_eq_some_iff.2 ⟨y, hvalue.symm.trans hy, rfl⟩

/-- A message reaches its slot. -/
theorem Holds.receive {m : Nat × β} (h : Holds f xs next messages slots)
    (hfirst : messages.Perm (m :: messages')) :
    Holds f xs next messages' (slots.set m.1 (some m.2)) := by
  have hm : value f xs m.1 = some m.2 := h.sent m (hfirst.mem_iff.2 List.mem_cons_self)
  refine ⟨fun m' hm' => h.sent m' (hfirst.mem_iff.2 (List.mem_cons_of_mem _ hm')), ?_, ?_, ?_⟩
  · intro i y hi
    rw [List.getElem?_set] at hi
    split at hi
    · next heq =>
      split at hi
      · rw [← heq, hm]
        exact Option.some.inj hi
      · cases hi
    · exact h.filled i y hi
  · intro i y hi hy
    rw [List.getElem?_set]
    split
    · next heq =>
      -- The slot is there, and the value that it gets is the one of the item.
      have hlt : m.1 < slots.length := by
        rw [h.length_eq]
        by_contra hge
        rw [value, List.getElem?_eq_none (Nat.not_lt.1 hge)] at hm
        cases hm
      refine .inl ?_
      rw [if_pos hlt, ← hm, heq, hy]
    · next hne =>
      refine (h.kept i y hi hy).imp_right fun hmem => ?_
      rcases List.mem_cons.1 (hfirst.mem_iff.1 hmem) with rfl | hmem
      · exact absurd rfl hne
      · exact hmem
  · rw [List.length_set]
    exact h.length_eq

/-- With every item handed in and nothing on its way, every slot holds what its item gave. -/
theorem Holds.slots_eq (h : Holds f xs next [] slots) (hnext : xs.length ≤ next) :
    slots = xs.map f := by
  refine List.ext_getElem? fun i => ?_
  rw [List.getElem?_map]
  rcases Nat.lt_or_ge i xs.length with hi | hi
  · have hx := List.getElem?_eq_getElem hi
    have hvalue : value f xs i = f xs[i] := by rw [value, hx, Option.bind_some]
    obtain ⟨slot, hslot⟩ : ∃ slot, slots[i]? = some slot :=
      ⟨_, List.getElem?_eq_getElem (h.length_eq ▸ hi)⟩
    rw [hx, Option.map_some]
    cases hf : f xs[i] with
    | some y =>
      have hkept := h.kept i y (Nat.lt_of_lt_of_le hi hnext) (hvalue.trans hf)
      exact hkept.resolve_right nofun
    | none =>
      cases slot with
      | none => exact hslot
      | some y => exact absurd ((h.filled i y hslot).symm.trans (hvalue.trans hf)) nofun
  · rw [List.getElem?_eq_none hi, List.getElem?_eq_none (h.length_eq ▸ hi)]
    rfl

end

/-! ## At every moment -/

/-- The results that have not reached their slots. -/
def messages (c : Mapping α β) : List (Nat × β) :=
  c.senders.filterMap Sender.message? ++ c.channel

/-- What holds at every moment of a map of `xs` over the pool `w`. -/
structure Inv (f : α → Option β) (xs : List α) (w : Workers) (c : Mapping α β) : Prop where
  handed : xs.drop c.next = c.todo
  reached : c.pool.Reached
  isOpen : c.pool.isOpen = true
  threads_eq : c.pool.threads = w.threads
  /-- The pool has its old jobs and one for every item that was handed in. -/
  jobs : (c.pool.jobs.map Job.panics).Perm
    (w.jobs.map Job.panics ++ (xs.take c.next).map fun x => (f x).isNone)
  held : ∀ s ∈ c.senders, ∃ job ∈ c.pool.pending, job.number = s.number
  holds : Holds f xs c.next c.messages c.slots
  bound : c.messages.length + c.todo.length ≤ xs.length
  answered : ∀ r, c.result = some r → r = Workers.gather (xs.map f) ∧ c.todo = []

/-- At the start no item was handed in. -/
theorem inv_start (f : α → Option β) (xs : List α) (hw : w.Reached) (hopen : w.isOpen = true) :
    Inv f xs w (start xs w) where
  handed := rfl
  reached := hw
  isOpen := hopen
  threads_eq := rfl
  jobs := by
    rw [start, List.take_zero, List.map_nil, List.append_nil]
  held := nofun
  holds := holds_start f xs
  bound := Nat.le_of_eq (Nat.zero_add _)
  answered := nofun

section
variable {x : α} {rest : List α} {pool : Workers}

/-- The pool accepts the job of an item under its number. -/
theorem Inv.accepts (hc : Inv f xs w c) (execute : c.pool.execute (f x).isNone = .ok pool) :
    c.pool.Accepts [⟨c.pool.accepted, (f x).isNone⟩] pool := by
  obtain ⟨v, hv, haccepts⟩ := Workers.execute_accepts (hc.reached.takes hc.isOpen) (f x).isNone
  cases Except.ok.inj (execute.symm.trans hv)
  exact haccepts

/-- An item is handed in: its job waits or is over already. -/
theorem Inv.hand (hc : Inv f xs w c) (waits : c.result = none) (todo : c.todo = x :: rest)
    (execute : c.pool.execute (f x).isNone = .ok pool) {senders : List (Sender β)}
    {channel : List (Nat × β)} (hheld : ∀ s ∈ senders, ∃ job ∈ pool.pending, job.number = s.number)
    (hmore : ({ c with senders, channel } : Mapping α β).messages.Perm
      (c.messages ++ ((f x).map (c.next, ·)).toList)) :
    Inv f xs w { c with pool, todo := rest, next := c.next + 1, senders, channel } := by
  have hdrop := hc.handed.trans todo
  have hx : xs[c.next]? = some x := by
    rw [← Nat.add_zero c.next, ← List.getElem?_drop, hdrop]
    rfl
  have haccepts := hc.accepts execute
  refine
    { handed := ?_
      reached := hc.reached.execute execute
      isOpen := haccepts.takes.isOpen
      threads_eq := haccepts.threads_eq.trans hc.threads_eq
      jobs := ?_
      held := hheld
      holds := hc.holds.hand hx hmore
      bound := ?_
      answered := fun r hr => absurd (waits.symm.trans hr) nofun }
  · rw [← List.drop_drop, hdrop]
    rfl
  · rw [haccepts.jobs_eq, List.take_add_one, hx, List.map_append, List.map_append,
      ← List.append_assoc]
    exact hc.jobs.append_right _
  · have hlength := hmore.length_eq
    have hone := ((f x).map (c.next, ·)).length_toList_le
    have hbound := hc.bound
    rw [List.length_append] at hlength
    rw [todo, List.length_cons] at hbound
    change List.length (Mapping.messages { c with senders, channel }) + rest.length ≤ _
    omega

end

/-- A sender keeps its job until it is over. -/
theorem Inv.held_turn (hc : Inv f xs w c) {t : Workers.Turn} {pool : Workers}
    (turn : c.pool.turn t = some pool)
    (unheld : ∀ i job, t = .finish i → c.pool.crew[i]? = some (.busy job) →
      ∀ s ∈ c.senders, s.number ≠ job.number) :
    ∀ s ∈ c.senders, ∃ job ∈ pool.pending, job.number = s.number := by
  intro s hs
  obtain ⟨job, hjob, hnumber⟩ := hc.held s hs
  refine ⟨job, ?_, hnumber⟩
  have hmove := Workers.turn_cases turn
  generalize hpool : c.pool = w' at hjob unheld hmove
  cases hmove with
  | takes idle waiting => exact (Workers.pending_take idle waiting).mem_iff.2 hjob
  | @finishes i job' busy =>
    rcases List.mem_cons.1 ((Workers.pending_finish busy).mem_iff.2 hjob) with rfl | hpending
    · exact absurd hnumber.symm (unheld i job rfl busy s hs)
    · exact hpending
  | exits idle => exact (Workers.pending_exit idle).symm ▸ hjob

/-- A move of a sender leaves the messages what they are, wherever they are. -/
theorem Inv.carry (hc : Inv f xs w c) {senders : List (Sender β)} {channel : List (Nat × β)}
    (hheld : ∀ s ∈ senders, ∃ s' ∈ c.senders, s'.number = s.number)
    (hsame : ({ c with senders, channel } : Mapping α β).messages.Perm c.messages) :
    Inv f xs w { c with senders, channel } :=
  { hc with
    held := fun s hs => by
      obtain ⟨s', hs', hnumber⟩ := hheld s hs
      rw [← hnumber]
      exact hc.held s' hs'
    holds := hc.holds.carry hsame
    bound := by
      rw [hsame.length_eq]
      exact hc.bound }

section
variable {before after : List (Sender β)} {s : Sender β}

/-- An item that is handed in is one result more to come. -/
theorem messages_handIn (c : Mapping α β) (s : Sender β) :
    ({ c with senders := c.senders ++ [s] } : Mapping α β).messages.Perm
      (c.messages ++ s.message?.toList) := by
  have hnew : [s].filterMap Sender.message? = s.message?.toList := by
    cases hs : s.message? <;> simp [hs]
  rw [messages, messages, List.filterMap_append, hnew, List.append_assoc, List.append_assoc]
  exact List.perm_append_comm.append_left _

/-- A result that is sent is still to come. -/
theorem messages_send {y : β} (senders : c.senders = before ++ s :: after)
    (owed : s.owed = some y) :
    ({ c with
        senders := before ++ { s with owed := none } :: after
        channel := c.channel ++ [(s.place, y)] } : Mapping α β).messages.Perm c.messages := by
  simp only [messages, senders, Sender.message?, owed, List.filterMap_append, List.filterMap_cons,
    Option.map_none, Option.map_some, List.append_assoc]
  refine List.Perm.append_left _ ?_
  rw [List.cons_append, ← List.append_assoc]
  exact List.perm_append_singleton _ _

/-- A sender that has sent its result leaves nothing behind. -/
theorem messages_hangUp (senders : c.senders = before ++ s :: after) (owed : s.owed = none) :
    ({ c with senders := before ++ after } : Mapping α β).messages = c.messages := by
  simp only [messages, senders, Sender.message?, owed, List.filterMap_append, List.filterMap_cons,
    Option.map_none]

/-- A result that is received is no longer to come. -/
theorem messages_receive {before after : List (Nat × β)} {m : Nat × β}
    (channel : c.channel = before ++ m :: after) :
    c.messages.Perm (m :: ({ c with channel := before ++ after } : Mapping α β).messages) := by
  rw [messages, messages, channel]
  exact (List.perm_middle.append_left _).trans List.perm_middle

end

/-- Whatever the next move is, it keeps what holds at every moment. -/
theorem Inv.step (hc : Inv f xs w c) (hstep : c.Step f d) : Inv f xs w d := by
  cases hstep with
  | @handIn x rest pool waits todo threaded room execute =>
    refine hc.hand waits todo execute (fun s hs => ?_) (messages_handIn c _)
    rcases Workers.execute_cases execute with ⟨hnone, -⟩ | ⟨n, -, -, rfl⟩
    · exact absurd hnone threaded
    · rw [room, if_pos rfl, Workers.pending_enqueue]
      rcases List.mem_append.1 hs with hs | hs
      · obtain ⟨job, hjob, hnumber⟩ := hc.held s hs
        exact ⟨job, List.mem_append_left _ hjob, hnumber⟩
      · rw [List.mem_singleton.1 hs]
        exact ⟨_, List.mem_append_right _ List.mem_cons_self, rfl⟩
  | @runHere x rest pool waits todo inline room execute =>
    refine hc.hand waits todo execute (fun s hs => ?_) ?_
    · rcases Workers.execute_cases execute with ⟨-, rfl⟩ | ⟨n, hn, -⟩
      · rw [Workers.pending_runHere]
        exact hc.held s hs
      · exact absurd inline (by simp [hn])
    · rw [messages, messages, List.append_assoc]
  | refused waits todo execute =>
    obtain ⟨v, hv, -⟩ := Workers.execute_accepts (hc.reached.takes hc.isOpen) _
    cases execute.symm.trans hv
  | turn turn unheld =>
    exact
      { hc with
        reached := hc.reached.turn turn
        isOpen := (Workers.turn_keeps turn).2.1.trans hc.isOpen
        threads_eq := (Workers.turn_keeps turn).1.trans hc.threads_eq
        jobs := ((Workers.jobs_turn turn).map _).trans hc.jobs
        held := hc.held_turn turn unheld }
  | @send before after s y senders runs owed room =>
    refine hc.carry (fun s' hs' => ?_) (messages_send senders owed)
    rw [senders]
    rcases List.mem_append.1 hs' with hs' | hs'
    · exact ⟨s', List.mem_append_left _ hs', rfl⟩
    · rcases List.mem_cons.1 hs' with rfl | hs'
      · exact ⟨s, List.mem_append_right _ List.mem_cons_self, rfl⟩
      · exact ⟨s', List.mem_append_right _ (List.mem_cons_of_mem _ hs'), rfl⟩
  | @hangUp before after s senders runs owed =>
    refine hc.carry (fun s' hs' => ⟨s', ?_, rfl⟩) (.of_eq (messages_hangUp senders owed))
    rw [senders]
    exact (List.mem_append.1 hs').elim (List.mem_append_left _)
      fun h => List.mem_append_right _ (List.mem_cons_of_mem _ h)
  | @receive before after m waits todo channel =>
    have hfirst := messages_receive channel
    refine { hc with holds := hc.holds.receive hfirst, bound := ?_ }
    have hbound := hc.bound
    rw [hfirst.length_eq, List.length_cons] at hbound
    change List.length (Mapping.messages { c with channel := before ++ after }) + c.todo.length ≤ _
    omega
  | conclude waits todo channel senders =>
    refine { hc with answered := fun r hr => ⟨?_, todo⟩ }
    have hnext : xs.length ≤ c.next := List.drop_eq_nil_iff.1 (hc.handed.trans todo)
    have hholds := hc.holds
    rw [messages, channel, senders] at hholds
    rw [← hholds.slots_eq hnext]
    exact (Option.some.inj hr).symm

/-- The invariant holds behind every schedule. -/
theorem Inv.reaches (hc : Inv f xs w c) (h : Relation.ReflTransGen (Step f) c d) :
    Inv f xs w d := by
  induction h with
  | refl => exact hc
  | tail _ hstep ih => exact ih.step hstep

/-! ## No map gets stuck -/

/-- A thread with a job can move: the job sends its result, or is over, or is counted. -/
theorem Inv.exists_step_of_running (hc : Inv f xs w c) {job : Job} {rest : List Job}
    (hrunning : c.pool.running = job :: rest) : ∃ d, c.Step f d := by
  obtain ⟨k, hbusy, -⟩ := Workers.exists_busy hrunning
  by_cases hs : ∃ s ∈ c.senders, s.number = job.number
  · obtain ⟨s, hs, hnumber⟩ := hs
    obtain ⟨before, after, hsenders⟩ := List.append_of_mem hs
    have hruns : ∃ job ∈ c.pool.running, job.number = s.number :=
      ⟨job, hrunning ▸ List.mem_cons_self, hnumber.symm⟩
    cases howed : s.owed with
    | none => exact ⟨_, .hangUp hsenders hruns howed⟩
    | some y =>
      refine ⟨_, .send hsenders hruns howed (decide_eq_true ?_)⟩
      -- The message is one of those for which there is room in the channel.
      have hmessages := (messages_send (c := c) hsenders howed).length_eq
      have hbound := hc.bound
      rw [← hmessages, messages, List.length_append, List.length_append] at hbound
      rw [hc.holds.length_eq]
      simp only [List.length_singleton] at hbound
      omega
  · refine ⟨_, .turn (Workers.turn_finish hbusy) ?_⟩
    rintro i job' ⟨rfl⟩ hjob' s hs' hnumber
    obtain rfl : job = job' := Worker.busy.inj (Option.some.inj (hbusy.symm.trans hjob'))
    exact hs ⟨s, hs', hnumber⟩

/-- With no job before it, the next item can be handed in. -/
theorem Inv.exists_step_of_todo (hc : Inv f xs w c) {x : α} {rest : List α}
    (hwaits : c.result = none) (hwaiting : c.pool.waiting = []) (htodo : c.todo = x :: rest) :
    ∃ d, c.Step f d := by
  obtain ⟨pool, hpool, -⟩ := Workers.execute_accepts (hc.reached.takes hc.isOpen) (f x).isNone
  cases hthreads : c.pool.threads with
  | none =>
    refine ⟨_, .runHere hwaits htodo hthreads (decide_eq_true ?_) hpool⟩
    have hbound := hc.bound
    rw [htodo, messages, List.length_append, List.length_cons] at hbound
    rw [hc.holds.length_eq]
    omega
  | some n =>
    have hthreaded : c.pool.threads ≠ none := by simp [hthreads]
    exact ⟨_, .handIn hwaits htodo hthreaded (hc.reached.sound.hasRoom hthreaded hwaiting) hpool⟩

/-- Behind the last item, when all jobs have ended, the channel has a message or has ended too. -/
theorem Inv.exists_step_of_handed (hc : Inv f xs w c) (hwaits : c.result = none)
    (htodo : c.todo = []) (hidle : c.pool.pending = []) : ∃ d, c.Step f d := by
  have hsenders : c.senders = [] := List.eq_nil_iff_forall_not_mem.2 fun s hs => by
    obtain ⟨job, hjob, -⟩ := hc.held s hs
    rw [hidle] at hjob
    cases hjob
  cases hchannel : c.channel with
  | nil => exact ⟨_, .conclude hwaits htodo hchannel hsenders⟩
  | cons m rest =>
    have hfirst : c.channel = [] ++ m :: rest := hchannel
    exact ⟨_, .receive hwaits htodo hfirst⟩

/-- While the call has not returned, or a job has not ended, somebody can move. -/
theorem Inv.exists_step (hc : Inv f xs w c) (h : c.result = none ∨ c.pool.pending ≠ []) :
    ∃ d, c.Step f d := by
  cases hrunning : c.pool.running with
  | cons job rest => exact hc.exists_step_of_running hrunning
  | nil =>
    cases hwaiting : c.pool.waiting with
    | cons job rest =>
      have hidle := hc.reached.sound.idle_of_waiting hrunning (by simp [hwaiting])
      exact ⟨_, .turn (Workers.turn_take hidle hwaiting) (by rintro i job ⟨⟩)⟩
    | nil =>
      have hidle : c.pool.pending = [] := by rw [Workers.pending, hrunning, hwaiting]; rfl
      have hwaits := h.resolve_right (· hidle)
      cases htodo : c.todo with
      | cons x rest => exact hc.exists_step_of_todo hwaits hwaiting htodo
      | nil => exact hc.exists_step_of_handed hwaits htodo hidle

/-! ## What comes of a map -/

/-- A map on an open pool returns what was gathered, under every schedule. -/
theorem returns (f : α → Option β) (xs : List α) (hw : w.Reached) (hopen : w.isOpen = true) :
    Returns f (start xs w) (Workers.gather (xs.map f)) := by
  have hstart := inv_start f xs hw hopen
  refine ⟨not_endless work (fun hc hstep => ⟨hc.step hstep, hstep.work_lt⟩) hstart, fun d hd => ?_⟩
  have hinv := hstart.reaches hd
  exact ⟨fun hwaits => hinv.exists_step (.inl hwaits), fun r hr => (hinv.answered r hr).1⟩

/-- When the call has returned, the pool has a job for every item. -/
theorem Inv.grows (hc : Inv f xs w c) (hw : w.Tallies) (hreturned : c.result.isSome = true) :
    w.Grows c.pool (xs.length - xs.countP fun x => (f x).isNone)
      (xs.countP fun x => (f x).isNone) := by
  obtain ⟨r, hr⟩ := Option.isSome_iff_exists.1 hreturned
  have hall : xs.take c.next = xs := List.take_of_length_le
    (List.drop_eq_nil_iff.1 (hc.handed.trans (hc.answered r hr).2))
  have hjobs := hc.jobs
  rw [hall] at hjobs
  exact Workers.grows_of_jobs hw hc.reached.sound.tallies hjobs

/-- What a map returns, however many of its jobs panic. -/
theorem gather_map (f : α → Option β) (xs : List α) :
    ((xs.countP fun x => (f x).isNone) = 0 →
      ∃ ys, Workers.gather (xs.map f) = .ok ys ∧ ys.map some = xs.map f) ∧
    (0 < (xs.countP fun x => (f x).isNone) →
      Workers.gather (xs.map f) = .error (.jobsPanicked (xs.countP fun x => (f x).isNone))) := by
  have hmissing : (xs.map f).countP (·.isNone) = xs.countP fun x => (f x).isNone := List.countP_map
  rw [Workers.gather, hmissing]
  refine ⟨fun hnone => ⟨(xs.map f).filterMap id, if_pos hnone, ?_⟩, fun hsome => ?_⟩
  · rw [List.map_filterMap_some_eq_filter_map_isSome, List.map_id]
    refine List.filter_eq_self.2 fun y hy => ?_
    rw [← hmissing, List.countP_eq_zero] at hnone
    simpa [Option.ne_none_iff_isSome] using hnone y hy
  · exact if_neg (Nat.ne_of_gt hsome)

/-- However the threads are scheduled, and in whatever order results arrive, a map over an open pool
returns. It returns the values of the function in the order of the items, or else the number of jobs
that panicked, as it does when the threads move only while the caller waits. By then the pool has
counted every job of the map, or counts it when it ends; it keeps its threads and takes jobs as
before. -/
theorem map_schedule_free (f : α → Option β) (xs : List α) (hw : w.Reached)
    (hopen : w.isOpen = true) :
    let panics := xs.countP fun x => (f x).isNone
    (∃ r, Returns f (start xs w) r ∧ (Workers.mapOrdered f xs w).2 = r ∧
      (panics = 0 → ∃ ys, r = .ok ys ∧ ys.map some = xs.map f) ∧
      (0 < panics → r = .error (.jobsPanicked panics))) ∧
    w.Grows (Workers.mapOrdered f xs w).1 (xs.length - panics) panics ∧
    ∀ c, Relation.ReflTransGen (Step f) (start xs w) c → c.result.isSome = true →
      (c.pool.pending ≠ [] → ∃ d, c.Step f d) ∧
      w.Grows c.pool (xs.length - panics) panics ∧
      c.pool.Reached ∧ c.pool.isOpen = true ∧ c.pool.threads = w.threads := by
  intro panics
  obtain ⟨v, hmap, haccepts⟩ := Workers.mapOrdered_eq f xs (hw.takes hopen)
  obtain ⟨hvalues, hpanics⟩ := gather_map f xs
  refine ⟨⟨_, returns f xs hw hopen, congrArg Prod.snd hmap, hvalues, hpanics⟩, ?_, ?_⟩
  · rw [hmap]
    have htallies := hw.sound.tallies
    refine Workers.grows_of_jobs htallies (haccepts.tallies htallies).drain (.of_eq ?_)
    rw [Workers.jobs_drain, haccepts.jobs_eq, List.map_append]
    exact congrArg _ (List.ext_getElem? fun i => by simp [Function.comp_def])
  · intro c hc hreturned
    have hinv := (inv_start f xs hw hopen).reaches hc
    exact ⟨fun hleft => hinv.exists_step (.inr hleft), hinv.grows hw.sound.tallies hreturned,
      hinv.reached,
      hinv.isOpen, hinv.threads_eq⟩

/-- Of three jobs on two threads the second one panics. -/
theorem map_schedule_free_demo :
    let f : Nat → Option Nat := fun x => if x = 2 then none else some (x * x)
    let w : Workers := .ofCount (Workers.countFor 2 4)
    (∃ r, Returns f (start [1, 2, 3] w) r ∧ r = .error (.jobsPanicked 1)) ∧
    ∀ c, Relation.ReflTransGen (Step f) (start [1, 2, 3] w) c → c.result.isSome = true →
      c.pool.pending = [] → c.pool.completed = 2 ∧ c.pool.panicked = 1 := by
  intro f w
  obtain ⟨⟨r, hreturns, -, -, hr⟩, -, h⟩ :=
    map_schedule_free f [1, 2, 3] (.ofCount 2 4 : w.Reached) rfl
  refine ⟨⟨r, hreturns, hr (by decide)⟩, fun c hc hreturned hidle => ?_⟩
  obtain ⟨-, ⟨hcompleted, hpanicked⟩, -⟩ := h c hc hreturned
  rw [hidle] at hcompleted hpanicked
  exact ⟨hcompleted, hpanicked⟩

end Mapping

end RenderStream
