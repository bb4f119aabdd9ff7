import RenderStream.Proofs.Stage

/-!
# What is on its way to a stage

However long an item waits, in the end the stage has served it behind those that were handed over
before. `Outlet.LeadsTo` says this of every moment: once all that is on its way has been served, the
stage is the given one. Moves of the thread keep it, handing over keeps it, and when the thread has
ended nothing is on its way any more.

A thread is never stuck for long: it moves whenever there is something to do (`Lane.exists_act`),
and each of its moves is paid for by an item or by its end (`Lane.work_act`).
-/

namespace RenderStream

namespace Lane

variable {ι σ : Type} [Sink ι σ] {l l' : Lane ι σ}

/-- What was handed over and not served yet, oldest first. -/
def pending (l : Lane ι σ) : List ι := l.hand.toList ++ l.queue.items

/-- A thread ends when its stage is down, and takes nothing with it. -/
structure Sound (l : Lane ι σ) : Prop where
  stage : l.stage.Sound
  hand : l.isGone = true → l.hand = none
  down : l.isGone = true → l.stage.isUp = false

/-- The moves of a thread. -/
inductive Act (l : Lane ι σ) : Lane ι σ → Prop where
  | serve {item : ι} (hand : l.hand = some item) :
      Act l { l with hand := none, stage := l.stage.serve item }
  | exitDown (hand : l.hand = none) (here : l.isGone = false) (down : l.stage.isUp = false) :
      Act l l.exit
  | exitEnded (hand : l.hand = none) (here : l.isGone = false) (items : l.queue.items = [])
      (producers : l.queue.producers = 0) : Act l l.exit
  | take {item : ι} {rest : List ι} (hand : l.hand = none) (here : l.isGone = false)
      (up : l.stage.isUp = true) (items : l.queue.items = item :: rest) :
      Act l { l with hand := some item, queue := { l.queue with items := rest } }

/-- Every act of a stage is one of those that are told apart. -/
theorem act_cases (h : l.act = some l') : l.Act l' := by
  rw [act] at h
  split at h
  · next item hand => exact Option.some.inj h ▸ .serve hand
  · next hand =>
    split at h
    · exact absurd h nofun
    · next here =>
      rw [Bool.not_eq_true] at here
      split at h
      · next down => exact Option.some.inj h ▸ .exitDown hand here (by simpa using down)
      · next up =>
        split at h
        · next item queue hpop =>
          obtain ⟨items, hqueue⟩ := Queue.pop?_eq_some.1 hpop
          rw [← Option.some.inj h, hqueue]
          exact .take hand here (by simpa using up) items
        · next hpop =>
          split at h
          · next ended =>
            rw [Queue.isEnded, Bool.and_eq_true, beq_iff_eq] at ended
            exact Option.some.inj h ▸ .exitEnded hand here (Queue.pop?_eq_none.1 hpop) ended.2
          · exact absurd h nofun

/-- A thread that has not ended moves when it holds an item, when its stage is down, when an item
waits and when its producers have left. -/
theorem exists_act (here : l.isGone = false) (h : l.hand.isSome = true ∨ l.stage.isUp = false ∨
    l.queue.items ≠ [] ∨ l.queue.producers = 0) : ∃ l', l.act = some l' := by
  rw [act]
  split
  · exact ⟨_, rfl⟩
  · next hand =>
    rw [if_neg (by simp [here])]
    split
    · exact ⟨_, rfl⟩
    · next up =>
      split
      · exact ⟨_, rfl⟩
      · next hpop =>
        have hitems : l.queue.items = [] := Queue.pop?_eq_none.1 hpop
        have hproducers : l.queue.producers = 0 :=
          ((h.resolve_left (by simp [hand])).resolve_left (by simpa using up)).resolve_left
            (not_not_intro hitems)
        exact ⟨_, if_pos (by simp [Queue.isEnded, Queue.isEmpty, hitems, hproducers])⟩

/-- Behind a full queue there is a thread that moves. -/
theorem exists_act_of_full {item : ι} {queue : Queue ι}
    (h : l.queue.offer item = (queue, .full)) : ∃ l', l.act = some l' := by
  obtain ⟨hconsumer, hitems⟩ := Queue.offer_eq_full h
  exact exists_act (by simp [isGone, hconsumer]) (.inr (.inr (.inl hitems)))

/-- Moves that a thread has left if nothing more is handed over. -/
def work (l : Lane ι σ) : Nat :=
  2 * l.queue.items.length + l.hand.toList.length + l.queue.consumer.toNat

/-- Every act of a stage leaves it less work. -/
theorem work_act (h : l.act = some l') : l'.work < l.work := by
  cases act_cases h with
  | serve hand => simp [work, hand]
  | exitDown hand here | exitEnded hand here =>
    have hconsumer : l.queue.consumer = true := by simpa [isGone] using here
    simp [work, exit, Queue.abandon, hconsumer]
  | take hand _ _ items =>
    simp only [work, hand, items, List.length_cons, Option.toList_some, Option.toList_none,
      List.length_nil]
    omega

/-- A stage does not let go of the queue for its producer. -/
theorem producers_act (h : l.act = some l') : l'.queue.producers = l.queue.producers := by
  cases act_cases h <;> rfl

/-- A sound lane stays so when its stage acts. -/
theorem Sound.act (hl : l.Sound) (h : l.act = some l') : l'.Sound := by
  cases act_cases h with
  | serve hand =>
    refine ⟨hl.stage.serve _, fun _ => rfl, fun hgone => ?_⟩
    rw [hl.hand hgone] at hand
    exact absurd hand nofun
  | exitDown hand | exitEnded hand =>
    exact ⟨.finish _, fun _ => hand, fun _ => Stage.isUp_finish _⟩
  | take _ here =>
    exact ⟨hl.stage, fun hgone => absurd (here.symm.trans hgone) Bool.false_ne_true,
      fun hgone => hl.down hgone⟩

/-- While there is a producer, a move of the thread changes nothing of what comes out. -/
theorem foldl_act (hl : l.Sound) (h : l.act = some l') (hp : l.queue.producers ≠ 0)
    (offered : List ι) :
    (l'.pending ++ offered).foldl Stage.serve l'.stage =
      (l.pending ++ offered).foldl Stage.serve l.stage := by
  cases act_cases h with
  | serve hand => simp [pending, hand]
  | exitDown hand _ down => rw [exit, hl.stage.finish_eq down]; rfl
  | exitEnded _ _ _ producers => exact absurd producers hp
  | take hand _ _ items => simp [pending, hand, items]

/-- What is pending comes to the same when the stage acts. -/
theorem finish_foldl_act (hl : l.Sound) (h : l.act = some l') :
    (l'.pending.foldl Stage.serve l'.stage).finish =
      (l.pending.foldl Stage.serve l.stage).finish := by
  cases act_cases h with
  | serve hand => simp [pending, hand]
  | exitDown hand _ down => rw [exit, hl.stage.finish_eq down]; rfl
  | exitEnded hand _ items => simp [pending, exit, hand, items, Queue.abandon]
  | take hand _ _ items => simp [pending, hand, items]

end Lane

namespace Outlet

variable {ι σ : Type} [Sink ι σ] {o o' : Outlet ι σ} {l : Lane ι σ} {s y : Stage σ}
  {door : Option (List ι)} {item : ι}

/-- Whether the thread of a stage has ended, if it has one. -/
def isGone : Outlet ι σ → Bool
  | .direct _ => true
  | .queued l => l.isGone

/-- The producer leaves. -/
def hangUp : Outlet ι σ → Outlet ι σ
  | .direct s => .direct s.finish
  | .queued l => .queued { l with queue := l.queue.close }

/-- Moves that the thread of a stage has left if nothing more is handed over. -/
def work : Outlet ι σ → Nat
  | .direct _ => 0
  | .queued l => l.work

/-- Every act of a stage leaves it less work. -/
theorem work_act (hact : o.act = some o') : o'.work < o.work := by
  cases o with
  | direct => exact absurd hact nofun
  | queued l =>
    obtain ⟨l', hl', rfl⟩ := Option.map_eq_some_iff.1 hact
    exact Lane.work_act hl'

/-- Hanging up leaves the stage its work. -/
theorem work_hangUp (o : Outlet ι σ) : o.hangUp.work = o.work := by cases o <;> rfl

/-- A stage that is gone stays so. -/
theorem isGone_act (hact : o.act = some o') (hgone : o.isGone = true) : o'.isGone = true := by
  cases o with
  | direct => exact absurd hact nofun
  | queued l =>
    obtain ⟨l', hl', rfl⟩ := Option.map_eq_some_iff.1 hact
    cases Lane.act_cases hl' with
    | serve => exact hgone
    | exitDown | exitEnded => rfl
    | take => exact hgone

/-- A stage stays on its own thread. -/
theorem isQueued_act (hact : o.act = some o') : o'.isQueued = o.isQueued := by
  cases o with
  | direct => exact absurd hact nofun
  | queued l =>
    obtain ⟨l', -, rfl⟩ := Option.map_eq_some_iff.1 hact
    rfl

/-- Once all that is on its way has been served, the stage is `y`. On its way is, last of all, what
the producer still offers; there is no producer any more when the door is closed, and then the stage
is finished as well. -/
inductive LeadsTo : Outlet ι σ → Option (List ι) → Stage σ → Prop where
  | direct {y : Stage σ} : LeadsTo (.direct y) (some []) y
  | finished {y : Stage σ} : LeadsTo (.direct y.finish) none y
  | queued {l : Lane ι σ} {offered : List ι} {y : Stage σ} (sound : l.Sound)
      (producers : l.queue.producers = 1)
      (outcome : (l.pending ++ offered).foldl Stage.serve l.stage = y) :
      LeadsTo (.queued l) (some offered) y
  | closed {l : Lane ι σ} {y : Stage σ} (sound : l.Sound) (producers : l.queue.producers = 0)
      (outcome : (l.pending.foldl Stage.serve l.stage).finish = y.finish) :
      LeadsTo (.queued l) none y

/-- At the start nothing was offered. -/
theorem leadsTo_start (threaded : Bool) (depth : Nat) (sink : σ) :
    (Outlet.start threaded depth sink : Outlet ι σ).LeadsTo (some []) { sink } := by
  cases threaded with
  | false => exact .direct
  | true => exact .queued ⟨.inl rfl, fun _ => rfl, nofun⟩ rfl rfl

/-- When the stage acts, what was offered leads to the same. -/
theorem LeadsTo.act (h : o.LeadsTo door y) (hact : o.act = some o') : o'.LeadsTo door y := by
  cases h with
  | direct | finished => exact absurd hact nofun
  | queued sound producers outcome =>
    obtain ⟨l', hl', rfl⟩ := Option.map_eq_some_iff.1 hact
    exact .queued (sound.act hl') ((Lane.producers_act hl').trans producers)
      ((Lane.foldl_act sound hl' (by simp [producers]) _).trans outcome)
  | closed sound producers outcome =>
    obtain ⟨l', hl', rfl⟩ := Option.map_eq_some_iff.1 hact
    exact .closed (sound.act hl') ((Lane.producers_act hl').trans producers)
      ((Lane.finish_foldl_act sound hl').trans outcome)

/-- A stage without a thread of its own serves an item at once. -/
theorem LeadsTo.serve (h : (Outlet.direct s : Outlet ι σ).LeadsTo (some []) y) (item : ι) :
    (Outlet.direct (s.serve item)).LeadsTo (some []) (y.serve item) := by
  cases h
  exact .direct

/-- An item that is offered is served at last. -/
theorem LeadsTo.offer (h : (Outlet.queued l).LeadsTo (some []) y) (item : ι) :
    (Outlet.queued l).LeadsTo (some [item]) (y.serve item) := by
  cases h with
  | queued sound producers outcome =>
    rw [List.append_nil] at outcome
    refine .queued sound producers ?_
    rw [List.foldl_append, outcome]
    rfl

/-- An item that got into the queue is on its way as before. -/
theorem LeadsTo.taken {queue : Queue ι} (h : (Outlet.queued l).LeadsTo (some [item]) y)
    (hoffer : l.queue.offer item = (queue, .taken)) :
    (Outlet.queued { l with queue }).LeadsTo (some []) y := by
  cases h with
  | queued sound producers outcome =>
    obtain ⟨-, -, hqueue⟩ := Queue.offer_eq_taken hoffer
    have hgone : Lane.isGone { l with queue } = l.isGone := by rw [hqueue]; rfl
    refine .queued ⟨sound.stage, fun h => sound.hand (hgone ▸ h), fun h => sound.down (hgone ▸ h)⟩
      (hqueue ▸ producers) ?_
    rw [List.append_nil, ← outcome, Lane.pending, Lane.pending, List.append_assoc, hqueue]

/-- A thread that has ended makes nothing of what is offered. -/
theorem LeadsTo.eq_of_gone {offered : List ι} (h : (Outlet.queued l).LeadsTo (some offered) y)
    (hgone : l.isGone = true) : y = l.stage := by
  cases h with
  | queued sound _ outcome => rw [← outcome, Stage.foldl_serve_of_down (sound.down hgone)]

/-- A stage that is gone while items may still come went down. -/
theorem LeadsTo.isUp_of_gone {offered : List ι} (h : (Outlet.queued l).LeadsTo (some offered) y)
    (hgone : l.isGone = true) : y.isUp = false := by
  rw [h.eq_of_gone hgone]
  cases h with
  | queued sound => exact sound.down hgone

/-- An item that a stage refuses once it is gone makes no difference. -/
theorem LeadsTo.refused (h : (Outlet.queued l).LeadsTo (some [item]) y) (hgone : l.isGone = true) :
    (Outlet.queued l).LeadsTo (some []) y := by
  have hy := h.eq_of_gone hgone
  cases h with
  | queued sound producers =>
    exact .queued sound producers (by rw [hy, Stage.foldl_serve_of_down (sound.down hgone)])

/-- Behind the last item nothing more is offered. -/
theorem LeadsTo.hangUp (h : o.LeadsTo (some []) y) : o.hangUp.LeadsTo none y := by
  cases h with
  | direct => exact .finished
  | queued sound producers outcome =>
    rw [List.append_nil] at outcome
    exact .closed ⟨sound.stage, sound.hand, sound.down⟩ rfl (congrArg Stage.finish outcome)

/-- Without a producer a thread goes on until it has ended. -/
theorem LeadsTo.exists_act (h : o.LeadsTo none y) (hgone : o.isGone = false) :
    ∃ o', o.act = some o' := by
  cases h with
  | finished => exact absurd hgone nofun
  | closed _ producers =>
    obtain ⟨l', hl'⟩ := Lane.exists_act hgone (.inr (.inr (.inr producers)))
    exact ⟨.queued l', congrArg (Option.map Outlet.queued) hl'⟩

/-- A thread that has ended does not move any more. -/
theorem LeadsTo.not_act_of_gone (h : o.LeadsTo door y) (hgone : o.isGone = true) :
    o.act ≠ some o' := by
  have hlane {l : Lane ι σ} (sound : l.Sound) (hgone : l.isGone = true) : l.act = none := by
    rw [Lane.act, sound.hand hgone, if_pos hgone]
  cases h with
  | direct | finished => nofun
  | queued sound | closed sound => simp [Outlet.act, hlane sound hgone]

/-- When the thread has ended everything has been served. -/
theorem LeadsTo.stage_of_gone (h : o.LeadsTo none y) (hgone : o.isGone = true) :
    o.stage = y.finish := by
  cases h with
  | finished => rfl
  | closed sound _ outcome =>
    have hdown := sound.down hgone
    rw [← outcome, Stage.foldl_serve_of_down hdown, sound.stage.finish_eq hdown]
    rfl

/-- A lane that is closed serves what is pending and is finished. -/
theorem Lane.close_stage (l : Lane ι σ) :
    l.close.stage = (l.pending.foldl Stage.serve l.stage).finish := by
  rw [← Stage.serveAll_fst]
  rfl

/-- Shutdown comes to the same, at whichever moment after the last call it is done. -/
theorem LeadsTo.close_stage (h : o.LeadsTo door y) (hdoor : door = some [] ∨ door = none) :
    o.close.stage = y.finish := by
  cases h with
  | direct => rfl
  | finished => exact y.finish_finish
  | queued _ _ outcome =>
    obtain hdoor | hdoor := hdoor
    · rw [Option.some.inj hdoor, List.append_nil] at outcome
      exact (Lane.close_stage _).trans (congrArg Stage.finish outcome)
    · exact absurd hdoor nofun
  | closed _ _ outcome => exact (Lane.close_stage _).trans outcome

end Outlet

end RenderStream
