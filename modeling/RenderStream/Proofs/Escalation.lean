import Mathlib.Data.Bool.Count
import Mathlib.Data.List.DropRight
import RenderStream.Proofs.Ending

/-!
# Failures escalate

Where a call to the host fails, the frame makes no further call but the one that gives it up. So the
calls of a frame are batches that were taken, then at most one failure, then the present or the
discard that ends the frame (`Trail`, `feed_calls`), wherever in the frame the failure strikes. What
becomes of the counts is decided by whether there was a failure (`Reckons`), and along a run that
was never stopped the count of failures is the length of the run of losses at its end (`Reckoned`).
-/

namespace RenderStream

open Attempt

/-! ## Trails of calls -/

/-- How a call failed, if it did. Giving a frame up cannot fail. -/
def HostCall.failure? : HostCall → Option HostError
  | .submit _ e => e
  | .present e => e
  | .discard => none

/-- The call that ends a frame. -/
def HostCall.ending : Option HostError → HostCall
  | none => .present none
  | some _ => .discard

/-- Batches that were taken, and behind them at most one call, one that failed. -/
inductive Trail : List HostCall → Option HostError → Prop
  | nil : Trail [] none
  | taken (batch : List Command) {cs : List HostCall} {f : Option HostError} (rest : Trail cs f) :
    Trail (.submit batch none :: cs) f
  | failed {c : HostCall} {e : HostError} (hc : c.failure? = some e) : Trail [c] (some e)

namespace Trail

variable {cs ds : List HostCall} {f : Option HostError}

/-- A trail without a failure goes on with another one. -/
theorem append (h : Trail cs none) (hd : Trail ds f) : Trail (cs ++ ds) f := by
  generalize hnone : (none : Option HostError) = g at h
  induction h with
  | nil => exact hd
  | taken batch _ ih => exact .taken batch (ih hnone)
  | failed => cases hnone

/-- A trail tells how it failed. -/
theorem failures (h : Trail cs f) : cs.filterMap HostCall.failure? = f.toList := by
  induction h with
  | nil => rfl
  | taken batch _ ih =>
    rw [List.filterMap_cons_none rfl]
    exact ih
  | failed hc =>
    rw [List.filterMap_cons_some hc]
    rfl

/-- No frame ends on a trail. -/
theorem not_ending (h : Trail cs f) (g : Option HostError) : HostCall.ending g ∉ cs := by
  induction h with
  | nil => exact List.not_mem_nil
  | taken batch _ ih =>
    refine fun hmem => ih ((List.mem_cons.1 hmem).resolve_left ?_)
    cases g <;> exact nofun
  | failed hc =>
    intro hmem
    rw [← List.mem_singleton.1 hmem] at hc
    cases g <;> cases hc

end Trail

/-! ## What is told to the host -/

section
variable {α σ : Type} {calls : σ → List HostCall} {s t : σ} {r : Attempt HostError σ}

/-- What an attempt that began in `s` adds to the calls is a trail that fails like the attempt. -/
def Told (calls : σ → List HostCall) (s : σ) (r : Attempt HostError σ) : Prop :=
  ∃ cs, calls r.state = calls s ++ cs ∧ Trail cs r.failure

/-- A step without a call adds nothing and does not fail. -/
theorem told_none (h : calls t = calls s) : Told calls s ⟨t, none⟩ :=
  ⟨[], by rw [h, List.append_nil], .nil⟩

/-- Only the calls count of where an attempt began. -/
theorem Told.from (h : Told calls s r) (hs : calls s = calls t) : Told calls t r := by
  rwa [Told, ← hs]

/-- What comes behind a success goes on with its trail. -/
theorem Told.trans (h : Told calls s ⟨t, none⟩) (hr : Told calls t r) : Told calls s r := by
  obtain ⟨cs, hcs, htrail⟩ := h
  obtain ⟨ds, hds, hrest⟩ := hr
  exact ⟨cs ++ ds, by rw [hds, hcs, List.append_assoc], htrail.append hrest⟩

/-- Two steps in a row tell of themselves when each does. -/
theorem Told.andThen {next : σ → Attempt HostError σ} (h : Told calls s r)
    (hnext : ∀ t, Told calls t (next t)) : Told calls s (r.andThen next) := by
  obtain ⟨t, _ | e⟩ := r
  · exact h.trans (hnext t)
  · exact h

variable {step : σ → α → Attempt HostError σ} {note : σ → α → σ}

/-- Behind a failure elements are only noted, and nothing more is told. -/
theorem Told.andEach (hstep : ∀ s a, Told calls s (step s a))
    (hnote : ∀ s a, calls (note s a) = calls s) (as : List α) :
    ∀ {s : σ} {r : Attempt HostError σ}, Told calls s r →
      Told calls s (r.andEach step note as) := by
  induction as with
  | nil =>
    intro s r h
    obtain ⟨t, _ | e⟩ := r
    · exact h
    · exact h
  | cons a as ih =>
    intro s r h
    obtain ⟨t, _ | e⟩ := r
    · have hrest : Told calls t (each step note t (a :: as)) := by
        rw [each_cons]
        exact ih (hstep t a)
      exact h.trans hrest
    · obtain ⟨cs, hcs, htrail⟩ := h
      refine ⟨cs, Eq.trans ?_ hcs, htrail⟩
      exact foldl_keeps (P := fun _ u => calls u = calls t)
        (fun a _ u hu => (hnote u a).trans hu) (a :: as) t rfl

/-- Steps over a list tell of themselves when each does and what is noted makes no call. -/
theorem told_each (hstep : ∀ s a, Told calls s (step s a))
    (hnote : ∀ s a, calls (note s a) = calls s) (as : List α) (s : σ) :
    Told calls s (each step note s as) :=
  Told.andEach hstep hnote as (told_none rfl : Told calls s ⟨s, none⟩)

end

namespace Batch

/-- The calls that reached the host behind a buffer. -/
def calls (b : Batch Scripted) : List HostCall := b.host.calls

variable (b : Batch Scripted)

/-- A flush tells of itself: it hands one batch over, or none. -/
theorem told_flush : Told calls b b.flush := by
  rw [flush]
  split
  · exact told_none rfl
  · obtain ⟨h, f, hsubmit, hcalls⟩ : ∃ h f, Host.submit b.buffer.toList b.host = ⟨h, f⟩ ∧
        h.calls = b.calls ++ [.submit b.buffer.toList f] := ⟨_, _, rfl, rfl⟩
    rw [hsubmit]
    cases f with
    | none => exact ⟨_, hcalls, .taken _ .nil⟩
    | some e => exact ⟨_, hcalls, .failed rfl⟩

/-- A forced flush tells of itself. -/
theorem told_force : Told calls b b.force := told_flush { b with counts := _ }

/-- The flush before a command tells of itself. -/
theorem told_opening (c : Command) : Told calls b (b.opening c) := by
  rw [opening]
  split
  · exact b.told_force
  · exact told_none rfl

/-- Making room tells of itself. -/
theorem told_makeRoom : Told calls b b.makeRoom := by
  rw [makeRoom]
  split
  · exact told_flush { b with counts := _ }
  · exact told_none rfl

/-- The flush behind a barrier tells of itself. -/
theorem told_append (c : Command) : Told calls b (b.append c) := by
  rw [append]
  split
  · exact told_force { b with buffer := b.buffer.push c }
  · exact told_none rfl

/-- Accepting a command tells of itself. -/
theorem told_accept (c : Command) : Told calls b (b.accept c) :=
  ((b.told_opening c).andThen told_makeRoom).andThen fun b => b.told_append c

/-- A present that succeeds is the one call that is not on the trail. -/
theorem present_calls : ∃ cs, Trail cs b.present.failure ∧ b.present.state.calls =
    b.calls ++ (cs ++ if b.present.failure = none then [.present none] else []) := by
  have hflush := b.told_flush
  rw [present]
  generalize b.flush = r at hflush ⊢
  obtain ⟨b', _ | e⟩ := r
  · obtain ⟨cs, hcs, htrail⟩ := hflush
    obtain ⟨h, f, hpresent, hcalls⟩ : ∃ h f, Host.present b'.host = ⟨h, f⟩ ∧
        h.calls = b'.calls ++ [.present f] := ⟨_, _, rfl, rfl⟩
    change b'.calls = b.calls ++ cs at hcs
    rw [andThen_ok, hpresent]
    rw [hcs, List.append_assoc] at hcalls
    cases f with
    | none => exact ⟨cs, htrail, hcalls⟩
    | some e =>
      refine ⟨cs ++ [.present (some e)], htrail.append (.failed rfl), ?_⟩
      rw [if_neg nofun, List.append_nil]
      exact hcalls
  · obtain ⟨cs, hcs, htrail⟩ := hflush
    exact ⟨cs, htrail, by simpa using hcs⟩

end Batch

namespace Pipeline

/-- The calls that reached the host behind a pipeline. -/
def calls (p : Pipeline Scripted) : List HostCall := p.batch.calls

variable (p : Pipeline Scripted)

/-- What is noted of a command makes no call. -/
theorem calls_note (c : Command) : (p.note c).calls = p.calls := by
  cases c <;> rfl

/-- What is noted of an item makes no call. -/
theorem calls_noteItem (i : Item) : (p.noteItem i).calls = p.calls := by
  cases i with
  | command c => exact p.calls_note c
  | list call =>
    exact foldl_keeps (P := fun _ q => q.calls = p.calls)
      (fun c _ q hq => (q.calls_note c).trans hq) call.commands p rfl
  | invalidate scope => rfl

/-- Sending a command tells of itself. -/
theorem told_send (c : Command) : Told calls p (p.send c) := p.batch.told_accept c

/-- A state write tells of itself, suppressed or not. -/
theorem told_write (s : Slot) (v : SlotValue) : Told calls p (p.write s v) := by
  rw [write_eq]
  split
  · exact told_send (p.wrote s v) _
  · exact told_none rfl

/-- A command tells of itself. -/
theorem told_execute (c : Command) : Told calls p (p.execute c) := by
  cases c with
  | set s v => exact p.told_write s v
  | draw x =>
    rw [execute, draw_eq]
    split
    · exact (told_send _ _).from rfl
    · exact told_none rfl
  | clear | barrier => exact p.told_send _

/-- A compiled list tells of itself. -/
theorem told_replay (l : CompiledList) : Told calls p (p.replay l) := by
  have hcommand : ∀ (q : Pipeline Scripted) c, Told calls q (q.replayCommand c) := by
    intro q c
    cases c with
    | set s v => exact q.told_write s v
    | draw | clear | barrier => exact q.told_send _
  rw [replay_eq]
  exact (told_each hcommand calls_note l.commands (p.tallied l)).from rfl

/-- An item of a frame tells of itself. -/
theorem told_item (i : Item) : Told calls p (p.item i) := by
  cases i with
  | command c => exact p.told_execute c
  | list call =>
    have hcompiled : (p.compiled call).1.calls = p.calls := by
      rw [compiled]
      split <;> rfl
    exact (told_replay _ _).from hcompiled
  | invalidate scope => exact told_none rfl

/-- Setting the host's state anew tells of itself. -/
theorem told_restore : Told calls p p.restore := by
  rw [restore_eq]
  split
  · exact (told_each (fun q c => q.told_send c) (fun _ _ => rfl) _ p.restored).from rfl
  · exact told_none rfl

/-- The items of a frame tell of themselves. -/
theorem told_items (is : List Item) : Told calls p (p.items is) :=
  Told.andEach (fun q i => q.told_item i) calls_noteItem is p.told_restore

/-- The calls of an attempt are a trail, and one that presents when nothing failed. -/
theorem attempt_calls (frame : Frame) : ∃ cs, Trail cs (p.attempt frame).failure ∧
    (p.attempt frame).state.calls =
      p.calls ++ (cs ++ if (p.attempt frame).failure = none then [.present none] else []) := by
  have hitems := told_items { p with ordinal := 0 } frame.items
  rw [attempt]
  generalize ({ p with ordinal := 0 } : Pipeline Scripted).items frame.items = r at hitems ⊢
  obtain ⟨q, _ | e⟩ := r
  · obtain ⟨cs, hcs, htrail⟩ := hitems
    obtain ⟨ds, hds, hpresent⟩ := q.batch.present_calls
    refine ⟨cs ++ ds, htrail.append hds, ?_⟩
    have hstart : q.batch.calls = p.calls ++ cs := hcs
    rw [List.append_assoc, ← List.append_assoc, ← hstart]
    exact hpresent
  · obtain ⟨cs, hcs, htrail⟩ := hitems
    refine ⟨cs, htrail, ?_⟩
    rw [andThen_failed, if_neg (Option.some_ne_none e), List.append_nil]
    exact hcs

/-- All that a frame tells the host: a trail, and the call that ends the frame. -/
theorem feed_calls (a : Arrival) : ∃ cs, Trail cs (p.attempt a.frame).failure ∧
    (p.feed a).state.calls =
      p.calls ++ (cs ++ [HostCall.ending (p.attempt a.frame).failure]) := by
  obtain ⟨cs, htrail, hcalls⟩ := p.attempt_calls a.frame
  refine ⟨cs, htrail, ?_⟩
  have hending := p.feed_ending a
  generalize p.feed a = r at hending ⊢
  cases hending with
  | presented q _ hattempt =>
    rw [hattempt] at hcalls ⊢
    exact hcalls
  | dropped q e _ hattempt _ | fatal q e _ hattempt _ =>
    rw [hattempt] at hcalls ⊢
    have hq : q.calls = p.calls ++ cs := by simpa using hcalls
    have hdiscard : q.dropFrame.calls = q.calls ++ [.discard] := rfl
    exact hdiscard.trans (by rw [hq, List.append_assoc]; rfl)

/-! ## One frame -/

/-- The calls that a frame makes. -/
def frameCalls (a : Arrival) : List HostCall := (p.feed a).state.calls.drop p.calls.length

/-- How calls fail in a frame. -/
def frameFailures (a : Arrival) : List HostError := (p.frameCalls a).filterMap HostCall.failure?

/-- Whether some call fails in a frame. -/
def loses (a : Arrival) : Bool := !(p.frameFailures a).isEmpty

/-- The calls of a frame are the trail of its attempt and the call that ends it. -/
theorem frameCalls_eq (a : Arrival) : ∃ cs, Trail cs (p.attempt a.frame).failure ∧
    p.frameCalls a = cs ++ [HostCall.ending (p.attempt a.frame).failure] := by
  obtain ⟨cs, htrail, hcalls⟩ := p.feed_calls a
  exact ⟨cs, htrail, by rw [frameCalls, hcalls, List.drop_left]⟩

/-- The attempt fails as the call does, and only then. -/
theorem frameFailures_eq (a : Arrival) :
    p.frameFailures a = (p.attempt a.frame).failure.toList := by
  obtain ⟨cs, htrail, hcalls⟩ := p.frameCalls_eq a
  have hending : (HostCall.ending (p.attempt a.frame).failure).failure? = none := by
    cases (p.attempt a.frame).failure <;> rw [HostCall.ending, HostCall.failure?]
  rw [frameFailures, hcalls, List.filterMap_append, htrail.failures,
    List.filterMap_cons_none hending, List.filterMap_nil, List.append_nil]

/-- A frame is lost just when its attempt fails. -/
theorem loses_eq (a : Arrival) : p.loses a = (p.attempt a.frame).failure.isSome := by
  rw [loses, frameFailures_eq]
  cases (p.attempt a.frame).failure <;> rfl

/-- How often the calls that end a frame are made. -/
theorem frameCalls_count (a : Arrival) :
    (p.frameCalls a).count .discard = (p.loses a).toNat ∧
      (p.frameCalls a).count (.present none) = (!p.loses a).toNat := by
  obtain ⟨cs, htrail, hcalls⟩ := p.frameCalls_eq a
  have hdiscard : cs.count .discard = 0 :=
    List.count_eq_zero.2 (htrail.not_ending (some .deviceLost))
  have hpresent : cs.count (.present none) = 0 := List.count_eq_zero.2 (htrail.not_ending none)
  rw [hcalls, List.count_append, List.count_append, hdiscard, hpresent, loses_eq]
  cases (p.attempt a.frame).failure <;> exact ⟨rfl, rfl⟩

/-- What a frame does to the counts of frames. -/
structure Reckons (a : Arrival) (r : Attempt PipelineError (Pipeline Scripted)) : Prop where
  dropped : r.state.dropped = p.dropped + (p.loses a).toNat
  presented : r.state.presented = p.presented + (!p.loses a).toNat
  failures : r.state.failures = if p.loses a then p.failures + 1 else 0
  limit : r.state.failureLimit = p.failureLimit
  failure : r.failure = if p.failureLimit ≤ p.failures + 1 then
    (p.frameFailures a).getLast?.map (.framesLost (p.failures + 1)) else none

variable {p} in
/-- A drop counts as a loss, whether the pipeline goes on behind it or stops. -/
theorem Reckons.of_drop {a : Arrival} {q : Pipeline Scripted}
    {r : Attempt PipelineError (Pipeline Scripted)} (hlost : p.loses a = true)
    (hledger : q.ledger = p.ledger) (hdropped : r.state.dropped = q.dropped + 1)
    (hpresented : r.state.presented = q.presented) (hfailures : r.state.failures = q.failures + 1)
    (hlimit : r.state.failureLimit = q.failureLimit)
    (hfailure : r.failure = if p.failureLimit ≤ p.failures + 1 then
      (p.frameFailures a).getLast?.map (.framesLost (p.failures + 1)) else none) :
    p.Reckons a r where
  dropped := by
    rw [hlost, hdropped]
    exact congrArg (·.dropped + 1) hledger
  presented := by
    rw [hlost, hpresented]
    exact congrArg Ledger.presented hledger
  failures := by
    rw [hlost, hfailures]
    exact congrArg (·.failures + 1) hledger
  limit := hlimit.trans (congrArg Ledger.failureLimit hledger)
  failure := hfailure

/-- Every frame is reckoned among the presented or the dropped ones. -/
theorem feed_reckons (a : Arrival) : p.Reckons a (p.feed a) := by
  have hlost := p.loses_eq a
  have hfailures := p.frameFailures_eq a
  have hledger : ∀ q : Pipeline Scripted, q.standing = p.standing → q.ledger = p.ledger :=
    fun q h => congrArg Prod.fst h
  have hending := p.feed_ending a
  generalize p.feed a = r at hending ⊢
  cases hending with
  | presented q hstanding hattempt =>
    rw [hattempt] at hlost hfailures
    obtain hq := hledger q hstanding
    refine ⟨?_, ?_, ?_, congrArg Ledger.failureLimit hq, ?_⟩
    · rw [hlost]
      exact congrArg Ledger.dropped hq
    · rw [hlost]
      exact congrArg (·.presented + 1) hq
    · rw [hlost]
      rfl
    · rw [hfailures]
      split <;> rfl
  | dropped q e hstanding hattempt hlimit =>
    rw [hattempt] at hlost hfailures
    refine .of_drop hlost (hledger q hstanding) rfl rfl rfl rfl ?_
    rw [if_neg hlimit]
  | fatal q e hstanding hattempt hlimit =>
    rw [hattempt] at hlost hfailures
    refine .of_drop hlost (hledger q hstanding) rfl rfl rfl rfl ?_
    rw [if_pos hlimit, hfailures]
    rfl

/-- The calls behind a frame are those before it and its own. -/
theorem calls_feed (a : Arrival) : (p.feed a).state.calls = p.calls ++ p.frameCalls a := by
  obtain ⟨cs, -, hcalls⟩ := p.feed_calls a
  rw [frameCalls, hcalls, List.drop_left]

/-! ## Runs -/

/-- Which frames of a sequence are lost. -/
def losses (p : Pipeline Scripted) : List Arrival → List Bool
  | [] => []
  | a :: as => p.loses a :: (p.feed a).state.losses as

/-- The last frame of a sequence is lost or not behind the run of those before it. -/
theorem losses_concat (as : List Arrival) (a : Arrival) : ∀ p : Pipeline Scripted,
    p.losses (as ++ [a]) = p.losses as ++ [(p.run as).loses a] := by
  induction as with
  | nil => exact fun p => rfl
  | cons b as ih =>
    intro p
    rw [List.cons_append, losses, ih, losses, List.cons_append]
    rfl

/-- Every frame of a sequence is lost or not. -/
theorem length_losses (as : List Arrival) : ∀ p : Pipeline Scripted,
    (p.losses as).length = as.length := by
  induction as with
  | nil => exact fun p => rfl
  | cons a as ih =>
    intro p
    rw [losses, List.length_cons, ih, List.length_cons]

/-- How many frames were lost in a row at last. -/
def lossRun (past : List Bool) : Nat := (past.rtakeWhile id).length

/-- A frame that is lost makes the run of losses longer, and any other ends it. -/
theorem lossRun_concat (past : List Bool) (lost : Bool) :
    lossRun (past ++ [lost]) = if lost then lossRun past + 1 else 0 := by
  rw [lossRun, List.rtakeWhile_concat]
  cases lost with
  | false => rfl
  | true => exact List.length_append

/-- The counts of frames tell which frames were lost. -/
structure Reckoned (limit : UInt32) (past : List Bool) : Prop where
  limit_eq : p.failureLimit = limit
  failures : p.failures.toNat = lossRun past
  dropped : p.dropped = past.count true
  presented : p.presented = past.count false
  calls : p.calls.count (.present none) = past.count false

variable {p} {limit : UInt32} {past : List Bool}

/-- Below the limit one failure more can be counted. -/
theorem toNat_failures_succ (h : p.failures < p.failureLimit) :
    (p.failures + 1).toNat = p.failures.toNat + 1 := by
  have hsize : p.failureLimit.toNat < 2 ^ 32 := p.failureLimit.toNat_lt
  have hlt : p.failures.toNat < p.failureLimit.toNat := h
  rw [UInt32.toNat_add, UInt32.toNat_one]
  exact Nat.mod_eq_of_lt (by omega)

/-- As long as the limit is not reached, the counts go on telling which frames were lost. -/
theorem Reckoned.feed (h : p.Reckoned limit past) (hbelow : p.failures < p.failureLimit)
    (a : Arrival) : (p.feed a).state.Reckoned limit (past ++ [p.loses a]) := by
  obtain ⟨hdropped, hpresented, hfailures, hlimit, -⟩ := p.feed_reckons a
  refine ⟨hlimit.trans h.limit_eq, ?_, ?_, ?_, ?_⟩
  · rw [hfailures, lossRun_concat]
    cases p.loses a with
    | false => rfl
    | true => exact (toNat_failures_succ hbelow).trans (congrArg (· + 1) h.failures)
  · rw [hdropped, h.dropped, List.count_append]
    cases p.loses a <;> rfl
  · rw [hpresented, h.presented, List.count_append]
    cases p.loses a <;> rfl
  · rw [calls_feed, List.count_append, h.calls, (p.frameCalls_count a).2, List.count_append]
    cases p.loses a <;> rfl

/-- The pipeline stops where the losses in a row reach the limit. -/
theorem Reckoned.stops_iff (h : p.Reckoned limit past) (hbelow : p.failures < p.failureLimit)
    (a : Arrival) (err : PipelineError) :
    (p.feed a).failure = some err ↔ lossRun (past ++ [p.loses a]) = limit.toNat ∧
      ∃ e, (p.frameFailures a).getLast? = some e ∧
        err = .framesLost (.ofNat (lossRun (past ++ [p.loses a]))) e := by
  have hfailure := (p.feed_reckons a).failure
  rw [lossRun_concat, hfailure]
  cases hlast : (p.frameFailures a).getLast? with
  | none =>
    rw [Option.map_none, ite_self]
    exact ⟨nofun, fun ⟨_, _, he, _⟩ => nomatch he⟩
  | some e =>
    have hlost : p.loses a = true := by
      cases hnone : p.frameFailures a with
      | nil => simp [hnone] at hlast
      | cons => rw [loses, hnone]; rfl
    have hrow : (p.failures + 1).toNat = lossRun past + 1 :=
      (toNat_failures_succ hbelow).trans (congrArg (· + 1) h.failures)
    have hlimit : p.failureLimit ≤ p.failures + 1 ↔ lossRun past + 1 = limit.toNat := by
      have hlt : p.failures.toNat < p.failureLimit.toNat := hbelow
      rw [UInt32.le_iff_toNat_le, hrow, h.limit_eq]
      rw [h.failures, h.limit_eq] at hlt
      omega
    rw [if_pos hlost, ← hrow, UInt32.ofNat_toNat, hrow, ← hlimit]
    by_cases hle : p.failureLimit ≤ p.failures + 1
    · rw [if_pos hle, Option.map_some, Option.some_inj]
      exact ⟨fun herr => ⟨hle, e, rfl, herr.symm⟩,
        fun ⟨_, _, he, herr⟩ => by rw [herr, Option.some.inj he]⟩
    · rw [if_neg hle]
      exact ⟨nofun, fun ⟨h, _⟩ => absurd h hle⟩

/-- A frame that does not stop the pipeline leaves the count of failures below the limit. -/
theorem failures_lt (hbelow : p.failures < p.failureLimit) {a : Arrival}
    (hok : (p.feed a).failure = none) :
    (p.feed a).state.failures < (p.feed a).state.failureLimit := by
  obtain ⟨-, -, hfailures, hlimit, hfailure⟩ := p.feed_reckons a
  have hpos : 0 < p.failureLimit := Nat.lt_of_le_of_lt (Nat.zero_le _) hbelow
  rw [hfailures, hlimit]
  cases hlost : p.loses a with
  | false => exact hpos
  | true =>
    refine UInt32.not_le.1 fun hle => ?_
    rw [if_pos rfl] at hle
    rw [hok, if_pos hle, eq_comm, Option.map_eq_none_iff, List.getLast?_eq_none_iff] at hfailure
    rw [loses, hfailure] at hlost
    cases hlost

/-- As long as no frame stops the pipeline, the counts tell which frames were lost. -/
theorem Reckoned.run (as : List Arrival) : ∀ {p : Pipeline Scripted} {past : List Bool},
    p.Reckoned limit past → p.failures < p.failureLimit →
    (∀ o ∈ p.outcomes as, o.result = .ok ()) →
    (p.run as).Reckoned limit (past ++ p.losses as) ∧
      (p.run as).failures < (p.run as).failureLimit := by
  induction as with
  | nil =>
    intro p past h hbelow _
    exact ⟨by rwa [losses, List.append_nil], hbelow⟩
  | cons a as ih =>
    intro p past h hbelow hok
    obtain ⟨ha, hrest⟩ := List.forall_mem_cons.1 hok
    have hfeed := h.feed hbelow a
    obtain ⟨hrun, hrunBelow⟩ := ih hfeed (failures_lt hbelow (result_ok.1 ha)) hrest
    rw [List.append_assoc] at hrun
    exact ⟨hrun, hrunBelow⟩

/-- Settings in range let the pipeline start. -/
theorem failureLimit_pos (s : Settings) : 0 < s.repaired.batching.failureLimit := by
  change 0 < Settings.positive s.batching.failureLimit
  rw [Settings.positive]
  split
  · decide
  · next h => exact UInt32.pos_iff_ne_zero.2 h

/-- At the start no frame was lost. -/
theorem reckoned_start (s : Settings) (script : Script) :
    (start s script).Reckoned s.batching.failureLimit [] := ⟨rfl, rfl, rfl, rfl, rfl⟩

/-- Failures escalate exactly, as long as no frame comes behind one that stopped the pipeline. A
frame is dropped exactly when some call of the host fails in it; then it is given up once and not
presented, and otherwise it is presented once and not given up. The count of failures is the number
of frames lost in a row, and the pipeline stops exactly when that reaches the limit, with this count
and the last failure. Every frame is presented or dropped, and those presented are the presents that
the host carried out. -/
theorem losses_escalate (s : Settings) (script : Script) (before : List Arrival) (a : Arrival)
    (hok : ∀ o ∈ (start s.repaired script).outcomes before, o.result = .ok ()) :
    let p := (start s.repaired script).run before
    let q := (p.feed a).state
    let lost := p.loses a
    let row := lossRun ((start s.repaired script).losses (before ++ [a]))
    q.dropped = p.dropped + lost.toNat ∧
    (p.frameCalls a).count .discard = lost.toNat ∧
    (p.frameCalls a).count (.present none) = (!lost).toNat ∧
    q.failures.toNat = row ∧
    (∀ err, (p.feed a).failure = some err ↔ row = s.repaired.batching.failureLimit.toNat ∧
      ∃ e, (p.frameFailures a).getLast? = some e ∧ err = .framesLost (.ofNat row) e) ∧
    q.presented + q.dropped = (before ++ [a]).length ∧
    q.presented = q.calls.count (.present none) := by
  intro p q lost row
  have hstart := failureLimit_pos s
  obtain ⟨hp, hbelow⟩ := (reckoned_start s.repaired script).run before hstart hok
  have hq : q.Reckoned s.repaired.batching.failureLimit
      ((start s.repaired script).losses (before ++ [a])) := by
    rw [losses_concat]
    exact hp.feed hbelow a
  obtain ⟨hdiscards, hpresents⟩ := p.frameCalls_count a
  refine ⟨(p.feed_reckons a).dropped, hdiscards, hpresents, hq.failures, fun err => ?_, ?_, ?_⟩
  · have hstops := hp.stops_iff hbelow a err
    rwa [List.nil_append, ← losses_concat] at hstops
  · rw [hq.presented, hq.dropped, List.count_false_add_count_true, length_losses]
  · rw [hq.presented, hq.calls]

end Pipeline

namespace Demo

/-- Settings under which two frames lost in a row are one too many. -/
def strict : Settings := { batching := { batchCapacity := 2, failureLimit := 2 } }

/-- A host that takes nothing. -/
def lost : Script := { failure := fun _ => some .deviceLost }

end Demo

namespace Pipeline

set_option maxRecDepth 10000 in
/-- The second of two lost frames stops the pipeline. -/
theorem losses_escalate_demo :
    let p := (start Demo.strict.repaired Demo.lost).run [Demo.arrival 1 .white]
    (∀ o ∈ (start Demo.strict.repaired Demo.lost).outcomes [Demo.arrival 1 .white],
        o.result = .ok ()) ∧
      (p.feed (Demo.arrival 1 .black)).failure = some (.framesLost 2 .deviceLost) ∧
      (p.frameCalls (Demo.arrival 1 .black)).count .discard = 1 := by
  intro p
  have hok : ∀ o ∈ (start Demo.strict.repaired Demo.lost).outcomes [Demo.arrival 1 .white],
      o.result = .ok () := by decide +kernel
  have hlost : p.loses (Demo.arrival 1 .black) = true := by decide +kernel
  have hrow : lossRun ((start Demo.strict.repaired Demo.lost).losses
      ([Demo.arrival 1 .white] ++ [Demo.arrival 1 .black])) = 2 := by decide +kernel
  have hlast : (p.frameFailures (Demo.arrival 1 .black)).getLast? = some .deviceLost := by
    decide +kernel
  obtain ⟨-, hdiscards, -, -, hstops, -⟩ :=
    losses_escalate Demo.strict Demo.lost [Demo.arrival 1 .white] (Demo.arrival 1 .black) hok
  refine ⟨hok, (hstops _).2 ⟨hrow, .deviceLost, hlast, ?_⟩, ?_⟩
  · rw [hrow]
    rfl
  · exact hdiscards.trans (congrArg Bool.toNat hlost)

end Pipeline

end RenderStream
