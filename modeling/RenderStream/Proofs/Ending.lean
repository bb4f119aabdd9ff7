import RenderStream.Proofs.Isolation

/-!
# How a frame ends

A frame ends in one of three ways (`Ending`): it is presented, or it is dropped, or it is one drop
too many and stops the pipeline. Up to its end it does not touch what is decided from frame to frame
(`Pipeline.standing`), so the end is decided by how the attempt fails and by the drops before it.
This holds of the pipeline with its cache, whatever the cache answers.
-/

namespace RenderStream.Pipeline

open Attempt

/-! ## Up to the end -/

section
variable {η : Type}

/-- What is decided at the end of a frame: the ledger, and the profile in force. -/
def standing (p : Pipeline η) : Ledger × Profile := (p.ledger, p.culling.profile)

/-- What sees the commands of a stream and leaves the ledger alone decides nothing. -/
theorem standing_eq {p q : Pipeline η} {cs : List Command} (hledger : q.ledger = p.ledger)
    (hseen : q.upstream = p.upstream.sees cs) : q.standing = p.standing := by
  have hprofile : q.culling.profile = p.culling.profile :=
    (congrArg (·.culling.profile) hseen).trans (Upstream.sees_profile cs p.upstream)
  rw [standing, standing, hledger, hprofile]

/-- What is noted of an item is no ending. -/
theorem standing_noteItem (p : Pipeline η) (i : Item) : (p.noteItem i).standing = p.standing :=
  standing_eq (congrArg Prod.snd (p.aside_noteItem i)) (p.upstream_noteItem i)

/-- Compiling a list is no ending. -/
theorem standing_compiled (p : Pipeline η) (call : ListCall) :
    (p.compiled call).1.standing = p.standing := by
  rw [compiled]
  split <;> rfl

variable [Host η] (p : Pipeline η)

/-- Calling a list is no ending. -/
theorem standing_call (call : ListCall) : (p.call call).state.standing = p.standing := by
  refine Eq.trans ?_ (p.standing_compiled call)
  exact standing_eq (congrArg Prod.snd (aside_replay _ _)) (upstream_replay _ _)

/-- An item is no ending. -/
theorem standing_item (i : Item) : (p.item i).state.standing = p.standing := by
  cases i with
  | command c =>
    have hseen : (p.execute c).state.upstream = p.upstream.sees [c] := p.upstream_execute c
    exact standing_eq (congrArg Prod.snd (p.aside_execute c)) hseen
  | list call => exact p.standing_call call
  | invalidate scope => rfl

/-- Setting the host's state anew is no ending. -/
theorem standing_restore : p.restore.state.standing = p.standing := by
  have hseen : p.restore.state.upstream = p.upstream.sees [] := p.upstream_restore
  exact standing_eq (congrArg Prod.snd p.aside_restore) hseen

/-- An attempt is no ending. -/
theorem standing_attempt (frame : Frame) : (p.attempt frame).state.standing = p.standing := by
  have hitems : ({ p with ordinal := 0 }.items frame.items).state.standing = p.standing :=
    andEach_keeps (P := fun q : Pipeline η => q.standing = p.standing)
      (fun i q hq => (q.standing_item i).trans hq)
      (fun i q hq => (q.standing_noteItem i).trans hq) frame.items (standing_restore _)
  rw [attempt, andThen]
  cases ({ p with ordinal := 0 }.items frame.items).failure with
  | none => exact hitems
  | some e => exact hitems

/-! ## The end -/

/-- The three ways in which a frame ends. -/
inductive Ending (p : Pipeline η) (a : Arrival) : Attempt PipelineError (Pipeline η) → Prop
  | presented (q : Pipeline η) (hstanding : q.standing = p.standing)
      (hattempt : p.attempt a.frame = ⟨q, none⟩) :
    Ending p a ⟨q.keepFrame.conclude a.frame true a.time, none⟩
  | dropped (q : Pipeline η) (e : HostError) (hstanding : q.standing = p.standing)
      (hattempt : p.attempt a.frame = ⟨q, some e⟩)
      (hlimit : ¬p.failureLimit ≤ p.failures + 1) :
    Ending p a ⟨q.dropFrame.conclude a.frame false a.time, none⟩
  | fatal (q : Pipeline η) (e : HostError) (hstanding : q.standing = p.standing)
      (hattempt : p.attempt a.frame = ⟨q, some e⟩) (hlimit : p.failureLimit ≤ p.failures + 1) :
    Ending p a ⟨q.dropFrame, some (.framesLost (p.failures + 1) e)⟩

/-- Every frame ends in one of the ways that are told apart. -/
theorem feed_ending (a : Arrival) : Ending p a (p.feed a) := by
  have hstanding := p.standing_attempt a.frame
  have hfeed : p.feed a = settle a.frame a.time (p.attempt a.frame) := rfl
  rw [hfeed]
  rcases hattempt : p.attempt a.frame with ⟨q, _ | e⟩
  · rw [hattempt] at hstanding
    exact .presented q hstanding hattempt
  · rw [hattempt] at hstanding
    have hledger : q.ledger = p.ledger := congrArg Prod.fst hstanding
    have hlimit : q.failureLimit = p.failureLimit := congrArg Ledger.failureLimit hledger
    have hfailures : q.failures = p.failures := congrArg Ledger.failures hledger
    rw [settle_failed, hlimit, hfailures]
    split
    · next h => exact .fatal q e hstanding hattempt h
    · next h => exact .dropped q e hstanding hattempt h

end

end RenderStream.Pipeline
