import RenderStream.Proofs.Afresh
import RenderStream.Proofs.Reference

/-!
# What commands leave alone

The items of a frame move the place of the next particle, as far as they are draws of their own, and
do not touch what is decided from frame to frame (`Ledger`): quality, the counts of frames, the
display.
-/

namespace RenderStream

/-- What is decided from frame to frame. -/
structure Ledger where
  failureLimit : UInt32
  governor : Governor
  presented : Nat
  dropped : Nat
  failures : UInt32
  display : Display

namespace Pipeline

open Attempt

variable {η : Type}

/-- What the pipeline has decided so far. -/
def ledger (p : Pipeline η) : Ledger :=
  { failureLimit := p.failureLimit
    governor := p.governor
    presented := p.presented
    dropped := p.dropped
    failures := p.failures
    display := p.display }

/-- What an operation on items leaves alone: the ledger, and the place of the next particle. -/
def aside (p : Pipeline η) : UInt32 × Ledger := (p.ordinal, p.ledger)

/-- What is noted of a command leaves ordinal and ledger. -/
theorem aside_note (p : Pipeline η) (c : Command) : (p.note c).aside = p.aside := by
  cases c <;> rfl

/-- What is noted of an item leaves ordinal and ledger. -/
theorem aside_noteItem (p : Pipeline η) (i : Item) : (p.noteItem i).aside = p.aside := by
  cases i with
  | command c => exact p.aside_note c
  | list call =>
    exact foldl_keeps (P := fun _ q => q.aside = p.aside)
      (fun c _ q hq => (q.aside_note c).trans hq)
      call.commands p rfl
  | invalidate scope => rfl

variable [Host η] (p : Pipeline η)

/-- A state write leaves ordinal and ledger. -/
theorem aside_write (s : Slot) (v : SlotValue) : (p.write s v).state.aside = p.aside := by
  rw [write_eq]
  split <;> rfl

/-- A command moves the ordinal when it draws a particle, and leaves the ledger. -/
theorem aside_execute (c : Command) :
    (p.execute c).state.aside = (c.nextOrdinal p.ordinal, p.ledger) := by
  cases c with
  | set s v => exact p.aside_write s v
  | draw x =>
    rw [execute, draw_eq]
    split <;> rfl
  | clear | barrier => rfl

/-- A command of a compiled list leaves ordinal and ledger. -/
theorem aside_replayCommand (c : Command) : (p.replayCommand c).state.aside = p.aside := by
  cases c with
  | set s v => exact p.aside_write s v
  | draw | clear | barrier => rfl

/-- A replay does not touch the place of the next particle outside of it. -/
theorem aside_replay (l : CompiledList) : (p.replay l).state.aside = p.aside :=
  each_keeps (P := fun q => q.aside = p.aside)
    (fun c q hq => (q.aside_replayCommand c).trans hq)
    (fun c q hq => (q.aside_note c).trans hq) l.commands (p.tallied l) rfl

/-- Setting the host's state anew leaves ordinal and ledger. -/
theorem aside_restore : p.restore.state.aside = p.aside := by
  rw [restore_eq]
  split
  · have hsend : ∀ c (q : Pipeline η), q.aside = p.aside → (q.send c).state.aside = p.aside :=
      fun _ _ hq => hq
    exact each_keeps hsend (fun _ _ hq => hq) p.slots.restore.2 p.restored rfl
  · rfl

/-- An item moves the ordinal by the particles of the stream, and leaves the ledger. -/
theorem aside_itemAfresh (i : Item) :
    (p.itemAfresh i).state.aside = (i.nextOrdinal p.ordinal, p.ledger) := by
  cases i with
  | command c => exact p.aside_execute c
  | list call => exact p.aside_replay _
  | invalidate scope => rfl

/-- An item moves the ordinal by the particles of the stream, whatever comes of it. -/
theorem ordinal_itemAfresh (i : Item) : (p.itemAfresh i).state.ordinal = i.nextOrdinal p.ordinal :=
  congrArg Prod.fst (p.aside_itemAfresh i)

theorem ordinal_restore : p.restore.state.ordinal = p.ordinal := congrArg Prod.fst p.aside_restore

/-- Items that are no draws of particles leave the place of the next particle as it was. -/
theorem ordinal_itemsAfresh {is : List Item} (h : ∀ i ∈ is, ∀ n, i.nextOrdinal n = n) :
    (p.itemsAfresh is).state.ordinal = p.ordinal := by
  have hnotes : ∀ (is : List Item) (q : Pipeline η), (is.foldl noteItem q).ordinal = q.ordinal := by
    intro is q
    exact foldl_keeps (P := fun _ r => r.ordinal = q.ordinal)
      (fun i _ r hr => (congrArg Prod.fst (r.aside_noteItem i)).trans hr) is q rfl
  have hrun : ∀ q : Pipeline η, (each itemAfresh noteItem q is).state.ordinal = q.ordinal := by
    induction is with
    | nil => exact fun q => rfl
    | cons i is ih =>
      intro q
      have hi : (q.itemAfresh i).state.ordinal = q.ordinal :=
        (q.ordinal_itemAfresh i).trans (h i List.mem_cons_self q.ordinal)
      rw [each_cons, andEach, ← hi]
      cases (q.itemAfresh i).failure with
      | none => exact ih (fun j hj => h j (List.mem_cons_of_mem _ hj)) _
      | some e => exact hnotes is _
  rw [itemsAfresh, andEach, ← p.ordinal_restore]
  cases p.restore.failure with
  | none => exact hrun _
  | some e => exact hnotes is _

/-! ## Whole frames -/

/-- What is decided from frame to frame is not decided by items. -/
theorem ledger_itemsAfresh (is : List Item) : (p.itemsAfresh is).state.ledger = p.ledger := by
  have hrestore : p.restore.state.ledger = p.ledger := congrArg Prod.snd p.aside_restore
  have hitem : ∀ i (q : Pipeline η), q.ledger = p.ledger →
      (q.itemAfresh i).state.ledger = p.ledger :=
    fun i q hq => (congrArg Prod.snd (q.aside_itemAfresh i)).trans hq
  have hnote : ∀ i (q : Pipeline η), q.ledger = p.ledger → (q.noteItem i).ledger = p.ledger :=
    fun i q hq => (congrArg Prod.snd (q.aside_noteItem i)).trans hq
  rw [itemsAfresh, andEach]
  cases p.restore.failure with
  | none => exact each_keeps hitem hnote is _ hrestore
  | some e =>
    exact foldl_keeps (P := fun _ q => q.ledger = p.ledger) (fun i _ q hq => hnote i q hq) is _
      hrestore

/-- An attempt leaves the ledger. -/
theorem ledger_attemptAfresh (frame : Frame) : (p.attemptAfresh frame).state.ledger = p.ledger := by
  have hitems := ledger_itemsAfresh { p with ordinal := 0 } frame.items
  rw [attemptAfresh, andThen]
  cases ({ p with ordinal := 0 }.itemsAfresh frame.items).failure with
  | none => exact hitems
  | some e => exact hitems

end Pipeline

end RenderStream
