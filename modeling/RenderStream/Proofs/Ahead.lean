import Mathlib.Data.List.Forall2
import RenderStream.Proofs.Mapping
import RenderStream.Proofs.Tagging

/-!
# Frames tagged ahead

Tagging the lists of a frame ahead of time is a map over the pool, so no schedule changes what comes
of it (`Mapping.returns`). What comes of it is the frame itself, item by item, but for tags that the
lists would have got anyway (`Item.Retagged`). The pipeline sees no difference
(`Pipeline.process_tagged`).
-/

namespace RenderStream

/-! ## Items -/

/-- The same item; a list may have got the tag that it lacked. -/
inductive Item.Retagged : Item → Item → Prop where
  | command (c : Command) : Retagged (.command c) (.command c)
  | invalidate (scope : Scope) : Retagged (.invalidate scope) (.invalidate scope)
  | list {call call' : ListCall} (commands : call'.commands = call.commands)
      (fingerprint : call'.fingerprint = call.fingerprint)
      (kept : call.isTagged = true → call' = call) : Retagged (.list call) (.list call')

namespace Item

/-- An item is itself with its tags. -/
theorem retagged_refl (i : Item) : i.Retagged i := by
  cases i with
  | command c => exact .command c
  | invalidate scope => exact .invalidate scope
  | list call => exact .list rfl rfl fun _ => rfl

/-- A tagged item is the item but for its tags. -/
theorem retagged_tagged (i : Item) : i.Retagged i.tagged := by
  cases i with
  | command c => exact .command c
  | invalidate scope => exact .invalidate scope
  | list call => exact .list rfl call.fingerprint_tagged ListCall.tagged_of_isTagged

end Item

/-! ## Frames -/

namespace Frame

/-- The calls of lists that lack a fingerprint. -/
def untagged (frame : Frame) : List ListCall := frame.items.filterMap Item.untagged?

/-- However the threads are scheduled, tagging a frame ahead comes to this. -/
def ComesTo (frame : Frame) (w : Workers) (r : Except PacingError Frame) : Prop :=
  if frame.untagged.length < 2 then r = .ok frame
  else
    ∃ s, Mapping.Returns (fun call => some call.tagged) (.start frame.untagged w) s ∧
      r = s.map fun calls => { frame with items := Item.replaceUntagged frame.items calls }

/-- Whatever the threads do, the workers make of a frame what they make of it when they move only
while the caller waits. -/
theorem comesTo_tagAhead (frame : Frame) {w : Workers} (hw : w.Reached) (hopen : w.isOpen = true) :
    frame.ComesTo w (.ok frame.tagAhead) := by
  rw [ComesTo]
  split
  · next hfew => exact congrArg Except.ok (if_pos hfew)
  · next hmany =>
    have hvalues : frame.untagged.map (fun call => some call.tagged) =
        (frame.untagged.map ListCall.tagged).map some := by
      rw [List.map_map]
      rfl
    have hreturns := Mapping.returns (fun call => some call.tagged) frame.untagged hw hopen
    rw [hvalues, Workers.gather_map_some] at hreturns
    refine ⟨_, hreturns, ?_⟩
    have hahead : frame.tagAhead = frame.tagged := if_neg hmany
    rw [hahead, Except.map, untagged, Item.replaceUntagged_tagged]
    rfl

/-- The items of a frame that is tagged ahead are its items but for their tags. -/
theorem retagged_tagAhead (frame : Frame) :
    List.Forall₂ Item.Retagged frame.items frame.tagAhead.items := by
  rw [tagAhead]
  split
  · exact List.forall₂_same.2 fun i _ => i.retagged_refl
  · exact List.forall₂_map_right_iff.2 (List.forall₂_same.2 fun i _ => i.retagged_tagged)

/-- The calls of a tagged frame have tags. -/
theorem isTagged_of_mem_tagged {frame : Frame} {call : ListCall}
    (h : call ∈ frame.tagged.listCalls) : call.isTagged = true := by
  obtain ⟨i, hi, hcall⟩ := List.mem_filterMap.1 h
  obtain ⟨j, -, rfl⟩ := List.mem_map.1 hi
  cases j with
  | command c => exact absurd hcall nofun
  | invalidate scope => exact absurd hcall nofun
  | list call' =>
    cases hcall
    exact call'.isTagged_tagged

/-! ## The workers change tags and nothing else -/

namespace Demo

/-- Two lists that lack a fingerprint, with other items and a tagged list between them. -/
def mixed : Frame :=
  { time := some 16
    items :=
      [.list { commands := [.barrier] }, .command .barrier,
        .list { commands := [], tag := some ⟨1, 2⟩ }, .invalidate .caches,
        .list { commands := [.barrier, .barrier] }] }

end Demo

/-- On an open pool tagging a frame ahead succeeds, however its jobs are scheduled, and comes to
what the workers make of it when they move only while the caller waits. The frame keeps its items,
each at its place with its commands and its fingerprint, and what was tagged keeps its tag. With two
lists or more that lacked a fingerprint all lists are tagged then, and with fewer the frame is left
alone. The pipeline does with it just what it does with the frame as it was, whenever the frame
states its time. -/
theorem tagging_transparent (frame : Frame) {w : Workers} (hw : w.Reached)
    (hopen : w.isOpen = true) :
    ∃ ahead : Frame, frame.ComesTo w (.ok ahead) ∧ (frame.tagLists w).2 = .ok ahead ∧
      ahead = { frame with items := ahead.items } ∧
      ahead.items.length = frame.items.length ∧
      List.Forall₂ Item.Retagged frame.items ahead.items ∧
      (2 ≤ frame.untagged.length → ∀ call ∈ ahead.listCalls, call.isTagged = true) ∧
      (frame.untagged.length < 2 → ahead = frame) ∧
      ∀ (η : Type) [Host η] (p : Pipeline η) (elapsed elapsed' : Single),
        frame.time.isSome = true → p.process elapsed ahead = p.process elapsed' frame := by
  obtain ⟨v, htags, -⟩ := frame.tagLists_eq (hw.takes hopen)
  have hitems := frame.retagged_tagAhead
  refine ⟨frame.tagAhead, frame.comesTo_tagAhead hw hopen, congrArg Prod.snd htags, ?_,
    hitems.length_eq.symm, hitems, fun hmany => ?_, fun hfew => if_pos hfew, ?_⟩
  · rw [tagAhead]
    split <;> rfl
  · have hahead : frame.tagAhead = frame.tagged := if_neg (Nat.not_lt.2 hmany)
    rw [hahead]
    exact fun call => isTagged_of_mem_tagged
  · intro η _ p elapsed elapsed' htime
    obtain ⟨time, htime⟩ := Option.isSome_iff_exists.1 htime
    have hsame : p.process elapsed frame.tagAhead = p.process elapsed frame := by
      rw [← p.process_tagged, tagged_tagAhead, p.process_tagged]
    rw [hsame, Pipeline.process, Pipeline.process, htime]
    rfl

/-- Both lists are tagged on two threads, and the pipeline draws the same. -/
theorem tagging_transparent_demo :
    ∃ ahead : Frame, Demo.mixed.ComesTo (.ofCount (Workers.countFor 2 4)) (.ok ahead) ∧
      (∀ call ∈ ahead.listCalls, call.isTagged = true) ∧ ahead.items.length = 5 ∧
      ∀ elapsed, (Pipeline.ofSettings {} ({} : NullHost)).process elapsed ahead =
        (Pipeline.ofSettings {} ({} : NullHost)).process 0 Demo.mixed := by
  obtain ⟨ahead, hcomes, -, -, hlength, -, htagged, -, hprocess⟩ :=
    tagging_transparent Demo.mixed (.ofCount 2 4) rfl
  exact ⟨ahead, hcomes, htagged (by decide), hlength, fun elapsed =>
    hprocess NullHost (Pipeline.ofSettings {} {}) elapsed 0 rfl⟩

end Frame

end RenderStream
