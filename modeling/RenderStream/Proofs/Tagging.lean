import Mathlib.Data.List.Basic
import RenderStream.Proofs.Attempt
import RenderStream.Proofs.Workers
import RenderStream.Session

/-!
# What the workers make of a frame

On an open pool the results that `mapOrdered` gathers are the values of the function, in the order
of the items, and have nothing to do with the pool (`Workers.mapOrdered_eq`). For the tags of a
frame that leaves a plain function of the frame, `Frame.tagAhead`.

Two frames that become one when all their lists are tagged (`Frame.tagged`) differ in nothing but
tags, and in none that changes a fingerprint. A sink that cannot tell them apart ignores tags, as
the frame pipeline does.
-/

namespace RenderStream

/-! ## Tags -/

namespace ListCall

/-- A call that has a tag keeps it. -/
theorem tagged_of_isTagged {call : ListCall} (h : call.isTagged = true) : call.tagged = call := by
  obtain ⟨commands, _ | tag⟩ := call
  · exact absurd h Bool.false_ne_true
  · rfl

end ListCall

namespace Item

/-- An item with its fingerprint, if it is a list. -/
def tagged : Item → Item
  | .list call => .list call.tagged
  | .command c => .command c
  | .invalidate scope => .invalidate scope

@[simp] theorem tagged_tagged (i : Item) : i.tagged.tagged = i.tagged := by cases i <;> rfl

/-- An item without an untagged call stays as it is when it is tagged. -/
theorem tagged_of_untagged?_eq_none {i : Item} (h : i.untagged? = none) : i.tagged = i := by
  cases i with
  | command | invalidate => rfl
  | list call =>
    cases hc : call.isTagged with
    | false => simp [untagged?, hc] at h
    | true => exact congrArg Item.list (ListCall.tagged_of_isTagged hc)

/-- An untagged call is that of a list. -/
theorem eq_list_of_untagged? {i : Item} {call : ListCall} (h : i.untagged? = some call) :
    i = .list call := by
  cases i with
  | command | invalidate => exact absurd h nofun
  | list c =>
    have hc : c.isTagged = false ∧ c = call := by simpa [untagged?] using h
    rw [hc.2]

/-- Without calls to put in, no item is replaced. -/
theorem replaceUntagged_nil (is : List Item) : replaceUntagged is [] = is := by cases is <;> rfl

/-- An item without an untagged call is passed over. -/
theorem replaceUntagged_of_none {i : Item} (h : i.untagged? = none) (is : List Item)
    (calls : List ListCall) : replaceUntagged (i :: is) calls = i :: replaceUntagged is calls := by
  cases calls with
  | nil => rw [replaceUntagged_nil, replaceUntagged_nil]
  | cons call calls => simp [replaceUntagged, h]

/-- The calls that lack a fingerprint, put back with theirs. -/
theorem replaceUntagged_tagged (is : List Item) :
    replaceUntagged is ((is.filterMap untagged?).map ListCall.tagged) = is.map tagged := by
  induction is with
  | nil => rfl
  | cons i is ih =>
    cases h : i.untagged? with
    | none =>
      rw [List.filterMap_cons_none h, replaceUntagged_of_none h, ih, List.map_cons,
        tagged_of_untagged?_eq_none h]
    | some call =>
      obtain rfl := eq_list_of_untagged? h
      rw [List.filterMap_cons_some h, List.map_cons, replaceUntagged, h, ih]
      rfl

end Item

namespace Frame

/-- A frame with all its lists tagged. -/
def tagged (frame : Frame) : Frame := { frame with items := frame.items.map Item.tagged }

@[simp] theorem tagged_tagged (frame : Frame) : frame.tagged.tagged = frame.tagged := by
  simp [tagged, Function.comp_def]

/-- What the workers make of a frame. -/
def tagAhead (frame : Frame) : Frame :=
  if (frame.items.filterMap Item.untagged?).length < 2 then frame else frame.tagged

@[simp] theorem tagged_tagAhead (frame : Frame) : frame.tagAhead.tagged = frame.tagged := by
  rw [tagAhead]
  split
  · rfl
  · exact tagged_tagged frame

/-- On a pool that takes jobs the lists of a frame are tagged as they are ahead of it, and the pool
keeps its threads. -/
theorem tagLists_eq (frame : Frame) {w : Workers} (h : w.Takes) :
    ∃ v, frame.tagLists w = (v, .ok frame.tagAhead) ∧ v.isThreaded = w.isThreaded := by
  rw [tagLists, tagAhead]
  split
  · exact ⟨w, rfl, rfl⟩
  · obtain ⟨v, hv, hjobs⟩ :=
      Workers.mapOrdered_eq (fun call => some call.tagged) (frame.items.filterMap Item.untagged?) h
    refine ⟨v.drain, ?_, hjobs.isThreaded_drain h⟩
    have hvalues : (frame.items.filterMap Item.untagged?).map (fun call => some call.tagged) =
        ((frame.items.filterMap Item.untagged?).map ListCall.tagged).map some := by
      rw [List.map_map]
      rfl
    rw [hv, hvalues, Workers.gather_map_some]
    exact congrArg (fun items => (v.drain, Except.ok { frame with items }))
      (Item.replaceUntagged_tagged frame.items)

end Frame

/-! ## Who reads tags -/

/-- A sink that serves frames alike when they differ in nothing but tags, and in none that changes a
fingerprint. -/
def IgnoresTags (γ : Type) [Sink Frame γ] : Prop :=
  ∀ (f f' : Frame) (s : γ), f.tagged = f'.tagged → Sink.accept f s = Sink.accept f' s

namespace Pipeline

variable {η : Type} [Host η]

/-- To a pipeline it does not matter which of its lists are tagged. -/
theorem items_tagged (p : Pipeline η) (is : List Item) :
    p.items (is.map Item.tagged) = p.items is := by
  have hitem : ∀ (p : Pipeline η) (i : Item), p.item i.tagged = p.item i := by
    intro p i
    cases i <;> rfl
  have hnote : ∀ (p : Pipeline η) (i : Item), p.noteItem i.tagged = p.noteItem i := by
    intro p i
    cases i <;> rfl
  rw [items, items, Attempt.andEach, Attempt.andEach]
  split
  · exact Attempt.each_images hitem hnote is _
  · rw [List.foldl_map]
    simp only [hnote]

/-- The pipeline reads nothing of a list but its commands and its fingerprint. -/
theorem process_tagged (elapsed : Single) (p : Pipeline η) (f : Frame) :
    p.process elapsed f.tagged = p.process elapsed f := by
  have hattempt : p.attempt f.tagged = p.attempt f :=
    congrArg (Attempt.andThen · _) (items_tagged _ f.items)
  rw [process, process, hattempt]
  rfl

/-- A pipeline ignores tags. -/
theorem ignoresTags (η : Type) [Host η] : IgnoresTags (Pipeline η) := by
  intro f f' p hf
  have hsame : p.process 0 f = p.process 0 f' := by
    rw [← p.process_tagged 0 f, hf, p.process_tagged]
  simp only [Sink.accept, hsame]

end Pipeline

end RenderStream
