import RenderStream.Batch
import RenderStream.Proofs.Scripted

/-!
# Batches in front of a scripted host

Within a frame the commands on their way are those that the host has taken and, behind them, those
in the buffer. `Batch.Carries` names them, relative to the screen at the start of the frame: a
command that is accepted comes to their end, whatever is flushed meanwhile, and the present shows
all of them. Behind a failure only `Batch.Within` is left, the screen apart from what was taken.
-/

namespace RenderStream.Batch

open Attempt

/-- Nothing was presented or given up since the screen was `x`. -/
def Within (b : Batch Scripted) (x : Screen) : Prop := ∃ taken, b.host.screen = { x with taken }

/-- Since the screen was `x`, the commands `cs` are on their way: taken by the host or buffered. -/
def Carries (b : Batch Scripted) (x : Screen) (cs : List Command) : Prop :=
  ∃ taken, b.host.screen = { x with taken } ∧ taken ++ b.buffer.toList = cs

variable {b : Batch Scripted} {x : Screen} {cs : List Command}

/-- A flush moves commands from the buffer to the host. -/
theorem flush_ends (h : b.Carries x cs) :
    b.flush.Ends (fun b' => b'.Carries x cs ∧ b'.buffer = #[]) (·.Within x) := by
  obtain ⟨taken, hx, rfl⟩ := h
  rw [flush]
  split
  · next he => exact ⟨⟨taken, hx, rfl⟩, by simpa using he⟩
  · have hs := Scripted.submit_ends b.host b.buffer.toList
    dsimp only
    split
    · next e he => exact ⟨taken, (hs.of_failed he).trans hx⟩
    · next he =>
      refine ⟨⟨taken ++ b.buffer.toList, ?_, by simp⟩, rfl⟩
      rw [hs.of_ok he, hx]

/-- Counting does not matter to a flush. -/
theorem counted_flush_ends (n : BatchCounts) (h : b.Carries x cs) :
    (flush { b with counts := n }).Ends (·.Carries x cs) (·.Within x) :=
  (flush_ends (b := { b with counts := n }) h).mono (fun _ h => h.1) fun _ h => h

/-- A forced flush carries on, or fails within the frame. -/
theorem force_ends (h : b.Carries x cs) : b.force.Ends (·.Carries x cs) (·.Within x) :=
  counted_flush_ends _ h

/-- The flush before a command carries on, or fails within the frame. -/
theorem opening_ends (c : Command) (h : b.Carries x cs) :
    (b.opening c).Ends (·.Carries x cs) (·.Within x) := by
  rw [opening]
  split
  · exact force_ends h
  · exact h

/-- Making room carries on, or fails within the frame. -/
theorem makeRoom_ends (h : b.Carries x cs) :
    b.makeRoom.Ends (·.Carries x cs) (·.Within x) := by
  rw [makeRoom]
  split
  · exact counted_flush_ends _ h
  · exact h

/-- A command that is put behind the others is carried too, or the flush behind it fails within the
frame. -/
theorem append_ends (c : Command) (h : b.Carries x cs) :
    (b.append c).Ends (·.Carries x (cs ++ [c])) (·.Within x) := by
  obtain ⟨taken, hx, rfl⟩ := h
  have hc : Carries { b with buffer := b.buffer.push c } x (taken ++ b.buffer.toList ++ [c]) :=
    ⟨taken, hx, by simp⟩
  rw [append]
  split
  · exact force_ends hc
  · exact hc

/-- An accepted command comes behind all that are on their way. -/
theorem accept_ends (c : Command) (h : b.Carries x cs) :
    (b.accept c).Ends (·.Carries x (cs ++ [c])) (·.Within x) :=
  ((opening_ends c h).andThen fun _ h => makeRoom_ends h).andThen fun _ h => append_ends c h

/-- The present shows what was on its way, as one more frame. -/
theorem present_ends (h : b.Carries x cs) :
    b.present.Ends
      (fun b' => b'.buffer = #[] ∧ b'.host.screen =
        { x with slots := x.slots.after cs, taken := [], frames := x.frames ++ [⟨x.slots, cs⟩] })
      (·.Within x) := by
  refine (flush_ends h).andThen ?_
  rintro b' ⟨⟨taken, hx, rfl⟩, hb⟩
  have hp := Scripted.present_ends b'.host
  rw [ends_map]
  refine hp.mono (fun h' hh => ⟨hb, ?_⟩) fun h' hh => ⟨taken, hh.trans hx⟩
  rw [hh, hx, hb]
  simp [Screen.step]

/-- A frame given up leaves nothing on its way, and no frame more. -/
theorem discard_screen (h : b.Within x) :
    ∃ slots, b.discard.host.screen =
      { slots, taken := [], frames := x.frames, discards := x.discards + 1 } := by
  obtain ⟨taken, hx⟩ := h
  refine ⟨b.host.script.leaves (x.discards + 1), ?_⟩
  rw [discard, Scripted.screen_discard, hx]
  rfl

end RenderStream.Batch
