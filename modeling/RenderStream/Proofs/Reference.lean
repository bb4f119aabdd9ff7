import RenderStream.Proofs.Culling
import RenderStream.Proofs.Upstream

/-!
# The stream without buffers and caches

The reference for everything that is presented is a walk over the commands of a frame that has no
buffer, no slots to save writes of, and no compiled lists. It shows every command that is no state
write, with the values last written, and leaves out the draws that culling rejects in the state that
the writes before them have set up. Compiling a list beforehand comes to the same
(`CompiledList.keepsAll_compile`).
-/

namespace RenderStream

/-- What is shown: commands that are no state writes, each with the values last written before it.
-/
abbrev Showing := List (Command × SlotMap (Option SlotValue))

/-- The place of the next particle, behind a command. -/
def Command.nextOrdinal (ordinal : UInt32) : Command → UInt32
  | .draw x => CompiledList.nextOrdinal ordinal x
  | _ => ordinal

/-- The place of the next particle, behind an item. Display lists count their own. -/
def Item.nextOrdinal (ordinal : UInt32) : Item → UInt32
  | .command c => c.nextOrdinal ordinal
  | .list _ => ordinal
  | .invalidate _ => ordinal

namespace Upstream

/-- What is shown of a command when nothing is culled. -/
def shows (u : Upstream) : Command → Showing
  | .set _ _ => []
  | c => [(c, u.wanted)]

/-- What is shown of commands when nothing is culled. -/
def showsAll (u : Upstream) : List Command → Showing
  | [] => []
  | c :: cs => u.shows c ++ (u.see c).showsAll cs

/-- What is shown of a command. `ordinal` is the place of the next particle. -/
def keeps (u : Upstream) (ordinal : UInt32) : Command → Showing
  | .draw x => if u.culling.test x ordinal = .keep then u.shows (.draw x) else []
  | c => u.shows c

/-- What is shown of commands. -/
def keepsAll (u : Upstream) (ordinal : UInt32) : List Command → Showing
  | [] => []
  | c :: cs => u.keeps ordinal c ++ (u.see c).keepsAll (c.nextOrdinal ordinal) cs

/-- What is shown of an item. In a display list the particles are counted from zero. -/
def keepsItem (u : Upstream) (ordinal : UInt32) : Item → Showing
  | .command c => u.keeps ordinal c
  | .list call => u.keepsAll 0 call.commands
  | .invalidate _ => []

/-- What is shown of items. -/
def keepsItems (u : Upstream) (ordinal : UInt32) : List Item → Showing
  | [] => []
  | i :: is =>
    u.keepsItem ordinal i ++ (u.sees i.commands).keepsItems (i.nextOrdinal ordinal) is

/-- A command that is no state write is shown with the state that is wanted. -/
theorem shows_of_ne_set {c : Command} (hc : ∀ s v, c ≠ .set s v) (u : Upstream) :
    u.shows c = [(c, u.wanted)] := by
  cases c with
  | set s v => exact absurd rfl (hc s v)
  | draw | clear | barrier => rfl

end Upstream

namespace CompiledList

open Upstream

/-- Compiling a command moves the ordinal when it draws a particle. -/
theorem Progress.step_ordinal (s : Progress) (c : Command) :
    (s.step c).1.ordinal = c.nextOrdinal s.ordinal := by
  cases c with
  | draw x =>
    rw [step_draw]
    split <;> rfl
  | set | clear | barrier => rfl

/-- Compiling sees what the stream asks for. -/
theorem Progress.step_sees {s : Progress} {u : Upstream} (h : s.culling.Sees u.culling)
    (c : Command) : (s.step c).1.culling.Sees (u.see c).culling := by
  cases c with
  | set slot v => exact h.observe slot v
  | draw x =>
    rw [step_draw]
    split <;> exact h.counted _ u.culling.counts
  | clear | barrier => exact h

/-- A command is sent when there is something of it to show, culled or not. -/
theorem Progress.step_keeps {s : Progress} {u : Upstream} (h : s.culling.Sees u.culling)
    (c : Command) :
    u.keeps s.ordinal c = if (s.step c).2 then u.shows c else [] := by
  cases c with
  | draw x =>
    rw [step_draw, keeps, ← h.test x s.ordinal]
    by_cases hx : s.culling.test x s.ordinal = .keep
    · rw [if_pos hx, if_pos hx]
      rfl
    · rw [if_neg hx, if_neg hx]
      rfl
  | set | clear | barrier => rfl

/-- What a compilation sends shows, unculled, what its commands show: a draw that is left out asks
for nothing, so what follows is seen in the same state. -/
theorem Progress.keepsAll_run : ∀ (cs : List Command) {s : Progress} {u : Upstream},
    s.culling.Sees u.culling → u.keepsAll s.ordinal cs = u.showsAll (s.run cs).1
  | [], _, _, _ => rfl
  | c :: cs, s, u, h => by
    have hrest := keepsAll_run cs (step_sees h c)
    rw [step_ordinal] at hrest
    rw [keepsAll, step_keeps h c, hrest]
    simp only [run]
    split
    · rfl
    · next hsent =>
      obtain ⟨x, rfl⟩ := (s.step_sent c).resolve_left hsent
      rfl

/-- Culling a list beforehand shows the same as culling it on the way. -/
theorem keepsAll_compile {culling : Culling} {u : Upstream} (h : culling.Sees u.culling)
    (cs : List Command) : u.keepsAll 0 cs = u.showsAll (compile culling cs).commands :=
  Progress.keepsAll_run cs (s := { culling := { culling with counts := {} } })
    (h.counted {} u.culling.counts)

end CompiledList

end RenderStream
