import RenderStream.Pipeline
import RenderStream.Proofs.SlotCache

/-!
# What the stream has asked for

`Upstream` is what can be told from the commands alone, whatever the host does: the state of culling
that they set up and the last value written to every slot. `Pipeline.upstream` is the same read off
a pipeline, and the two stay equal through every operation, at both of its ends: a command that is
executed, replayed, noted, or that fails moves `Pipeline.upstream` by `Upstream.see`.
-/

namespace RenderStream

open Attempt

/-! ## Commands of a stream -/

/-- The commands of an item. -/
def Item.commands : Item → List Command
  | .command c => [c]
  | .list call => call.commands
  | .invalidate _ => []

/-- The commands of a frame, display lists written out. -/
def Frame.commands (frame : Frame) : List Command := frame.items.flatMap Item.commands

/-- The state of culling without its counts. -/
def Culling.uncounted (c : Culling) : Culling := { c with counts := {} }

/-- What a stream has asked for. -/
structure Upstream where
  /-- The state of culling, counts apart. -/
  culling : Culling
  /-- The last value written to every slot. -/
  wanted : SlotMap (Option SlotValue) := .const none

namespace Upstream

/-- One command more. Only state writes leave a trace. -/
def see (u : Upstream) : Command → Upstream
  | .set s v => { culling := u.culling.observe s v, wanted := u.wanted.set s (some v) }
  | _ => u

/-- A sequence of commands more. -/
def sees (u : Upstream) (cs : List Command) : Upstream := cs.foldl see u

/-- Another profile in force. -/
def under (u : Upstream) (profile : Profile) : Upstream :=
  { u with culling := { u.culling with profile } }

@[simp] theorem sees_nil (u : Upstream) : u.sees [] = u := rfl

@[simp] theorem sees_cons (u : Upstream) (c : Command) (cs : List Command) :
    u.sees (c :: cs) = (u.see c).sees cs := rfl

@[simp] theorem sees_append (u : Upstream) (cs ds : List Command) :
    u.sees (cs ++ ds) = (u.sees cs).sees ds := List.foldl_append

/-- State writes do not touch the tolerances. -/
@[simp] theorem sees_tolerances (cs : List Command) :
    ∀ u : Upstream, (u.sees cs).culling.tolerances = u.culling.tolerances := by
  induction cs with
  | nil => exact fun u => rfl
  | cons c cs ih =>
    intro u
    rw [sees_cons, ih]
    cases c <;> rfl

/-- No command changes the profile. -/
theorem see_profile (u : Upstream) (c : Command) :
    (u.see c).culling.profile = u.culling.profile := by
  cases c <;> rfl

/-- No commands change the profile. -/
theorem sees_profile (cs : List Command) :
    ∀ u : Upstream, (u.sees cs).culling.profile = u.culling.profile := by
  induction cs with
  | nil => exact fun u => rfl
  | cons c cs ih =>
    intro u
    rw [sees_cons, ih, see_profile]

/-- What is asked for does not depend on the profile. -/
theorem sees_under (profile : Profile) (cs : List Command) :
    ∀ u : Upstream, (u.under profile).sees cs = (u.sees cs).under profile := by
  induction cs with
  | nil => exact fun u => rfl
  | cons c cs ih =>
    intro u
    have hsee : (u.under profile).see c = (u.see c).under profile := by
      cases c <;> rfl
    rw [sees_cons, sees_cons, hsee, ih]

end Upstream

/-! ## Compiled lists -/

namespace CompiledList

/-- What compiling leaves out are draws. -/
theorem Progress.step_sent (s : Progress) (c : Command) :
    (s.step c).2 = true ∨ ∃ x, c = .draw x := by
  cases c with
  | draw x => exact .inr ⟨x, rfl⟩
  | set | clear | barrier => exact .inl rfl

/-- A compiled list asks for the same as the list. -/
theorem Progress.sees_run : ∀ (cs : List Command) (s : Progress) (u : Upstream),
    u.sees (s.run cs).1 = u.sees cs
  | [], _, _ => rfl
  | c :: cs, s, u => by
    simp only [Progress.run]
    split
    · rw [Upstream.sees_cons, Upstream.sees_cons, sees_run]
    · next hsent =>
      obtain ⟨x, rfl⟩ := (s.step_sent c).resolve_left hsent
      rw [sees_run]
      rfl

/-- A compiled list changes as much upstream as the list. -/
theorem sees_compile (culling : Culling) (cs : List Command) (u : Upstream) :
    u.sees (compile culling cs).commands = u.sees cs :=
  Progress.sees_run cs _ u

/-- Compiling leaves commands out, and keeps the order of the others. -/
theorem Progress.run_sublist : ∀ (cs : List Command) (s : Progress), ((s.run cs).1).Sublist cs
  | [], _ => .slnil
  | c :: cs, s => by
    have hrest := run_sublist cs (s.step c).1
    simp only [Progress.run]
    split
    · exact hrest.cons_cons c
    · exact hrest.cons c

/-- A compiled list holds commands of the list, in their order. -/
theorem compile_sublist (culling : Culling) (cs : List Command) :
    (compile culling cs).commands.Sublist cs :=
  Progress.run_sublist cs _

end CompiledList

/-! ## Single commands -/

namespace Pipeline

variable {η : Type}

/-- What the pipeline takes the stream to have asked for. -/
def upstream (p : Pipeline η) : Upstream := ⟨p.culling.uncounted, p.slots.wanted⟩

/-- A state write that was noted or sent: culling has seen it, and it is what is wanted. -/
def wrote (p : Pipeline η) (s : Slot) (v : SlotValue) : Pipeline η :=
  { p with culling := p.culling.observe s v, slots := (p.slots.set s v).1 }

/-- A state write that was sent is seen upstream. -/
theorem upstream_wrote (p : Pipeline η) (s : Slot) (v : SlotValue) :
    (p.wrote s v).upstream = p.upstream.see (.set s v) := by
  rw [upstream, wrote, SlotCache.set_wanted]
  rfl

/-- A command that is noted is seen upstream. -/
theorem upstream_note (p : Pipeline η) (c : Command) :
    (p.note c).upstream = p.upstream.see c := by
  cases c <;> rfl

/-- Noting elements of which every one stands for some commands sees the commands of them all. -/
theorem upstream_foldl {α : Type} {note : Pipeline η → α → Pipeline η} (commands : α → List Command)
    (hnote : ∀ (p : Pipeline η) a, (note p a).upstream = p.upstream.sees (commands a))
    (as : List α) :
    ∀ p : Pipeline η, (as.foldl note p).upstream = p.upstream.sees (as.flatMap commands) := by
  induction as with
  | nil => exact fun p => rfl
  | cons a as ih =>
    intro p
    rw [List.foldl_cons, ih, hnote, List.flatMap_cons, Upstream.sees_append]

/-- A run over elements that are seen both when they are carried out and when they are noted sees
them all, wherever it fails. -/
theorem upstream_each {α : Type} {step : Pipeline η → α → Attempt HostError (Pipeline η)}
    {note : Pipeline η → α → Pipeline η} (commands : α → List Command)
    (hstep : ∀ (p : Pipeline η) a, (step p a).state.upstream = p.upstream.sees (commands a))
    (hnote : ∀ (p : Pipeline η) a, (note p a).upstream = p.upstream.sees (commands a))
    (as : List α) :
    ∀ p : Pipeline η, (each step note p as).state.upstream =
      p.upstream.sees (as.flatMap commands) := by
  induction as with
  | nil => exact fun p => rfl
  | cons a as ih =>
    intro p
    rw [each_cons, andEach, List.flatMap_cons, Upstream.sees_append, ← hstep p a]
    cases (step p a).failure with
    | none => exact ih _
    | some e => exact upstream_foldl commands hnote as _

/-- Commands that are noted are seen upstream. -/
theorem upstream_notes (cs : List Command) (p : Pipeline η) :
    (cs.foldl note p).upstream = p.upstream.sees cs := by
  simpa using upstream_foldl (fun c => [c]) upstream_note cs p

/-- Noting an item asks for all that its commands ask for. -/
theorem upstream_noteItem (p : Pipeline η) (i : Item) :
    (p.noteItem i).upstream = p.upstream.sees i.commands := by
  cases i with
  | command c => exact p.upstream_note c
  | list call => exact upstream_notes call.commands p
  | invalidate scope => rfl

variable [Host η] (p : Pipeline η)

/-- To send a command changes nothing upstream. -/
theorem upstream_send (c : Command) : (p.send c).state.upstream = p.upstream := rfl

/-- A write is sent when the slots call for a command. -/
theorem write_eq (s : Slot) (v : SlotValue) :
    p.write s v =
      match (p.slots.set s v).2 with
      | some c => (p.wrote s v).send c
      | none => ⟨p.wrote s v, none⟩ := rfl

/-- A state write is seen upstream, suppressed or not. -/
theorem upstream_write (s : Slot) (v : SlotValue) :
    (p.write s v).state.upstream = p.upstream.see (.set s v) := by
  rw [write_eq, ← upstream_wrote]
  split
  · exact upstream_send _ _
  · rfl

/-- A draw is judged, and what is kept is measured and sent. -/
theorem draw_eq (x : Primitive) :
    p.draw x =
      if p.culling.test x p.ordinal = .keep then
        send { p with
          culling := (p.culling.judge x p.ordinal).1
          ordinal := CompiledList.nextOrdinal p.ordinal x
          meter := p.meter.record x.area 1 } (.draw x)
      else
        ⟨{ p with
            culling := (p.culling.judge x p.ordinal).1
            ordinal := CompiledList.nextOrdinal p.ordinal x }, none⟩ := rfl

/-- A draw changes nothing upstream. -/
theorem upstream_draw (x : Primitive) : (p.draw x).state.upstream = p.upstream := by
  rw [draw_eq]
  split <;> rfl

/-- A command is seen upstream, whatever comes of it. -/
theorem upstream_execute (c : Command) : (p.execute c).state.upstream = p.upstream.see c := by
  cases c with
  | set s v => exact p.upstream_write s v
  | draw x => exact p.upstream_draw x
  | clear | barrier => exact p.upstream_send _

/-- A command of a compiled list is seen upstream, whatever comes of it. -/
theorem upstream_replayCommand (c : Command) :
    (p.replayCommand c).state.upstream = p.upstream.see c := by
  cases c with
  | set s v => exact p.upstream_write s v
  | draw | clear | barrier => exact p.upstream_send _

/-- The pipeline with the verdicts and the area of a compiled list added. -/
def tallied (p : Pipeline η) (l : CompiledList) : Pipeline η :=
  { p with
    culling := { p.culling with counts := p.culling.counts.add l.counts }
    meter := p.meter.record l.covered l.draws }

/-- Replaying a list is replaying its commands behind its verdicts and its area. -/
theorem replay_eq (l : CompiledList) :
    p.replay l = .each replayCommand note (p.tallied l) l.commands := rfl

/-- A replay asks for all that the list asks for, also when it fails on the way. -/
theorem upstream_replay (l : CompiledList) :
    (p.replay l).state.upstream = p.upstream.sees l.commands := by
  have heach := upstream_each (fun c => [c]) upstream_replayCommand upstream_note
    l.commands (p.tallied l)
  rwa [List.flatMap_singleton', ← replay_eq] at heach

/-- The pipeline that takes the host to hold all that is wanted. -/
def restored (p : Pipeline η) : Pipeline η :=
  { p with slots := p.slots.restore.1, mustRestore := false }

/-- Setting the host's state anew is sending the writes that are due, when the host may have lost
it. -/
theorem restore_eq :
    p.restore =
      if p.mustRestore then .each send (fun p _ => p) p.restored p.slots.restore.2
      else ⟨p, none⟩ := by
  simp only [restore, restored]

/-- Values that are written again were wanted before. -/
theorem upstream_restore : p.restore.state.upstream = p.upstream := by
  have hslots : p.restored.upstream = p.upstream := by
    rw [upstream, restored, SlotCache.restore_wanted]
    rfl
  rw [restore_eq]
  split
  · have heach := upstream_each (fun _ => []) (fun p c => p.upstream_send c)
      (fun _ _ => rfl) p.slots.restore.2 p.restored
    rwa [List.flatMap_eq_nil_iff.2 (fun _ _ => rfl), hslots] at heach
  · rfl

/-- A frame that failed is dropped, and stops the pipeline when it is one too many. -/
theorem settle_failed (frame : Frame) (time : Single) (e : HostError) :
    settle frame time ⟨p, some e⟩ =
      if p.failureLimit ≤ p.failures + 1 then ⟨p.dropFrame, some (.framesLost (p.failures + 1) e)⟩
      else ⟨p.dropFrame.conclude frame false time, none⟩ := rfl

/-- Behind a frame only the profile may be another one. -/
theorem upstream_settle (frame : Frame) (time : Single) (r : Attempt HostError (Pipeline η)) :
    (settle frame time r).state.upstream =
      r.state.upstream.under (settle frame time r).state.culling.profile := by
  obtain ⟨p, _ | e⟩ := r
  · rfl
  · rw [settle_failed]
    split <;> rfl

end Pipeline

end RenderStream
