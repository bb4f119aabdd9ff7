import RenderStream.Proofs.Transparent

/-!
# What was last written

The pipeline tracks two things of the stream: the value last wanted of every slot, and the host
state that culling depends on. `Command.last?` reads the last write off the commands of a stream,
and after any frames the trackers hold just that (`trackers_last_written`): a command counts when it
was sent, when it was replayed, and when a failure before it left it to be noted.
-/

namespace RenderStream

/-! ## Writes -/

namespace SlotValue

def rect? : SlotValue → Option Rect
  | .rect r => some r
  | _ => none

def cullMode? : SlotValue → Option CullMode
  | .cull m => some m
  | _ => none

def winding? : SlotValue → Option Winding
  | .winding w => some w
  | _ => none

end SlotValue

namespace Command

/-- The value that a command writes to a slot. -/
def written? (s : Slot) : Command → Option SlotValue
  | .set t v => if t = s then some v else none
  | _ => none

/-- The scissor that a command sets. -/
def scissor? (c : Command) : Option Rect := (c.written? .scissor).bind SlotValue.rect?

/-- The faces that a command has left out. -/
def cullMode? (c : Command) : Option CullMode := (c.written? .cullMode).bind SlotValue.cullMode?

/-- The winding of front faces that a command sets. -/
def frontFace? (c : Command) : Option Winding := (c.written? .frontFace).bind SlotValue.winding?

/-- The last that commands write, when `write` is what a single command writes. -/
def last? {α : Type} (write : Command → Option α) (cs : List Command) : Option α :=
  (cs.filterMap write).getLast?

/-- The last write of commands is that of the later ones, and else that of the first. -/
theorem last?_cons {α : Type} (write : Command → Option α) (c : Command) (cs : List Command) :
    last? write (c :: cs) = (last? write cs).or (write c) := by
  rw [last?, last?, List.filterMap_cons]
  cases write c with
  | none => simp
  | some a => simp [List.getLast?_cons]

end Command

/-! ## Trackers -/

namespace Upstream

/-- What every command either overwrites or leaves alone is the last that was written. -/
theorem read_sees {α : Type} (read : Upstream → Option α) {write : Command → Option α}
    (hsee : ∀ u c, read (u.see c) = (write c).or (read u)) (cs : List Command) :
    ∀ u : Upstream, read (u.sees cs) = (Command.last? write cs).or (read u) := by
  induction cs with
  | nil => exact fun u => rfl
  | cons c cs ih =>
    intro u
    rw [sees_cons, ih, hsee, Command.last?_cons, Option.or_assoc]

/-- A slot is wanted to hold what a command writes to it, and else what it was wanted to hold. -/
theorem see_wanted (s : Slot) (u : Upstream) (c : Command) :
    (u.see c).wanted.get s = (c.written? s).or (u.wanted.get s) := by
  cases c with
  | set t v =>
    rw [see, SlotMap.get_set, Command.written?]
    split <;> rfl
  | draw | clear | barrier => rfl

/-- The scissor is the one that a command sets, and else the one before. -/
theorem see_scissor (u : Upstream) (c : Command) :
    (u.see c).culling.view.scissor = c.scissor?.or u.culling.view.scissor := by
  cases c with
  | set t v => cases t <;> cases v <;> rfl
  | draw | clear | barrier => rfl

/-- The mode of culling is the one that a command sets, and else the one before. -/
theorem see_mode (u : Upstream) (c : Command) :
    some (u.see c).culling.view.mode = c.cullMode?.or (some u.culling.view.mode) := by
  cases c with
  | set t v => cases t <;> cases v <;> rfl
  | draw | clear | barrier => rfl

/-- The front face is the one that a command sets, and else the one before. -/
theorem see_front (u : Upstream) (c : Command) :
    some (u.see c).culling.view.front = c.frontFace?.or (some u.culling.view.front) := by
  cases c with
  | set t v => cases t <;> cases v <;> rfl
  | draw | clear | barrier => rfl

/-- The host state that culling depends on, as commands leave it. -/
theorem view_sees (u : Upstream) (cs : List Command) :
    (u.sees cs).culling.view =
      { scissor := (Command.last? Command.scissor? cs).or u.culling.view.scissor
        mode := (Command.last? Command.cullMode? cs).getD u.culling.view.mode
        front := (Command.last? Command.frontFace? cs).getD u.culling.view.front } := by
  have hscissor := read_sees (·.culling.view.scissor) see_scissor cs u
  have hmode := read_sees (fun u => some u.culling.view.mode) see_mode cs u
  have hfront := read_sees (fun u => some u.culling.view.front) see_front cs u
  rw [Option.or_some, Option.some_inj] at hmode hfront
  rw [← hscissor, ← hmode, ← hfront]

end Upstream

namespace Pipeline

variable {η : Type}

/-- After any frames, presented, dropped or fatal, every slot is wanted at what the stream last
wrote to it, and culling has seen the last value of each slot's own form; an invalidation touches
neither. -/
theorem trackers_last_written [Host η] (s : Settings) (host : η) (as : List Arrival)
    (hrs : NoCollision ((ofSettings s host).requests as)) :
    let p := (ofSettings s host).run as
    let cs := Arrival.commands as
    (∀ slot, p.slots.wanted.get slot = Command.last? (Command.written? slot) cs) ∧
    p.culling.view =
      { scissor := Command.last? Command.scissor? cs
        mode := (Command.last? Command.cullMode? cs).getD .none
        front := (Command.last? Command.frontFace? cs).getD .counterClockwise } ∧
    ∀ (q : Pipeline η) (scope : Scope),
      (q.invalidate scope).slots.wanted = q.slots.wanted ∧
        (q.invalidate scope).culling = q.culling := by
  intro p cs
  have hupstream := upstream_run s host as hrs
  have hview := congrArg (·.culling.view) hupstream
  have hwanted := congrArg (·.wanted) hupstream
  refine ⟨fun slot => ?_, ?_, fun _ _ => ⟨rfl, rfl⟩⟩
  · have hlast := Upstream.read_sees (·.wanted.get slot) (Upstream.see_wanted slot) cs s.upstream
    have hnone : s.upstream.wanted.get slot = none := SlotMap.get_const none slot
    rw [hnone, Option.or_none] at hlast
    exact (congrArg (·.get slot) hwanted).trans hlast
  · have hlast := s.upstream.view_sees cs
    have hnone : s.upstream.culling.view.scissor = none := rfl
    rw [hnone, Option.or_none] at hlast
    exact hview.trans hlast

set_option maxRecDepth 10000 in
/-- Behind a frame that was dropped in the middle of its second display list. -/
theorem trackers_last_written_demo :
    ((ofSettings Demo.settings ({ script := Demo.refusing 2 } : Scripted)).run
        [Demo.arrival 1 .white]).slots.wanted.get .fogColor = some (.color .white) ∧
    ((ofSettings Demo.settings ({ script := Demo.refusing 2 } : Scripted)).run
        [Demo.arrival 1 .white]).culling.view = { scissor := some ⟨50, 50, 90, 90⟩ } := by
  have h := trackers_last_written Demo.settings ({ script := Demo.refusing 2 } : Scripted)
    [Demo.arrival 1 .white] (by decide +kernel)
  exact ⟨(h.1 .fogColor).trans (by decide +kernel), h.2.1.trans (by decide +kernel)⟩

end Pipeline

end RenderStream
