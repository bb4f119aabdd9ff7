import RenderStream.Proofs.Attempt
import RenderStream.Host

/-!
# Scripted hosts

A scripted host fails whenever its script says so, and remembers every call. What it shows is read
off the calls alone: batches that were taken wait until they are presented as a frame or given up,
and a slot holds what was last written to it. When a frame is given up the script decides what the
slots hold from then on, since nothing is known about a host that failed.
-/

namespace RenderStream

/-- A call that reached a host, and how it failed, if it did. -/
inductive HostCall where
  | submit (batch : List Command) (failure : Option HostError)
  | present (failure : Option HostError)
  | discard
deriving DecidableEq

/-- What a host does of its own accord. -/
structure Script where
  limit : Option Nat := none
  /-- How a call fails, by the number of calls before it. -/
  failure : Nat → Option HostError := fun _ => none
  /-- What the slots hold, by the number of frames given up so far. -/
  leaves : Nat → SlotMap SlotValue := fun _ => .const (.flag false)

/-- A host that follows a script. -/
structure Scripted where
  script : Script := {}
  /-- The calls so far, the earliest first. -/
  calls : List HostCall := []

instance : Host Scripted where
  name _ := "scripted"
  limit h := h.script.limit
  submit batch h :=
    let failure := h.script.failure h.calls.length
    ⟨{ h with calls := h.calls ++ [.submit batch failure] }, failure⟩
  present h :=
    let failure := h.script.failure h.calls.length
    ⟨{ h with calls := h.calls ++ [.present failure] }, failure⟩
  discard h := { h with calls := h.calls ++ [.discard] }

/-! ## Slots of the host -/

namespace SlotMap

/-- The slots behind a command. -/
def apply (m : SlotMap SlotValue) : Command → SlotMap SlotValue
  | .set s v => m.set s v
  | _ => m

/-- The slots behind a sequence of commands. -/
def after (m : SlotMap SlotValue) (cs : List Command) : SlotMap SlotValue := cs.foldl apply m

/-- The commands that are no state writes, each with what the slots hold when it runs. -/
def observe (m : SlotMap SlotValue) : List Command → List (Command × SlotMap SlotValue)
  | [] => []
  | .set s v :: cs => (m.set s v).observe cs
  | c :: cs => (c, m) :: m.observe cs

@[simp] theorem after_nil (m : SlotMap SlotValue) : m.after [] = m := rfl

@[simp] theorem after_append (m : SlotMap SlotValue) (cs ds : List Command) :
    m.after (cs ++ ds) = (m.after cs).after ds := List.foldl_append

@[simp] theorem after_set (m : SlotMap SlotValue) (s : Slot) (v : SlotValue) :
    m.after [.set s v] = m.set s v := rfl

/-- A host observes commands one after the other. -/
theorem observe_append (cs ds : List Command) :
    ∀ m : SlotMap SlotValue, m.observe (cs ++ ds) = m.observe cs ++ (m.after cs).observe ds := by
  induction cs with
  | nil => exact fun m => rfl
  | cons c cs ih =>
    intro m
    cases c with
    | set s v => exact ih _
    | draw x => exact congrArg (_ :: ·) (ih m)
    | clear color depth => exact congrArg (_ :: ·) (ih m)
    | barrier => exact congrArg (_ :: ·) (ih m)

variable {c : Command}

/-- A command that is no state write leaves the slots alone. -/
theorem after_of_ne_set (hc : ∀ s v, c ≠ .set s v) (m : SlotMap SlotValue) : m.after [c] = m := by
  cases c with
  | set s v => exact absurd rfl (hc s v)
  | draw | clear | barrier => rfl

/-- A command that is no state write is observed with the state it meets. -/
theorem observe_of_ne_set (hc : ∀ s v, c ≠ .set s v) (m : SlotMap SlotValue) :
    m.observe [c] = [(c, m)] := by
  cases c with
  | set s v => exact absurd rfl (hc s v)
  | draw | clear | barrier => rfl

/-- State writes alone show nothing. -/
theorem observe_sets {cs : List Command} (hcs : ∀ c ∈ cs, ∃ s v, c = .set s v) :
    ∀ m : SlotMap SlotValue, m.observe cs = [] := by
  induction cs with
  | nil => exact fun m => rfl
  | cons c cs ih =>
    intro m
    obtain ⟨s, v, rfl⟩ := hcs c List.mem_cons_self
    exact ih (fun d hd => hcs d (List.mem_cons_of_mem _ hd)) _

end SlotMap

/-! ## What a host shows -/

/-- A frame that was presented. -/
structure Shown where
  /-- What the slots held before its first command. -/
  slots : SlotMap SlotValue
  commands : List Command
deriving DecidableEq

/-- The commands of a frame that are no state writes, each with what the slots held when it ran. -/
def Shown.observed (x : Shown) : List (Command × SlotMap SlotValue) := x.slots.observe x.commands

/-- What became of the calls to a host. -/
structure Screen where
  /-- What the slots held at the last end of a frame. -/
  slots : SlotMap SlotValue
  /-- The commands taken since then. -/
  taken : List Command := []
  frames : List Shown := []
  discards : Nat := 0

namespace Screen

/-- One call more. Calls that failed change nothing. -/
def step (leaves : Nat → SlotMap SlotValue) (x : Screen) : HostCall → Screen
  | .submit batch none => { x with taken := x.taken ++ batch }
  | .present none =>
    { x with
      slots := x.slots.after x.taken
      taken := []
      frames := x.frames ++ [⟨x.slots, x.taken⟩] }
  | .discard =>
    { x with slots := leaves (x.discards + 1), taken := [], discards := x.discards + 1 }
  | .submit _ (some _) => x
  | .present (some _) => x

end Screen

/-- What a scripted host shows. -/
def Scripted.screen (h : Scripted) : Screen :=
  h.calls.foldl (Screen.step h.script.leaves) { slots := h.script.leaves 0 }

namespace Scripted

/-- One call more is one step more on the screen. -/
theorem screen_append (h : Scripted) (c : HostCall) :
    ({ h with calls := h.calls ++ [c] } : Scripted).screen = h.screen.step h.script.leaves c := by
  simp only [screen, List.foldl_append, List.foldl_cons, List.foldl_nil]

/-- A batch is taken whole or not at all. -/
theorem submit_ends (h : Scripted) (batch : List Command) :
    (Host.submit batch h).Ends
      (fun h' => h'.screen = { h.screen with taken := h.screen.taken ++ batch })
      (fun h' => h'.screen = h.screen) := by
  have hs := h.screen_append (.submit batch (h.script.failure h.calls.length))
  simp only [Host.submit, Attempt.Ends]
  cases hf : h.script.failure h.calls.length with
  | none => simpa only [hf, Screen.step] using hs
  | some e => simpa only [hf, Screen.step] using hs

/-- What was taken is presented whole or not at all. -/
theorem present_ends (h : Scripted) :
    (Host.present h).Ends
      (fun h' => h'.screen = h.screen.step h.script.leaves (.present none))
      (fun h' => h'.screen = h.screen) := by
  have hs := h.screen_append (.present (h.script.failure h.calls.length))
  simp only [Host.present, Attempt.Ends]
  cases hf : h.script.failure h.calls.length with
  | none => simpa only [hf] using hs
  | some e => simpa only [hf, Screen.step] using hs

/-- What was taken is given up. -/
theorem screen_discard (h : Scripted) :
    (Host.discard h).screen = h.screen.step h.script.leaves .discard :=
  h.screen_append .discard

end Scripted

end RenderStream
