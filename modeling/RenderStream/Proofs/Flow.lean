import Mathlib.Data.List.DropRight
import RenderStream.Batch
import RenderStream.Proofs.Scripted

/-!
# The flow of commands through a buffer

`Batch.Flow` is what can be told of a buffer and the batches that left it: which were taken by the
host, and what waits. `Flow.Turn` lists all that a call can do to it. A flush either takes all that
waits or changes nothing, so three flushes of one call leave three things to happen to a command:
it does not come in, it comes in and waits, or it comes in and leaves with its batch.

From that list follow the shape of batches (`Orderly`), what became of every command (`keeps`), and,
for a caller that cleans up behind failures (`careful`), that a barrier ends its batch (`Shut`).
-/

namespace RenderStream

/-! ## Taken batches -/

/-- The batch that a call handed over. -/
def HostCall.taken? : HostCall → Option (List Command)
  | .submit batch none => some batch
  | .submit _ (some _) => none
  | .present _ => none
  | .discard => none

namespace Scripted

/-- The batches that the host took, the earliest first. -/
def taken (h : Scripted) : List (List Command) := h.calls.filterMap HostCall.taken?

/-- One call more hands over one batch more, or none. -/
theorem taken_append (h : Scripted) (c : HostCall) :
    ({ h with calls := h.calls ++ [c] } : Scripted).taken = h.taken ++ c.taken?.toList := by
  rw [taken, taken, List.filterMap_append]
  cases hc : c.taken? <;> simp [hc]

/-- A batch is taken unless the call fails. -/
theorem submit_taken (h : Scripted) (batch : List Command) :
    (Host.submit batch h).Ends (fun h' => h'.taken = h.taken ++ [batch])
      (fun h' => h'.taken = h.taken) := by
  have hs := h.taken_append (.submit batch (h.script.failure h.calls.length))
  simp only [Host.submit, Attempt.Ends]
  cases hf : h.script.failure h.calls.length with
  | none =>
    rw [hf] at hs
    exact hs
  | some e =>
    rw [hf] at hs
    exact hs.trans (List.append_nil _)

/-- Presenting hands over no batch. -/
theorem present_taken (h : Scripted) : (Host.present h).state.taken = h.taken :=
  (h.taken_append (.present (h.script.failure h.calls.length))).trans (List.append_nil _)

/-- Giving a frame up hands over no batch. -/
theorem discard_taken (h : Scripted) : (Host.discard h).taken = h.taken :=
  (h.taken_append .discard).trans (List.append_nil _)

end Scripted

namespace Batch

open Attempt

/-! ## Calls -/

/-- A call of what stands in front of a host. -/
inductive Call where
  | accept (c : Command)
  | flush
  | present
  | discard
deriving DecidableEq

section
variable {η : Type} [Host η]

def call (b : Batch η) : Call → Attempt HostError (Batch η)
  | .accept c => b.accept c
  | .flush => b.flush
  | .present => b.present
  | .discard => ⟨b.discard, none⟩

/-- A sequence of calls, whatever comes of them. -/
def run (b : Batch η) (ks : List Call) : Batch η := ks.foldl (fun b k => (b.call k).state) b

/-- Whether the flush behind a command is reached and fails. -/
def closingFails (b : Batch η) (c : Command) : Bool :=
  match (b.opening c).andThen makeRoom with
  | ⟨b', none⟩ => (b'.append c).failure.isSome
  | ⟨_, some _⟩ => false

/-- Whether a command comes into the buffer when it is offered: it is accepted, or it is a barrier
and the host refused the batch that it closes. -/
def enters (b : Batch η) (c : Command) : Bool :=
  (b.accept c).failure.isNone || (c == .barrier && b.closingFails c)

/-- What a call brings into the buffer. -/
def came (b : Batch η) : Call → List Command
  | .accept c => if b.enters c then [c] else []
  | .flush => []
  | .present => []
  | .discard => []

/-- What a call leaves of `kept`, the commands that came in before it and were not given up: the
ones that come in are added, and a discard gives up as many as wait in the buffer, the last ones. -/
def keep (b : Batch η) (kept : List Command) (k : Call) : List Command :=
  if k = .discard then kept.rdrop b.buffer.size else kept ++ b.came k

/-- What a sequence of calls leaves of `kept`. -/
def keeps (b : Batch η) (kept : List Command) : List Call → List Command
  | [] => kept
  | k :: ks => (b.call k).state.keeps (b.keep kept k) ks

/-- Whether there is something to clean up behind a call. `unclean` says whether there was before
it: a failure leaves something, and a discard or a flush that succeeds puts it right. -/
def leaves (unclean failed : Bool) : Call → Bool
  | .accept _ => failed || unclean
  | .flush => failed
  | .present => failed
  | .discard => failed

/-- Whether no command is offered while there is something to clean up. -/
def careful (b : Batch η) (unclean : Bool) : List Call → Bool
  | [] => true
  | k :: ks =>
    (!unclean || (k matches .flush | .present | .discard)) &&
      (b.call k).state.careful (leaves unclean (b.call k).failure.isSome k) ks

end

/-! ## What a call can do -/

/-- What can be told of a buffer and of what left it. -/
structure Flow where
  capacity : Nat
  /-- The batches that the host took, the earliest first. -/
  taken : List (List Command)
  waiting : List Command

def flow (b : Batch Scripted) : Flow := ⟨b.capacity, b.host.taken, b.buffer.toList⟩

namespace Flow

/-- All that was taken or waits, in order. -/
def all (f : Flow) : List Command := f.taken.flatten ++ f.waiting

/-- All that waits is taken as one batch. -/
def flushed (f : Flow) : Flow :=
  if f.waiting = [] then f else { f with taken := f.taken ++ [f.waiting], waiting := [] }

/-- The buffer made ready for a command. -/
def cleared (f : Flow) (c : Command) : Flow :=
  if c.opensBatch = true ∨ f.capacity ≤ f.waiting.length then f.flushed else f

def push (f : Flow) (c : Command) : Flow := { f with waiting := f.waiting ++ [c] }

/-- What a call can do: `came` is what it brings in, and the last flag says whether it fails. -/
inductive Turn (f : Flow) : Call → (came : List Command) → (failed : Bool) → Flow → Prop
  | refused {k : Call} (hk : k ≠ .discard) : Turn f k [] true f
  | waits {c : Command} (hc : c ≠ .barrier) :
    Turn f (.accept c) [c] false ((f.cleared c).push c)
  | closes : Turn f (.accept .barrier) [.barrier] false ((f.cleared .barrier).push .barrier).flushed
  | stuck : Turn f (.accept .barrier) [.barrier] true ((f.cleared .barrier).push .barrier)
  | flush : Turn f .flush [] false f.flushed
  | present (failed : Bool) : Turn f .present [] failed f.flushed
  | discard : Turn f .discard [] false { f with waiting := [] }

variable {f f' : Flow} {k : Call} {cs : List Command} {failed : Bool}

/-- A flush leaves the capacity. -/
theorem flushed_capacity (f : Flow) : f.flushed.capacity = f.capacity := by
  rw [flushed]
  split <;> rfl

@[simp] theorem flushed_waiting (f : Flow) : f.flushed.waiting = [] := by
  rw [flushed]
  split
  · next h => exact h
  · rfl

/-- A flush only moves commands on. -/
theorem flushed_all (f : Flow) : f.flushed.all = f.all := by
  rw [flushed]
  split
  · rfl
  · simp [all]

/-- What was taken is a batch that was taken before, or what waited. -/
theorem mem_flushed_taken {batch : List Command} (h : batch ∈ f.flushed.taken) :
    batch ∈ f.taken ∨ batch = f.waiting ∧ batch ≠ [] := by
  rw [flushed] at h
  split at h
  · exact .inl h
  · next hne =>
    rcases List.mem_append.1 h with h | h
    · exact .inl h
    · obtain rfl := List.mem_singleton.1 h
      exact .inr ⟨rfl, hne⟩

end Flow

variable {b : Batch Scripted}

/-- A flush takes all that waits, or changes nothing. -/
theorem flush_flow (b : Batch Scripted) :
    b.flush.Ends (fun b' => b'.flow = b.flow.flushed) (fun b' => b'.flow = b.flow) := by
  rw [flush]
  split
  · next he =>
    have hwaiting : b.flow.waiting = [] := by simpa [flow] using he
    rw [ends_ok, Flow.flushed, if_pos hwaiting]
  · next he =>
    have hwaiting : b.flow.waiting ≠ [] := by simpa [flow] using he
    have hs := Scripted.submit_taken b.host b.buffer.toList
    dsimp only
    split
    · next e hf =>
      rw [ends_failed, flow, flow, hs.of_failed hf]
    · next hf =>
      rw [ends_ok, Flow.flushed, if_neg hwaiting, flow, flow, hs.of_ok hf]

/-- A forced flush empties the buffer or, when the host refuses, leaves it. -/
theorem force_flow (b : Batch Scripted) :
    b.force.Ends (fun b' => b'.flow = b.flow.flushed) (fun b' => b'.flow = b.flow) :=
  flush_flow { b with counts := _ }

/-- A command that opens a batch has the buffer flushed before it. -/
theorem opening_flow (c : Command) (b : Batch Scripted) :
    (b.opening c).Ends
      (fun b' => b'.flow = if c.opensBatch = true then b.flow.flushed else b.flow)
      (fun b' => b'.flow = b.flow ∧ c.opensBatch = true) := by
  rw [opening]
  split
  · next h =>
    obtain ⟨hc, -⟩ := Bool.and_eq_true_iff.1 h
    rw [if_pos hc]
    exact (force_flow b).mono (fun _ h => h) fun _ h => ⟨h, hc⟩
  · next h =>
    rw [ends_ok]
    split
    · next hc =>
      have hwaiting : b.flow.waiting = [] := by simpa [flow, hc] using h
      rw [Flow.flushed, if_pos hwaiting]
    · rfl

/-- A full buffer is flushed. -/
theorem makeRoom_flow (b : Batch Scripted) :
    b.makeRoom.Ends
      (fun b' => b'.flow =
        if b.flow.capacity ≤ b.flow.waiting.length then b.flow.flushed else b.flow)
      (fun b' => b'.flow = b.flow ∧ b.flow.capacity ≤ b.flow.waiting.length) := by
  rw [makeRoom]
  split
  · next h =>
    have hfull : b.flow.capacity ≤ b.flow.waiting.length := by simpa [flow] using h
    rw [if_pos hfull]
    exact (flush_flow { b with counts := _ }).mono (fun _ h => h) fun _ h => ⟨h, hfull⟩
  · next h =>
    have hroom : ¬b.flow.capacity ≤ b.flow.waiting.length := by simpa [flow] using h
    rw [if_neg hroom]
    exact ends_ok.2 rfl

/-- The buffer is made ready for a command, or is left as it is. -/
theorem cleared_flow (hb : 0 < b.capacity) (c : Command) :
    ((b.opening c).andThen makeRoom).Ends (fun b' => b'.flow = b.flow.cleared c)
      (fun b' => b'.flow = b.flow) := by
  refine ((opening_flow c b).mono (fun _ h => h) fun _ h => h.1).andThen fun b₁ h₁ => ?_
  refine (makeRoom_flow b₁).mono (fun b₂ h₂ => ?_) fun b₂ h₂ => ?_
  · rw [h₂, h₁, Flow.cleared]
    by_cases hc : c.opensBatch = true
    · -- Behind a flush there is room already.
      have hroom : ¬b.flow.flushed.capacity ≤ b.flow.flushed.waiting.length := by
        rw [Flow.flushed_capacity, Flow.flushed_waiting]
        exact Nat.not_le.2 hb
      rw [if_pos hc, if_neg hroom, if_pos (.inl hc)]
    · simp only [hc, false_or, Bool.false_eq_true, if_false]
  · obtain ⟨h₂, hfull⟩ := h₂
    rw [h₂, h₁]
    rw [h₁] at hfull
    split at hfull
    · rw [Flow.flushed_capacity, Flow.flushed_waiting] at hfull
      exact absurd hfull (Nat.not_le.2 hb)
    · next hc => rw [if_neg hc]

/-- A command is put behind the others, and a barrier has them all flushed. -/
theorem append_flow (c : Command) (b : Batch Scripted) :
    (b.append c).Ends
      (fun b' => b'.flow = if c = .barrier then (b.flow.push c).flushed else b.flow.push c)
      (fun b' => b'.flow = b.flow.push c ∧ c = .barrier) := by
  have hpush : flow { b with buffer := b.buffer.push c } = b.flow.push c := by
    simp [flow, Flow.push]
  rw [append]
  split
  · next h =>
    have hc : c = .barrier := by
      cases c with
      | barrier => rfl
      | set | draw | clear => cases h
    have hforce := force_flow { b with buffer := b.buffer.push c }
    rw [hpush] at hforce
    rw [if_pos hc]
    exact hforce.mono (fun _ h => h) fun _ h => ⟨h, hc⟩
  · next h =>
    have hc : c ≠ .barrier := by
      rintro rfl
      exact h rfl
    rw [if_neg hc]
    exact ends_ok.2 hpush

/-- What becomes of a command that is offered. -/
theorem accept_turn (hb : 0 < b.capacity) (c : Command) :
    b.flow.Turn (.accept c) (b.came (.accept c)) (b.accept c).failure.isSome
      (b.accept c).state.flow := by
  have hcleared := cleared_flow hb c
  rw [came, enters, closingFails, accept]
  generalize (b.opening c).andThen makeRoom = r at hcleared
  obtain ⟨b₁, _ | e⟩ := r
  · have hflow : b₁.flow = b.flow.cleared c := hcleared
    have happend := append_flow c b₁
    rw [hflow] at happend
    rcases hr : b₁.append c with ⟨b₂, _ | e⟩ <;> rw [hr] at happend <;> simp only [andThen_ok, hr]
    · have hflow : b₂.flow = _ := happend
      rw [hflow]
      by_cases hc : c = .barrier
      · rw [if_pos hc, hc]
        exact .closes
      · rw [if_neg hc]
        exact .waits hc
    · obtain ⟨hflow, rfl⟩ : b₂.flow = _ ∧ c = .barrier := happend
      rw [hflow]
      exact .stuck
  · have hflow : b₁.flow = b.flow := hcleared
    have hout : (c == .barrier && false) = false := Bool.and_false _
    simp only [andThen_failed, hflow, Option.isNone_some, Option.isSome_some, hout, Bool.or_false,
      Bool.false_eq_true, if_false]
    exact .refused nofun

/-- A flush is a turn in which nothing comes in. -/
theorem flush_turn (b : Batch Scripted) :
    b.flow.Turn .flush [] b.flush.failure.isSome b.flush.state.flow := by
  have hflush := flush_flow b
  generalize b.flush = r at hflush ⊢
  obtain ⟨b₁, _ | e⟩ := r
  · have hflow : b₁.flow = b.flow.flushed := hflush
    rw [hflow]
    exact .flush
  · have hflow : b₁.flow = b.flow := hflush
    rw [hflow]
    exact .refused nofun

/-- Presenting is a turn in which nothing comes in. -/
theorem present_turn (b : Batch Scripted) :
    b.flow.Turn .present [] b.present.failure.isSome b.present.state.flow := by
  have hflush := flush_flow b
  rw [present]
  generalize b.flush = r at hflush ⊢
  obtain ⟨b₁, _ | e⟩ := r
  · have hflow : b₁.flow = b.flow.flushed := hflush
    have hpresent : flow { b₁ with host := (Host.present b₁.host).state } = b₁.flow := by
      rw [flow, flow, Scripted.present_taken]
    rw [andThen_ok, map_state, hpresent, hflow]
    exact .present _
  · have hflow : b₁.flow = b.flow := hflush
    rw [andThen_failed, hflow]
    exact .refused nofun

/-- Giving a frame up empties the buffer. -/
theorem discard_flow (b : Batch Scripted) : b.discard.flow = { b.flow with waiting := [] } := by
  rw [flow, flow, discard, Scripted.discard_taken]

/-- Everything that a call can do to a buffer and to what left it. -/
theorem call_turn (hb : 0 < b.capacity) (k : Call) :
    b.flow.Turn k (b.came k) (b.call k).failure.isSome (b.call k).state.flow := by
  cases k with
  | accept c => exact accept_turn hb c
  | flush => exact flush_turn b
  | present => exact present_turn b
  | discard =>
    rw [call, discard_flow]
    exact .discard

/-! ## The shape of batches -/

namespace Flow

variable {f f' : Flow} {k : Call} {cs : List Command} {failed unclean : Bool}

/-- What a batch looks like, waiting or taken: it is not too long, and what opens a batch comes
first. -/
structure Fits (capacity : Nat) (batch : List Command) : Prop where
  length_le : batch.length ≤ capacity
  opens : ∀ c ∈ batch.tail, c.opensBatch = false

/-- All batches look as they should. -/
structure Orderly (f : Flow) : Prop where
  capacity_pos : 0 < f.capacity
  waiting : Fits f.capacity f.waiting
  taken : ∀ batch ∈ f.taken, batch ≠ [] ∧ Fits f.capacity batch

/-- An empty batch fits. -/
theorem fits_nil (capacity : Nat) : Fits capacity [] := ⟨Nat.zero_le _, nofun⟩

/-- A flush hands over a batch that fits. -/
theorem Orderly.flushed (h : f.Orderly) : f.flushed.Orderly := by
  refine ⟨f.flushed_capacity ▸ h.capacity_pos, ?_, fun batch hbatch => ?_⟩
  · rw [flushed_waiting]
    exact fits_nil _
  · rw [flushed_capacity]
    rcases mem_flushed_taken hbatch with hold | ⟨rfl, hne⟩
    · exact h.taken batch hold
    · exact ⟨hne, h.waiting⟩

/-- Before a command the buffer is flushed or left as it is. -/
theorem cleared_eq (f : Flow) (c : Command) : f.cleared c = f.flushed ∨ f.cleared c = f := by
  rw [cleared]
  split
  · exact .inl rfl
  · exact .inr rfl

/-- What is done before a command leaves the capacity. -/
theorem cleared_capacity (f : Flow) (c : Command) : (f.cleared c).capacity = f.capacity := by
  rcases f.cleared_eq c with h | h
  · rw [h, flushed_capacity]
  · rw [h]

/-- What is done before a command keeps the batches in order. -/
theorem Orderly.cleared (h : f.Orderly) (c : Command) : (f.cleared c).Orderly := by
  rcases f.cleared_eq c with hc | hc
  · rw [hc]
    exact h.flushed
  · rw [hc]
    exact h

/-- A buffer that is ready for a command has room for it, and is empty for one that opens a batch.
-/
theorem Orderly.ready (h : f.Orderly) (c : Command) :
    (f.cleared c).waiting.length < f.capacity ∧
      (c.opensBatch = true → (f.cleared c).waiting = []) := by
  rw [Flow.cleared]
  split
  · rw [flushed_waiting]
    exact ⟨h.capacity_pos, fun _ => rfl⟩
  · next hc =>
    obtain ⟨hopens, hroom⟩ := not_or.1 hc
    exact ⟨Nat.not_le.1 hroom, fun h => absurd h hopens⟩

/-- A command put behind a buffer with room keeps the batches in order. -/
theorem Orderly.push (h : f.Orderly) (c : Command) : ((f.cleared c).push c).Orderly := by
  obtain ⟨hroom, hopens⟩ := h.ready c
  have hready := h.cleared c
  refine ⟨hready.capacity_pos, ⟨?_, fun d hd => ?_⟩, hready.taken⟩
  · rw [Flow.push, List.length_append, List.length_singleton, cleared_capacity]
    exact hroom
  · rw [Flow.push] at hd
    cases hc : c.opensBatch with
    | true =>
      rw [hopens hc] at hd
      cases hd
    | false =>
      cases hw : (f.cleared c).waiting with
      | nil =>
        rw [hw] at hd
        cases hd
      | cons first rest =>
        rw [hw, List.cons_append, List.tail_cons] at hd
        rcases List.mem_append.1 hd with hd | hd
        · exact hready.waiting.opens d (hw ▸ hd)
        · exact List.mem_singleton.1 hd ▸ hc

/-- No call breaks the shape of batches. -/
theorem Turn.orderly (ht : f.Turn k cs failed f') (h : f.Orderly) : f'.Orderly := by
  cases ht with
  | refused => exact h
  | waits => exact h.push _
  | closes => exact (h.push _).flushed
  | stuck => exact h.push _
  | flush | present => exact h.flushed
  | discard => exact ⟨h.capacity_pos, fits_nil _, h.taken⟩

/-- No turn changes the capacity. -/
theorem Turn.capacity_eq (ht : f.Turn k cs failed f') : f'.capacity = f.capacity := by
  cases ht with
  | refused | discard => rfl
  | waits | stuck => exact f.cleared_capacity _
  | closes => exact (flushed_capacity _).trans (f.cleared_capacity _)
  | flush | present => exact f.flushed_capacity

/-! ## What becomes of commands -/

/-- What is done before a command only moves commands on. -/
theorem cleared_all (f : Flow) (c : Command) : (f.cleared c).all = f.all := by
  rcases f.cleared_eq c with h | h
  · rw [h, flushed_all]
  · rw [h]

/-- A command comes behind all others. -/
theorem push_all (f : Flow) (c : Command) : (f.push c).all = f.all ++ [c] := by
  simp [all, push]

/-- A call adds what it brings in, unless it gives up all that waits. -/
theorem Turn.all_eq (ht : f.Turn k cs failed f') :
    f'.all = if k = .discard then f.all.rdrop f.waiting.length else f.all ++ cs := by
  cases ht with
  | refused hk => rw [if_neg hk, List.append_nil]
  | waits | stuck => rw [if_neg nofun, push_all, cleared_all]
  | closes => rw [if_neg nofun, flushed_all, push_all, cleared_all]
  | flush | present => rw [if_neg nofun, flushed_all, List.append_nil]
  | discard => rw [if_pos rfl, all, all, List.rdrop_append_length, List.append_nil]

/-! ## Barriers -/

/-- Barriers end their batches. While there is something to clean up, one may wait at the end. -/
structure Shut (f : Flow) (unclean : Bool) : Prop where
  taken : ∀ batch ∈ f.taken, .barrier ∉ batch.dropLast
  waiting : .barrier ∉ f.waiting.dropLast
  clean : unclean = false → .barrier ∉ f.waiting

/-- A barrier that is flushed shuts its batch. -/
theorem Shut.flushed {unclean : Bool} (h : f.Shut unclean) : f.flushed.Shut false := by
  refine ⟨fun batch hbatch => ?_, by simp, by simp⟩
  rcases mem_flushed_taken hbatch with hold | ⟨rfl, -⟩
  · exact h.taken batch hold
  · exact h.waiting

/-- Where no barrier waits, none does when the buffer is made ready for a command. -/
theorem Shut.cleared (h : f.Shut false) (c : Command) : (f.cleared c).Shut false := by
  rcases f.cleared_eq c with hc | hc
  · rw [hc]
    exact h.flushed
  · rw [hc]
    exact h

/-- A command put into a buffer without a barrier leaves a barrier at the end only. -/
theorem Shut.push (h : f.Shut false) (c : Command) : ((f.cleared c).push c).Shut true := by
  have hready := h.cleared c
  refine ⟨hready.taken, ?_, nofun⟩
  rw [Flow.push, List.dropLast_concat]
  exact hready.clean rfl

/-- A call of someone who offers no command before the last failure is cleaned up. -/
theorem Turn.shut (ht : f.Turn k cs failed f') (h : f.Shut unclean)
    (hcareful : unclean = true → ∀ c, k ≠ .accept c) : f'.Shut (leaves unclean failed k) := by
  have hclean : ∀ c, k = .accept c → unclean = false := fun c hk =>
    Bool.eq_false_iff.2 fun hu => hcareful hu c hk
  cases ht with
  | refused hk =>
    have hleaves : leaves unclean true k = true := by cases k <;> rfl
    rw [hleaves]
    exact ⟨h.taken, h.waiting, nofun⟩
  | @waits c hc =>
    obtain rfl := hclean c rfl
    refine ⟨(h.push c).taken, (h.push c).waiting, fun _ hmem => ?_⟩
    rcases List.mem_append.1 hmem with hmem | hmem
    · exact (h.cleared c).clean rfl hmem
    · exact hc (List.mem_singleton.1 hmem).symm
  | closes =>
    obtain rfl := hclean .barrier rfl
    exact (h.push .barrier).flushed
  | stuck =>
    obtain rfl := hclean .barrier rfl
    exact h.push .barrier
  | flush => exact h.flushed
  | present failed => exact ⟨h.flushed.taken, h.flushed.waiting, fun _ => h.flushed.clean rfl⟩
  | discard => exact ⟨h.taken, nofun, nofun⟩

end Flow

/-! ## Sequences of calls -/

/-- A sequence of calls is the first one and then the others. -/
theorem run_cons (b : Batch Scripted) (k : Call) (ks : List Call) :
    b.run (k :: ks) = (b.call k).state.run ks := rfl

/-- Behind every sequence of calls the batches are in order. -/
theorem run_orderly (ks : List Call) : ∀ {b : Batch Scripted}, b.flow.Orderly →
    (b.run ks).flow.Orderly ∧ (b.run ks).capacity = b.capacity := by
  induction ks with
  | nil => exact fun h => ⟨h, rfl⟩
  | cons k ks ih =>
    intro b h
    have hturn := call_turn h.capacity_pos k
    obtain ⟨horderly, hcapacity⟩ := ih (hturn.orderly h)
    exact ⟨horderly, hcapacity.trans hturn.capacity_eq⟩

/-- What was taken and what waits are the commands that came in and were not given up. -/
theorem run_all (ks : List Call) : ∀ {b : Batch Scripted}, 0 < b.capacity →
    (b.run ks).flow.all = b.keeps b.flow.all ks := by
  induction ks with
  | nil => exact fun _ => rfl
  | cons k ks ih =>
    intro b hb
    have hturn := call_turn hb k
    have hkeep : (b.call k).state.flow.all = b.keep b.flow.all k := by
      rw [hturn.all_eq, keep, flow, Array.length_toList]
    have hcapacity : (b.call k).state.capacity = b.capacity := hturn.capacity_eq
    rw [run_cons, ih (hcapacity ▸ hb), hkeep]
    rfl

/-- Behind every careful sequence of calls a barrier stands at the end of its batch. -/
theorem run_shut (ks : List Call) : ∀ {b : Batch Scripted} {unclean : Bool}, 0 < b.capacity →
    b.flow.Shut unclean → b.careful unclean ks = true →
    ∀ batch ∈ (b.run ks).host.taken, .barrier ∉ batch.dropLast := by
  induction ks with
  | nil => exact fun _ h _ => h.taken
  | cons k ks ih =>
    intro b unclean hb h hcareful
    obtain ⟨hk, hks⟩ := Bool.and_eq_true_iff.1 hcareful
    have hturn := call_turn hb k
    have hcapacity : (b.call k).state.capacity = b.capacity := hturn.capacity_eq
    refine ih (hcapacity ▸ hb) (hturn.shut h ?_) hks
    rintro rfl c rfl
    cases hk

/-- There is room for one command at least. -/
theorem ofHost_capacity_pos {η : Type} [Host η] (host : η) (capacity : Nat) :
    0 < (ofHost host capacity).capacity := Nat.le_max_left _ _

/-- No batch is longer than the host takes. -/
theorem ofHost_capacity_le {η : Type} [Host η] {host : η} {capacity limit : Nat}
    (hlimit : Host.limit host = some limit) (hpos : 1 ≤ limit) :
    (ofHost host capacity).capacity ≤ limit := by
  rw [ofHost, hlimit]
  exact Nat.max_le.2 ⟨hpos, Nat.min_le_right _ _⟩

/-! ## A host that stumbles -/

namespace Demo

/-- Takes two commands at a time, and refuses the first batch and the fourth one. -/
def stumbling : Script :=
  { limit := some 2
    failure := fun k => if k = 0 ∨ k = 3 then some .deviceLost else none }

def bind (id : UInt32) : Command := .set .texture0 (.handle id)

/-- Flushes again behind the first failure, and gives up behind the second one. -/
def recovering : List Call :=
  [.accept (bind 1), .accept .barrier, .flush, .accept (bind 2),
    .accept (.set .renderTarget (.handle 9)), .accept (bind 3), .accept .barrier, .discard,
    .accept .barrier, .present]

end Demo

/-- Whatever is called and whatever the host refuses: a batch that the host takes is not empty, and
not longer than it may be. Every command that comes into the buffer is taken once or waits, in the
order of coming in, unless a discard gave it up while it waited; it comes in when it is accepted, or
when it is a barrier that got stuck. A write that moves to another image comes first in its batch,
and a barrier last, as long as failures are cleaned up. -/
theorem batches_orderly (script : Script) (capacity : Nat) (ks : List Call) :
    let start : Batch Scripted := ofHost { script } capacity
    let b := start.run ks
    (∀ batch ∈ b.host.taken, 1 ≤ batch.length ∧ batch.length ≤ start.capacity ∧
      ∀ limit, script.limit = some limit → 1 ≤ limit → batch.length ≤ limit) ∧
    b.host.taken.flatten ++ b.buffer.toList = start.keeps [] ks ∧
    (∀ c, (b.accept c).state.host.taken.flatten ++ (b.accept c).state.buffer.toList =
      b.host.taken.flatten ++ b.buffer.toList ++
        if (b.accept c).failure.isNone || (c == .barrier && b.closingFails c) then [c] else []) ∧
    (∀ batch ∈ b.host.taken, ∀ v, .set .renderTarget v ∉ batch.tail) ∧
    (start.careful false ks = true → ∀ batch ∈ b.host.taken, .barrier ∉ batch.dropLast) := by
  intro start b
  have hpos : 0 < start.capacity := ofHost_capacity_pos _ _
  have hstart : start.flow.Orderly := ⟨hpos, Flow.fits_nil _, nofun⟩
  obtain ⟨horderly, hcapacity⟩ := run_orderly ks hstart
  refine ⟨fun batch hbatch => ?_, run_all ks hpos, fun c => ?_, fun batch hbatch v hv => ?_,
    fun hcareful => ?_⟩
  · obtain ⟨hne, hfits⟩ := horderly.taken batch hbatch
    have hle : batch.length ≤ start.capacity := hcapacity ▸ hfits.length_le
    refine ⟨List.length_pos_iff.2 hne, hle, fun limit hlimit hlimit_pos => ?_⟩
    exact Nat.le_trans hle (ofHost_capacity_le hlimit hlimit_pos)
  · exact (accept_turn horderly.capacity_pos c).all_eq
  · exact Bool.noConfusion ((horderly.taken batch hbatch).2.opens _ hv)
  · exact run_shut ks hpos ⟨nofun, nofun, nofun⟩ hcareful

/-- A barrier that gets stuck and leaves with a later flush, and a batch that is given up because it
gets stuck before a barrier comes in. -/
theorem batches_orderly_demo :
    let start : Batch Scripted := ofHost { script := Demo.stumbling } 3
    let b := start.run Demo.recovering
    start.careful false Demo.recovering = true ∧
      [Demo.bind 1, .barrier] ∈ b.host.taken ∧ [Demo.bind 1, .barrier].length ≤ 2 ∧
      .barrier ∉ [Demo.bind 1, .barrier].dropLast ∧
      .set .renderTarget (.handle 9) ∉ [Demo.bind 1, .barrier].tail := by
  intro start b
  obtain ⟨hlength, -, -, htarget, hbarrier⟩ := batches_orderly Demo.stumbling 3 Demo.recovering
  have hcareful : start.careful false Demo.recovering = true := by decide +kernel
  have hmem : [Demo.bind 1, .barrier] ∈ b.host.taken := by decide +kernel
  exact ⟨hcareful, hmem, (hlength _ hmem).2.2 2 rfl (by decide), hbarrier hcareful _ hmem,
    htarget _ hmem _⟩

end Batch

end RenderStream
