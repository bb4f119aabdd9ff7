/-!
# Completions

A graphics stage on a thread of its own says after every frame that it served how many frames it
has served by then. The counts travel over a channel that never fills up, and the producer receives
them one at a time: while it awaits a frame, at the end of a call, and at shutdown. The last count
that it received is what it takes for served.
-/

namespace RenderStream

/-- What a producer knows of the frames that it handed to a thread, and what is on its way to it. -/
structure Completions where
  /-- Frames that got into the queue. -/
  submitted : Nat := 0
  /-- The last count that was received. -/
  completed : Nat := 0
  /-- Counts that were sent and not received yet, oldest first. -/
  channel : List Nat := []
deriving DecidableEq, Repr

namespace Completions

variable {c : Completions} {n done : Nat} {words : List Nat}

def submit (c : Completions) : Completions := { c with submitted := c.submitted + 1 }

def send (words : List Nat) (c : Completions) : Completions :=
  { c with channel := c.channel ++ words }

/-- The oldest count is received. -/
def receive (done : Nat) (c : Completions) : Completions :=
  { c with completed := done, channel := c.channel.tail }

/-! ## What the counts tell -/

@[simp] theorem send_nil (c : Completions) : c.send [] = c := by rw [send, List.append_nil]

@[simp] theorem send_send (c : Completions) (words words' : List Nat) :
    (c.send words).send words' = c.send (words ++ words') := by
  simp only [send, List.append_assoc]

/-- Together with the counts on their way the producer knows of `n` frames, one after the other. -/
structure Tells (c : Completions) (n : Nat) : Prop where
  heard : c.completed ≤ n
  channel_eq : c.channel = List.range' (c.completed + 1) (n - c.completed)

/-- Handing a frame over tells nothing of those that were served. -/
theorem Tells.submit (h : c.Tells n) : c.submit.Tells n := ⟨h.heard, h.channel_eq⟩

/-- The next count follows the last one that was sent. -/
theorem Tells.send (h : c.Tells n) : (c.send [n + 1]).Tells (n + 1) := by
  obtain ⟨heard, hchannel⟩ := h
  have hnext : c.completed + 1 + (n - c.completed) = n + 1 := by omega
  refine ⟨Nat.le_succ_of_le heard, ?_⟩
  rw [Completions.send, hchannel, Nat.succ_sub heard, List.range'_1_concat, hnext]

/-- The count that is received is the next one to be heard. -/
theorem Tells.eq_of_channel {rest : List Nat} (h : c.Tells n) (hc : c.channel = done :: rest) :
    done = c.completed + 1 ∧ done ≤ n ∧ rest = List.range' (done + 1) (n - done) := by
  obtain ⟨heard, hchannel⟩ := h
  rw [hc] at hchannel
  obtain ⟨left, hleft⟩ : ∃ left, n - c.completed = left + 1 := by
    refine Nat.exists_eq_succ_of_ne_zero fun hzero => ?_
    rw [hzero] at hchannel
    cases hchannel
  rw [hleft, List.range'_succ, List.cons.injEq] at hchannel
  obtain ⟨rfl, rfl⟩ := hchannel
  refine ⟨rfl, by omega, ?_⟩
  congr 1
  omega

/-- A count that is received is known instead of on its way. -/
theorem Tells.receive {rest : List Nat} (h : c.Tells n) (hc : c.channel = done :: rest) :
    (c.receive done).Tells n := by
  obtain ⟨-, hle, hrest⟩ := h.eq_of_channel hc
  refine ⟨hle, ?_⟩
  rw [Completions.receive, hc]
  exact hrest

/-- When nothing is on its way, the producer knows of all. -/
theorem Tells.eq_of_nil (h : c.Tells n) (hc : c.channel = []) : c.completed = n := by
  obtain ⟨heard, hchannel⟩ := h
  rw [hc] at hchannel
  have hlength := congrArg List.length hchannel
  rw [List.length_range', List.length_nil] at hlength
  omega

end Completions

end RenderStream
