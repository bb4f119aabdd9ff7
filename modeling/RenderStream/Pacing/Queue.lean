/-!
# Bounded queues

A queue hands items from one thread to another, oldest first. It never drops one: a producer in
front of a full queue waits. Once the consumer has left, what is queued stays there and every
further item is refused.
-/

namespace RenderStream

/-- A queue of bounded depth with its two ends. -/
structure Queue (α : Type) where
  depth : Nat := 1
  /-- The items that wait, oldest first. -/
  items : List α := []
  /-- Producers that may still push. -/
  producers : Nat := 1
  /-- Whether the consumer is still there. -/
  consumer : Bool := true
  /-- At least one item may wait, or else nothing could ever be handed over. -/
  depth_pos : 0 < depth := by decide
deriving DecidableEq

/-- What becomes of an item at the moment it is offered. -/
inductive Offer where
  | taken
  | full
  /-- Nobody will ever take it. -/
  | refused
deriving DecidableEq, Repr

/-- How an item got into the queue. -/
inductive Delivery where
  | immediate
  | waited
  /-- The wait was longer than a wait should be. -/
  | stalled
deriving DecidableEq, Repr

namespace Delivery

/-- The delivery of an item that had to wait, in time or late. -/
def afterWait (late : Bool) : Delivery := if late then .stalled else .waited

/-- The delivery of an item that had to wait for some time. -/
def ofWait (limit wait : Nat) : Delivery := afterWait (decide (limit < wait))

def isStall (d : Delivery) : Bool := d == .stalled

end Delivery

namespace Queue

variable {α : Type}

/-- An empty queue with one producer; a depth of zero counts as one. -/
def ofDepth (depth : Nat) : Queue α := { depth := max depth 1, depth_pos := by omega }

def isEmpty (q : Queue α) : Bool := q.items.isEmpty

/-- Whether an item would have to wait outside. -/
def isFull (q : Queue α) : Bool := decide (q.depth ≤ q.items.length)

/-- Whether nothing waits and nothing can come any more. -/
def isEnded (q : Queue α) : Bool := q.isEmpty && q.producers == 0

def offer (q : Queue α) (a : α) : Queue α × Offer :=
  if !q.consumer then (q, .refused)
  else if q.isFull then (q, .full)
  else ({ q with items := q.items ++ [a] }, .taken)

def pop? (q : Queue α) : Option (α × Queue α) :=
  match q.items with
  | [] => none
  | a :: rest => some (a, { q with items := rest })

def join (q : Queue α) : Queue α := { q with producers := q.producers + 1 }

def leave (q : Queue α) : Queue α := { q with producers := q.producers - 1 }

def close (q : Queue α) : Queue α := { q with producers := 0 }

/-- No consumer any more. What waits still counts, but nobody will take it. -/
def abandon (q : Queue α) : Queue α := { q with consumer := false }

/-! ## The items -/

/-- An item is taken when there is someone to take it and room, and it comes last. -/
theorem offer_eq_taken {q p : Queue α} {a : α} (h : q.offer a = (p, .taken)) :
    q.consumer = true ∧ q.items.length < q.depth ∧ p = { q with items := q.items ++ [a] } := by
  unfold offer isFull at h
  split at h
  · simp at h
  · next hconsumer =>
    split at h
    · simp at h
    · next hfull =>
      simp only [Prod.mk.injEq, and_true] at h
      exact ⟨by simpa using hconsumer, by simpa using hfull, h.symm⟩

/-- A queue is full when there is someone to take items and some wait. -/
theorem offer_eq_full {q p : Queue α} {a : α} (h : q.offer a = (p, .full)) :
    q.consumer = true ∧ q.items ≠ [] := by
  unfold offer isFull at h
  split at h
  · simp at h
  · next hconsumer =>
    split at h
    · next hfull =>
      refine ⟨by simpa using hconsumer, fun hitems => ?_⟩
      rw [hitems, decide_eq_true_eq] at hfull
      exact Nat.not_lt.2 hfull q.depth_pos
    · simp at h

/-- An item is refused when there is no one to take it. -/
theorem offer_eq_refused {q p : Queue α} {a : α} (h : q.offer a = (p, .refused)) :
    q.consumer = false := by
  unfold offer at h
  split at h
  · next hconsumer => simpa using hconsumer
  · split at h <;> simp at h

/-- An item is popped when it is the first one. -/
theorem pop?_eq_some {q p : Queue α} {a : α} :
    q.pop? = some (a, p) ↔ q.items = a :: p.items ∧ p = { q with items := p.items } := by
  unfold pop?
  constructor
  · intro h
    split at h
    · simp at h
    · simp only [Option.some.injEq, Prod.mk.injEq] at h
      obtain ⟨rfl, rfl⟩ := h
      simp_all
  · rintro ⟨h, hp⟩
    rw [h, hp]

/-- Nothing is popped when nothing waits. -/
theorem pop?_eq_none {q : Queue α} : q.pop? = none ↔ q.items = [] := by
  unfold pop?
  split <;> simp_all

end Queue

end RenderStream
