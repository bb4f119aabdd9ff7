import RenderStream.Host

/-!
# Batches

Commands wait in a buffer and reach the host in the order in which they came. The buffer is flushed
when it is full and another command comes, before a command that opens a batch, behind a command
that closes one, and at the end of the frame. A batch that the host refuses stays in the buffer.
-/

namespace RenderStream

/-- Counts of one frame. -/
structure BatchCounts where
  batches : UInt32 := 0
  commands : UInt32 := 0
  /-- Flushes asked for by a command. -/
  forced : UInt32 := 0
  /-- Flushes of a full buffer. -/
  full : UInt32 := 0
deriving DecidableEq

/-- A host with a buffer in front of it. -/
structure Batch (η : Type) where
  host : η
  capacity : Nat
  buffer : Array Command := #[]
  counts : BatchCounts := {}

namespace Batch

variable {η : Type} [Host η]

/-- An empty buffer in front of a host. It holds at least one command, and no more than the host
takes. -/
def ofHost (host : η) (capacity : Nat) : Batch η :=
  { host, capacity := max 1 (((Host.limit host).map (min capacity)).getD capacity) }

def flush (b : Batch η) : Attempt HostError (Batch η) :=
  if b.buffer.isEmpty then ⟨b, none⟩
  else
    let r := Host.submit b.buffer.toList b.host
    match r.failure with
    | some e => ⟨{ b with host := r.state }, some e⟩
    | none =>
      ⟨{ b with
          host := r.state
          buffer := #[]
          counts := { b.counts with
            batches := b.counts.batches + 1
            commands := b.counts.commands + .ofNat b.buffer.size } }, none⟩

/-- A flush asked for by a command. -/
def force (b : Batch η) : Attempt HostError (Batch η) :=
  flush { b with counts := { b.counts with forced := b.counts.forced + 1 } }

/-- The buffer flushed before a command that opens a batch. -/
def opening (c : Command) (b : Batch η) : Attempt HostError (Batch η) :=
  if c.opensBatch && !b.buffer.isEmpty then b.force else ⟨b, none⟩

def makeRoom (b : Batch η) : Attempt HostError (Batch η) :=
  if b.capacity ≤ b.buffer.size then
    flush { b with counts := { b.counts with full := b.counts.full + 1 } }
  else ⟨b, none⟩

/-- A command put into the buffer, which is flushed when the command closes a batch. -/
def append (c : Command) (b : Batch η) : Attempt HostError (Batch η) :=
  let b := { b with buffer := b.buffer.push c }
  if c.closesBatch then b.force else ⟨b, none⟩

def accept (b : Batch η) (c : Command) : Attempt HostError (Batch η) :=
  ((b.opening c).andThen makeRoom).andThen (append c)

def present (b : Batch η) : Attempt HostError (Batch η) :=
  b.flush.andThen fun b => (Host.present b.host).map ({ b with host := · })

def discard (b : Batch η) : Batch η :=
  { b with buffer := #[], host := Host.discard b.host }

end Batch

end RenderStream
