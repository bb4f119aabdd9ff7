import RenderStream.Attempt
import RenderStream.Command
import RenderStream.Error

/-!
# Hosts

A host takes batches of commands and presents what it took as a frame. It may refuse a batch or fail
to present; a refused batch is not taken. A frame that is given up is discarded.
-/

namespace RenderStream

/-- What draws. -/
class Host (η : Type) where
  name : η → String
  /-- Longest batch that is taken, when there is a limit. -/
  limit : η → Option Nat
  submit : List Command → η → Attempt HostError η
  /-- Presents what was taken since the last frame. -/
  present : η → Attempt HostError η
  /-- Gives up what was taken since the last frame. -/
  discard : η → η

/-- A host that takes everything and keeps nothing. -/
structure NullHost where
  presents : Nat := 0
deriving DecidableEq, Repr

instance : Host NullHost where
  name _ := "null"
  limit _ := none
  submit _ h := ⟨h, none⟩
  present h := ⟨{ h with presents := h.presents + 1 }, none⟩
  discard h := h

/-- A host that keeps what it was given, and that can be told to fail. -/
structure Recorder where
  batches : Array (List Command) := #[]
  /-- Commands taken since the last frame. -/
  pending : Array Command := #[]
  frames : Array (List Command) := #[]
  discarded : Nat := 0
  /-- Batches still to be refused. -/
  refusals : Nat := 0
  /-- Presents still to fail. -/
  presentFailures : Nat := 0
deriving DecidableEq

namespace Recorder

/-- The recorder with an empty record; failures to come still do. -/
def cleared (h : Recorder) : Recorder :=
  { refusals := h.refusals, presentFailures := h.presentFailures }

end Recorder

instance : Host Recorder where
  name _ := "recording"
  limit _ := none
  submit batch h :=
    if h.refusals = 0 then
      ⟨{ h with batches := h.batches.push batch, pending := h.pending ++ batch }, none⟩
    else ⟨{ h with refusals := h.refusals - 1 }, some (.rejected "injected submit failure")⟩
  present h :=
    if h.presentFailures = 0 then
      ⟨{ h with frames := h.frames.push h.pending.toList, pending := #[] }, none⟩
    else
      ⟨{ h with presentFailures := h.presentFailures - 1 },
        some (.presentFailed "injected present failure")⟩
  discard h := { h with pending := #[], discarded := h.discarded + 1 }

/-- A host that takes batches up to a limit only, and whose device can be lost for a while. -/
structure Limited (η : Type) where
  inner : η
  longest : Option Nat := none
  /-- Batches still to be answered with a lost device. -/
  losses : Nat := 0
deriving DecidableEq

instance {η : Type} [Host η] : Host (Limited η) where
  name _ := "limited"
  limit h := h.longest
  submit batch h :=
    if h.losses = 0 then (Host.submit batch h.inner).map ({ h with inner := · })
    else ⟨{ h with losses := h.losses - 1 }, some .deviceLost⟩
  present h := (Host.present h.inner).map ({ h with inner := · })
  discard h := { h with inner := Host.discard h.inner }

end RenderStream
