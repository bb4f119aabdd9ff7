import RenderStream.Culling

/-!
# Compiled display lists

A display list is compiled by culling it once, in the state in which it is called. Particles are
counted from the start of the list. What is left out is only counted.
-/

namespace RenderStream

/-- A display list after culling. -/
structure CompiledList where
  commands : List Command := []
  counts : CullCounts := {}
  /-- Area of all that is drawn. -/
  covered : Single := 0
  draws : UInt32 := 0
deriving DecidableEq

namespace CompiledList

/-- The state of a compilation. -/
structure Progress where
  culling : Culling
  /-- Particles so far. -/
  ordinal : UInt32 := 0
  covered : Single := 0
  draws : UInt32 := 0

/-- The place of the next particle, behind a primitive. -/
def nextOrdinal (ordinal : UInt32) (p : Primitive) : UInt32 :=
  if p.kind = .particle then ordinal + 1 else ordinal

/-- One command: whether it is sent. -/
def Progress.step (s : Progress) : Command → Progress × Bool
  | .set slot value => ({ s with culling := s.culling.observe slot value }, true)
  | .draw p =>
    let (culling, verdict) := s.culling.judge p s.ordinal
    let s := { s with culling, ordinal := nextOrdinal s.ordinal p }
    if verdict = .keep then
      ({ s with covered := s.covered + p.area, draws := s.draws + 1 }, true)
    else (s, false)
  | .clear _ _ => (s, true)
  | .barrier => (s, true)

/-- The commands sent, and the state behind them. -/
def Progress.run (s : Progress) : List Command → List Command × Progress
  | [] => ([], s)
  | c :: rest =>
    let (next, sent) := s.step c
    let (out, final) := next.run rest
    (if sent then c :: out else out, final)

/-- A display list compiled in the state of a stream. -/
def compile (culling : Culling) (commands : List Command) : CompiledList :=
  let start : Progress := { culling := { culling with counts := {} } }
  let (sent, final) := start.run commands
  { commands := sent
    counts := final.culling.counts
    covered := final.covered
    draws := final.draws }

end CompiledList

end RenderStream
