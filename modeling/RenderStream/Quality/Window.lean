import RenderStream.Quality.Levels

/-!
# Load history

The last samples, up to a capacity of at least one, and the sum of their frame times. The sum is
kept in 64 bits from frame to frame: what leaves the window is taken off, what enters is added.
Extremes are taken from the samples themselves.
-/

namespace RenderStream

/-- The frame times of a window. -/
structure FrameTimes where
  least : Single := 0
  mean : Single := 0
  greatest : Single := 0
deriving DecidableEq

/-- The samples remembered. -/
structure Window where
  capacity : Nat
  /-- The samples, the oldest first. -/
  samples : List Sample := []
  total : Double := 0
deriving DecidableEq

namespace Window

def empty (capacity : Nat) : Window := { capacity := max capacity 1 }

def evict (w : Window) : Window :=
  match w.samples with
  | [] => w
  | old :: rest => { w with samples := rest, total := w.total - old.time.widen }

/-- The window with one more sample; a full window loses its oldest one first. -/
def push (w : Window) (s : Sample) : Window :=
  let w := if w.samples.length = w.capacity then w.evict else w
  { w with samples := w.samples ++ [s], total := w.total + s.time.widen }

def latest? (w : Window) : Option Sample := w.samples.getLast?

/-- The frame times; zero when the window is empty. -/
def frameTimes (w : Window) : FrameTimes :=
  if w.samples.isEmpty then {}
  else
    { least := w.samples.foldl (fun t s => t.min s.time) (.infinity false)
      mean := (w.total / .ofNat w.samples.length : Double).narrow
      greatest := w.samples.foldl (fun t s => t.max s.time) (.infinity true) }

end Window

end RenderStream
