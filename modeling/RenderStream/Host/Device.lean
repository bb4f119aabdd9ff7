import RenderStream.Host
import RenderStream.Settings

/-!
# The built-in hosts

The closed set of hosts that can be chosen at run time.
-/

namespace RenderStream

/-- A built-in host. -/
inductive Device where
  | null (host : NullHost)
  | recorder (host : Recorder)
  | limited (host : Limited Recorder)
deriving DecidableEq

namespace Device

def ofKind : Settings.HostKind → Device
  | .null => .null {}
  | .recording => .recorder {}

def recorder? : Device → Option Recorder
  | .null _ => none
  | .recorder h => some h
  | .limited h => some h.inner

def mapRecorder (f : Recorder → Recorder) : Device → Device
  | .null h => .null h
  | .recorder h => .recorder (f h)
  | .limited h => .limited { h with inner := f h.inner }

/-- The device lost for the next batches, if it can be lost. -/
def lose (count : Nat) : Device → Device
  | .limited h => .limited { h with losses := count }
  | d => d

/-- The frames counted by a host that keeps nothing. -/
def nullPresents? : Device → Option Nat
  | .null h => some h.presents
  | _ => none

end Device

instance : Host Device where
  name
    | .null h => Host.name h
    | .recorder h => Host.name h
    | .limited h => Host.name h
  limit
    | .null h => Host.limit h
    | .recorder h => Host.limit h
    | .limited h => Host.limit h
  submit batch
    | .null h => (Host.submit batch h).map .null
    | .recorder h => (Host.submit batch h).map .recorder
    | .limited h => (Host.submit batch h).map .limited
  present
    | .null h => (Host.present h).map .null
    | .recorder h => (Host.present h).map .recorder
    | .limited h => (Host.present h).map .limited
  discard
    | .null h => .null (Host.discard h)
    | .recorder h => .recorder (Host.discard h)
    | .limited h => .limited (Host.discard h)

end RenderStream
