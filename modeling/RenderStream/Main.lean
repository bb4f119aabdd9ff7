import RenderStream.Replay
import RenderStream.Settings.Text

/-!
# The command line

Replays the load trace under the settings in a file, or under settings of its own.
-/

namespace RenderStream

def loadSettings (path : String) : IO (Except SettingsError Settings) := do
  match ← (IO.FS.readBinFile path).toBaseIO with
  | .ok bytes => return Settings.parseBytes path bytes
  | .error e => return .error (.unreadable path (toString e))

def replay (settings : Settings) : IO UInt32 := do
  let (lines, clean) := Replay.run settings 1
  lines.forM IO.println
  return if clean then 0 else 1

end RenderStream

open RenderStream in
/-- Takes the path of a settings file, if any. -/
def main (args : List String) : IO UInt32 := do
  match args with
  | [] => replay Replay.defaults
  | path :: _ =>
    match ← loadSettings path with
    | .ok settings => replay settings
    | .error e =>
      IO.eprintln e.message
      return 1
