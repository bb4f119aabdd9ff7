/-!
# Errors

One type of error for each layer, by cause, with its wording.
-/

namespace RenderStream

/-- What can go wrong with settings. -/
inductive SettingsError where
  | unreadable (path reason : String)
  /-- The text is not a document, or a field has a value of another kind. -/
  | malformed
  /-- A number is too large for a document. -/
  | unwritable
deriving DecidableEq, Repr

/-- What can go wrong on the host. -/
inductive HostError where
  | rejected (reason : String)
  | presentFailed (reason : String)
  | deviceLost
deriving DecidableEq, Repr

/-- Why the frame pipeline stops. -/
inductive PipelineError where
  /-- Too many frames in a row were lost; the last one to this cause. -/
  | framesLost (count : UInt32) (last : HostError)
deriving DecidableEq, Repr

/-- What can go wrong between the producer and the stages. -/
inductive PacingError where
  | graphicsStopped
  | audioStopped
  | poolClosed
  | jobsPanicked (count : Nat)
  | spawnFailed (reason : String)
deriving DecidableEq, Repr

def SettingsError.message : SettingsError → String
  | .unreadable path reason => "cannot read config file " ++ path ++ ": " ++ reason
  | .malformed => "invalid config"
  | .unwritable => "cannot serialize config"

def HostError.message : HostError → String
  | .rejected reason => "batch submission rejected: " ++ reason
  | .presentFailed reason => "present failed: " ++ reason
  | .deviceLost => "host device lost"

def PipelineError.message : PipelineError → String
  | .framesLost count last =>
    toString count ++ " consecutive frames failed, last error: " ++ last.message

def PacingError.message : PacingError → String
  | .graphicsStopped => "graphics thread stopped"
  | .audioStopped => "audio thread stopped"
  | .poolClosed => "worker pool closed"
  | .jobsPanicked count => toString count ++ " worker job(s) panicked"
  | .spawnFailed reason => "failed to spawn thread: " ++ reason

end RenderStream
