import RenderStream.Error
import RenderStream.Settings.Codec

/-!
# Settings as text

Reading mends what is out of range, so only a malformed text is refused. Writing is refused when a
number does not fit into a document.
-/

namespace RenderStream.Settings

open Toml (Value)

mutual

/-- Whether every integer in a value fits into a document. -/
def fits : Value → Bool
  | .integer n => Toml.isInteger n
  | .array elements => allFit elements
  | .table entries => entriesFit entries
  | _ => true

/-- Whether every integer in some values fits into a document. -/
def allFit : List Value → Bool
  | [] => true
  | v :: rest => fits v && allFit rest

/-- Whether every integer under some keys fits into a document. -/
def entriesFit : List (String × Value) → Bool
  | [] => true
  | (_, v) :: rest => fits v && entriesFit rest

end

/-- The settings in a document, in range. -/
def ofDocument (entries : List (String × Value)) : Option Settings :=
  (codec.decode (.table entries)).map repaired

/-- The settings as a document, if every number fits. -/
def toDocument (s : Settings) : Option (List (String × Value)) := do
  let v := codec.encode s
  if fits v then v.entries? else none

def parse (text : String) : Except SettingsError Settings :=
  match Toml.read text >>= ofDocument with
  | some s => .ok s
  | none => .error .malformed

def write (s : Settings) : Except SettingsError String :=
  match s.toDocument with
  | some entries => .ok (Toml.print entries)
  | none => .error .unwritable

def parseBytes (path : String) (bytes : ByteArray) : Except SettingsError Settings :=
  match String.fromUTF8? bytes with
  | some text => parse text
  | none => .error (.unreadable path "stream did not contain valid UTF-8")

end RenderStream.Settings
