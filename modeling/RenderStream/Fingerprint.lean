import RenderStream.Digest
import RenderStream.Encoding

/-!
# Fingerprints

A fingerprint is a 128-bit digest of an encoded value. Compiled display lists are found by their
fingerprint alone, so whatever decides the compiled result has to be in the encoding.
-/

namespace RenderStream

/-- A 128-bit content fingerprint. -/
structure Fingerprint where
  high : UInt64
  low : UInt64
deriving DecidableEq, Inhabited

namespace Fingerprint

def ofBytes (bytes : List UInt8) : Fingerprint :=
  let p := Digest.ofBytes bytes.toByteArray
  ⟨p.high, p.low⟩

/-- The sixteen bytes of a fingerprint, the least significant first. -/
def bytes (a : Fingerprint) : List UInt8 := Encoding.u64 a.low ++ Encoding.u64 a.high

def ofCommand (c : Command) : Fingerprint := ofBytes (Encoding.command c)

def ofCommands (cs : List Command) : Fingerprint := ofBytes (Encoding.commands cs)

/-- One fingerprint mixed into another; the order matters. -/
def combine (a b : Fingerprint) : Fingerprint := ofBytes (a.bytes ++ b.bytes)

/-- The order of fingerprints as 128-bit numbers. -/
def compare (a b : Fingerprint) : Ordering :=
  (Ord.compare a.high b.high).then (Ord.compare a.low b.low)

def hexWord (n : UInt64) : String := n.toBitVec.toHex

/-- The 32 hexadecimal digits of a fingerprint, the most significant first. -/
def toHex (a : Fingerprint) : String := hexWord a.high ++ hexWord a.low

/-- A fingerprint as it is shown when values are inspected. -/
def describe (a : Fingerprint) : String := "Fingerprint(" ++ a.toHex ++ ")"

instance : ToString Fingerprint := ⟨toHex⟩

end Fingerprint

end RenderStream
