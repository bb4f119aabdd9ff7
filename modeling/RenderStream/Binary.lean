import RenderStream.Binary.Format

/-!
# Binary floats

A float is its bit pattern. Patterns are kept exactly, payloads of not-a-numbers and the sign of
zero included, because fingerprints are taken over patterns. Two floats are therefore compared in
two ways: `=` compares patterns, `numEq` compares numbers (a not-a-number equals nothing, the two
zeros are equal).

Order is read off `key`: the magnitude with its sign, an integer. Arithmetic is the exact result
rounded once by `Format.nearest`.
-/

namespace RenderStream

/-- A float of format `f`. -/
structure Binary (f : Format) where
  /-- The pattern: sign, exponent field, fraction. -/
  bits : BitVec f.width
deriving DecidableEq

/-- 32-bit floats. -/
abbrev Single := Binary .single

/-- 64-bit floats. -/
abbrev Double := Binary .double

namespace Binary

variable {f : Format}

/-! ## Patterns -/

def ofBits (n : Nat) : Binary f := ⟨BitVec.ofNat _ n⟩

def build (negative : Bool) (magnitude : Nat) : Binary f :=
  ofBits (if negative then (1 <<< (f.fraction + f.exponent)) + magnitude else magnitude)

def negative (x : Binary f) : Bool := 1 <<< (f.fraction + f.exponent) ≤ x.bits.toNat

def magnitude (x : Binary f) : Nat := x.bits.toNat % (1 <<< (f.fraction + f.exponent))

def isNaN (x : Binary f) : Bool := f.infinity < x.magnitude

def isInfinite (x : Binary f) : Bool := x.magnitude = f.infinity

/-- Neither infinite nor a not-a-number. -/
def isFinite (x : Binary f) : Bool := x.magnitude < f.infinity

/-- The not-a-number that arithmetic answers: quiet, without a sign. -/
def nan : Binary f := build false (f.infinity + (1 <<< (f.fraction - 1)))

def infinity (negative : Bool) : Binary f := build negative f.infinity

def zero (negative : Bool) : Binary f := build negative 0

/-! ## Order -/

/-- The magnitude with its sign: numbers compare as their keys do. -/
def key (x : Binary f) : Int := if x.negative then -(x.magnitude : Int) else x.magnitude

/-- `x < y` as numbers; false when one is not a number. -/
def lt (x y : Binary f) : Bool := !x.isNaN && !y.isNaN && decide (x.key < y.key)

/-- `x ≤ y` as numbers; false when one is not a number. -/
def le (x y : Binary f) : Bool := !x.isNaN && !y.isNaN && decide (x.key ≤ y.key)

/-- Equality of numbers. -/
def numEq (x y : Binary f) : Bool := !x.isNaN && !y.isNaN && x.key == y.key

instance : LT (Binary f) := ⟨fun x y => x.lt y = true⟩
instance : LE (Binary f) := ⟨fun x y => x.le y = true⟩
instance (x y : Binary f) : Decidable (x < y) := inferInstanceAs (Decidable (x.lt y = true))
instance (x y : Binary f) : Decidable (x ≤ y) := inferInstanceAs (Decidable (x.le y = true))

/-- The larger number; the other operand when one is not a number, and of two equal ones the second,
which tells the zeros apart. -/
def max (x y : Binary f) : Binary f := if y.isNaN then x else if y < x then x else y

/-- The smaller number; the other operand when one is not a number, and of two equal ones the
second, which tells the zeros apart. -/
def min (x y : Binary f) : Binary f := if y.isNaN then x else if x < y then x else y

example : (zero true : Single).max (zero false) = zero false := by decide +kernel
example : (zero false : Single).min (zero true) = zero true := by decide +kernel

/-- `x` moved into `[lo, hi]`. A not-a-number stays as it is. -/
def clamp (lo hi x : Binary f) : Binary f :=
  let x := if x < lo then lo else x
  if hi < x then hi else x

/-! ## Exact values and rounding -/

/-- A finite float as a count of the format's smallest positive number. -/
def exact (x : Binary f) : Int :=
  if x.negative then -(f.units x.magnitude : Int) else f.units x.magnitude

/-- The float nearest to `num / den` smallest positive numbers, with the given sign. -/
def round (negative : Bool) (num den : Nat) : Binary f := build negative (f.nearest num den)

/-- The float nearest to the quotient `num / den`. -/
def ofRatio (num : Int) (den : Nat) : Binary f :=
  round (decide (num < 0)) (num.natAbs <<< f.scale) den

def ofInt (n : Int) : Binary f := ofRatio n 1

def ofNat (n : Nat) : Binary f := ofInt n

/-- The float nearest to `m * 10 ^ e`. An exponent far outside the format decides by itself, so no
huge power is taken: `m` has at most as many decimal digits as bits. -/
def ofDecimal (negative : Bool) (m : Nat) (e : Int) : Binary f :=
  if m = 0 then zero negative
  else if (1 <<< f.exponent : Nat) < e then infinity negative
  else if (m.log2 : Int) + 1 + e < -(1 <<< f.exponent : Nat) then zero negative
  else if 0 ≤ e then round negative ((m * Nat.pow 10 e.toNat) <<< f.scale) 1
  else round negative (m <<< f.scale) (Nat.pow 10 (-e).toNat)

/-- The float of another format nearest to `x`. -/
def convert (g : Format) (x : Binary f) : Binary g :=
  if x.isNaN then nan
  else if x.isInfinite then infinity x.negative
  else round x.negative (f.units x.magnitude <<< g.scale) (1 <<< f.scale)

/-- `x` as a 64-bit float, exactly. -/
def widen (x : Single) : Double := x.convert .double

/-- The 32-bit float nearest to `x`. -/
def narrow (x : Double) : Single := x.convert .single

instance (n : Nat) : OfNat (Binary f) n := ⟨ofNat n⟩
instance : OfScientific (Binary f) :=
  ⟨fun m negativeExponent e => ofDecimal false m (if negativeExponent then -(e : Int) else e)⟩
instance : Inhabited (Binary f) := ⟨zero false⟩

/-! ## Arithmetic -/

def neg (x : Binary f) : Binary f := build (!x.negative) x.magnitude

def abs (x : Binary f) : Binary f := build false x.magnitude

/-- The sum. An exact zero is negative only when both operands carry the sign. -/
def add (x y : Binary f) : Binary f :=
  if x.isNaN || y.isNaN then nan
  else if x.isInfinite then if y.isInfinite && x.negative != y.negative then nan else x
  else if y.isInfinite then y
  else
    let s := x.exact + y.exact
    if s = 0 then zero (x.negative && y.negative) else round (decide (s < 0)) s.natAbs 1

def sub (x y : Binary f) : Binary f := x.add y.neg

def mul (x y : Binary f) : Binary f :=
  let s := x.negative != y.negative
  if x.isNaN || y.isNaN then nan
  else if x.isInfinite || y.isInfinite then
    if x.magnitude = 0 || y.magnitude = 0 then nan else infinity s
  else round s (f.units x.magnitude * f.units y.magnitude) (1 <<< f.scale)

def div (x y : Binary f) : Binary f :=
  let s := x.negative != y.negative
  if x.isNaN || y.isNaN then nan
  else if x.isInfinite then if y.isInfinite then nan else infinity s
  else if y.isInfinite then zero s
  else if y.magnitude = 0 then if x.magnitude = 0 then nan else infinity s
  else round s (f.units x.magnitude <<< f.scale) (f.units y.magnitude)

instance : Add (Binary f) := ⟨add⟩
instance : Sub (Binary f) := ⟨sub⟩
instance : Mul (Binary f) := ⟨mul⟩
instance : Div (Binary f) := ⟨div⟩
instance : Neg (Binary f) := ⟨neg⟩

/-- The largest whole number that does not exceed `x`. -/
def floor (x : Binary f) : Binary f :=
  if x.isNaN then nan
  else if x.isInfinite || x.magnitude = 0 then x
  else ofInt (x.exact.fdiv (1 <<< f.scale))

/-! ## Hexadecimal patterns -/

/-- The pattern in lower-case hexadecimal, one digit for every four bits. -/
def toHex (x : Binary f) : String := x.bits.toHex

end Binary

end RenderStream
