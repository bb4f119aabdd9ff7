/-!
# Binary interchange formats

A binary interchange format has a sign bit, an exponent field and a fraction. Its *magnitude*
patterns (the pattern without the sign) are read as natural numbers: `units` counts how many
smallest positive numbers a finite magnitude is worth, and `nearest` is the magnitude closest to a
quotient of natural numbers, a tie going to the even pattern. Everything finite is therefore exact
integer arithmetic, and every rounding in the library is one call of `nearest`.
-/

namespace RenderStream

/-- A format, given by the widths of its two fields. -/
structure Format where
  /-- Stored bits of the significand. -/
  fraction : Nat
  /-- Bits of the exponent field. -/
  exponent : Nat
deriving DecidableEq, Repr

/-- `num / den` rounded to the nearest natural number, a tie going to the even one. -/
def divNearest (num den : Nat) : Nat :=
  let q := num / den
  let r := num % den
  if 2 * r < den then q else if den < 2 * r then q + 1 else q + q % 2

namespace Format

abbrev single : Format := ⟨23, 8⟩

abbrev double : Format := ⟨52, 11⟩

/-- Width of a pattern: sign, exponent field and fraction. -/
abbrev width (f : Format) : Nat := f.fraction + f.exponent + 1

/-- The magnitude of infinity. Smaller magnitudes are finite, larger ones are not numbers. -/
def infinity (f : Format) : Nat := ((1 <<< f.exponent) - 1) <<< f.fraction

/-- `2 ^ scale` smallest positive numbers make one. -/
def scale (f : Format) : Nat := (1 <<< (f.exponent - 1)) - 2 + f.fraction

/-- How many smallest positive numbers a finite magnitude is worth. -/
def units (f : Format) (m : Nat) : Nat :=
  if m < 1 <<< f.fraction then m
  else ((1 <<< f.fraction) + m % (1 <<< f.fraction)) <<< ((m >>> f.fraction) - 1)

/-- The magnitude nearest to `num / den` smallest positive numbers. Dropping `e` low bits leaves a
significand `k` of at most `fraction + 1` bits (or the next power of two), and `e * 2 ^ fraction +
k` is the pattern of `k * 2 ^ e`; what lies beyond the largest finite magnitude is infinite. -/
def nearest (f : Format) (num den : Nat) : Nat :=
  let e := (num / den).log2 - f.fraction
  min ((e <<< f.fraction) + divNearest num (den <<< e)) f.infinity

example : single.infinity = 0x7f800000 ∧ double.infinity = 0x7ff0000000000000 := by decide
example : single.scale = 149 ∧ double.scale = 1074 := by decide
example : single.nearest (2 ^ 149) 1 = 0x3f800000 := by decide +kernel
example : single.units 0x3f800000 = 2 ^ 149 := by decide +kernel

end Format

end RenderStream
