import RenderStream.Binary

/-!
# Decimal text of floats

Two ways to write a float in decimal. `shortest` is the coarsest decimal grid on which a neighbour
of the float reads back as the float, and the nearer of two such neighbours; `fixed` rounds to a
given number of places, a tie going to the even digit. Both are positional: no exponent is ever
written.
-/

namespace RenderStream

/-- The number `digits * 10 ^ exponent`. -/
structure Decimal where
  /-- The digits, as a number. -/
  digits : Nat
  /-- The power of ten. -/
  exponent : Int
deriving DecidableEq, Repr

namespace Decimal

def toBinary (f : Format) (d : Decimal) : Binary f := .ofDecimal false d.digits d.exponent

/-- `num / den` as a multiple of `10 ^ exponent`: numerator and denominator. -/
def onGrid (exponent : Int) (num den : Nat) : Nat × Nat :=
  if 0 ≤ exponent then (num, den * Nat.pow 10 exponent.toNat)
  else (num * Nat.pow 10 (-exponent).toNat, den)

/-- The neighbours of `num / den` on the grid of `10 ^ exponent`, the nearer one first. -/
def neighbours (exponent : Int) (num den : Nat) : List Decimal :=
  let (n, d) := onGrid exponent num den
  let below := ⟨n / d, exponent⟩
  let above := ⟨n / d + 1, exponent⟩
  if 2 * (n % d) < d then [below, above] else [above, below]

/-- The coarsest of the grids `10 ^ (k - scale)`, `k ≤ n`, on which a neighbour of the magnitude `m`
reads back as `m`. The grid of `10 ^ -scale` holds the magnitude itself. -/
def search (f : Format) (m : Nat) : Nat → Decimal
  | 0 => ⟨f.units m * Nat.pow 5 f.scale, -f.scale⟩
  | n + 1 =>
    let near := neighbours ((n : Int) + 1 - f.scale) (f.units m) (1 <<< f.scale)
    match near.find? (fun d => (d.toBinary f).magnitude == m) with
    | some d => d
    | none => search f m n

/-- A power of ten that `num / den` does not reach, for `num / den < 2 ^ bits`. -/
def ceiling (bits : Int) : Int := if 0 ≤ bits then bits / 3 + 1 else -(-bits / 4)

/-- The shortest decimal that reads back as a finite magnitude. -/
def shortest (f : Format) (m : Nat) : Decimal :=
  search f m (ceiling ((f.units m).log2 + 1 - f.scale) + f.scale).toNat

/-- Digits on both sides of a point that has `places` digits behind it. -/
def point (digits places : Nat) : String :=
  let text := (Nat.toDigits 10 digits).leftpad (places + 1) '0'
  String.ofList (text.take (text.length - places)) ++ "." ++
    String.ofList (text.drop (text.length - places))

/-- The decimal without an exponent, and with at least one digit behind the point. -/
def positional (d : Decimal) : String :=
  if 0 ≤ d.exponent then toString (d.digits * Nat.pow 10 d.exponent.toNat) ++ ".0"
  else point d.digits (-d.exponent).toNat

end Decimal

namespace Binary

variable {f : Format}

def signText (x : Binary f) : String := if x.negative then "-" else ""

/-- The shortest decimal that reads back as the float. -/
def toShortest (x : Binary f) : String :=
  if x.isNaN then "nan"
  else if x.isInfinite then x.signText ++ "inf"
  else if x.magnitude = 0 then x.signText ++ "0.0"
  else x.signText ++ (Decimal.shortest f x.magnitude).positional

/-- The float rounded to a number of decimal places. -/
def toFixed (places : Nat) (x : Binary f) : String :=
  if x.isNaN then "NaN"
  else if x.isInfinite then x.signText ++ "inf"
  else
    let n := divNearest (f.units x.magnitude * Nat.pow 10 places) (1 <<< f.scale)
    x.signText ++ if places = 0 then toString n else Decimal.point n places

end Binary

end RenderStream
