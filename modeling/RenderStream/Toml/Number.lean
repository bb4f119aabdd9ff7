import RenderStream.Toml.Value

/-!
# Bare scalars

What is written without quotes or brackets is one word: a switch, an integer, a float, a date or a
time. A word is classified as a whole, so no part of it is ever left over. Underscores may stand
between digits only; a decimal number has no leading zero; dates and times must exist.
-/

namespace RenderStream.Toml

/-- A number written in a base, most significant digit first. -/
def number (base : Nat) (digit : Char → Nat) (cs : List Char) : Nat :=
  cs.foldl (fun n c => base * n + digit c) 0

def digitValue (c : Char) : Nat :=
  if c.isDigit then c.toNat - '0'.toNat
  else if c.isLower then c.toNat - 'a'.toNat + 10
  else c.toNat - 'A'.toNat + 10

def isHexDigit (c : Char) : Bool := c.isDigit || ('a' ≤ c && c ≤ 'f') || ('A' ≤ c && c ≤ 'F')

/-- A sign in front, negative when it is a minus. -/
def splitSign : List Char → Bool × List Char
  | '-' :: r => (true, r)
  | '+' :: r => (false, r)
  | r => (false, r)

/-- Digits, with single underscores between them left out. -/
def grouped (digit : Char → Bool) : List Char → Option (List Char)
  | [] => none
  | [c] => if digit c then some [c] else none
  | c :: '_' :: r => if digit c then (grouped digit r).map (c :: ·) else none
  | c :: r => if digit c then (grouped digit r).map (c :: ·) else none

def wholePart : List Char → Option (List Char)
  | '0' :: _ :: _ => none
  | cs => grouped Char.isDigit cs

def bounded (n : Int) : Option Int := if isInteger n then some n else none

/-- An integer: decimal with a sign, or in base 16, 8 or 2 without one. -/
def integer? : List Char → Option Int
  | '0' :: 'x' :: r => do bounded (number 16 digitValue (← grouped isHexDigit r))
  | '0' :: 'o' :: r => do bounded (number 8 digitValue (← grouped (fun c => '0' ≤ c && c ≤ '7') r))
  | '0' :: 'b' :: r => do bounded (number 2 digitValue (← grouped (fun c => c = '0' || c = '1') r))
  | cs => do
    let (negative, r) := splitSign cs
    let n := number 10 digitValue (← wholePart r)
    bounded (if negative then -(n : Int) else n)

/-- A power of ten behind a float: nothing, or a letter, a sign and digits. -/
def exponent? : List Char → Option Int
  | [] => some 0
  | _ :: cs => do
    let (negative, r) := splitSign cs
    let n := number 10 digitValue (← grouped Char.isDigit r)
    return if negative then -(n : Int) else n

def isExponentMark (c : Char) : Bool := c = 'e' || c = 'E'

/-- A float: a whole part, and a fraction or an exponent or both. A number too large for the format
is refused, unless it is negative. -/
def float? (cs : List Char) : Option Double := do
  let (negative, r) := splitSign cs
  if r = "inf".toList then return .infinity negative
  if r = "nan".toList then return .build negative (Binary.nan : Double).magnitude
  let whole ← wholePart (r.takeWhile fun c => c != '.' && !isExponentMark c)
  let rest := r.dropWhile fun c => c != '.' && !isExponentMark c
  let fraction ← match rest with
    | '.' :: r => grouped Char.isDigit (r.takeWhile (!isExponentMark ·))
    | [] => none
    | _ => some []
  let e ← exponent? (rest.dropWhile (!isExponentMark ·))
  let x : Double :=
    .ofDecimal negative (number 10 digitValue (whole ++ fraction)) (e - fraction.length)
  if x = .infinity false then none
  return x

/-! ## Dates and times -/

def twoDigits (lo hi : Nat) (a b : Char) : Option Nat :=
  if a.isDigit && b.isDigit then
    let n := 10 * digitValue a + digitValue b
    if lo ≤ n && n ≤ hi then some n else none
  else none

def daysIn (year month : Nat) : Nat :=
  if month = 2 then
    if year % 4 = 0 && (year % 100 != 0 || year % 400 = 0) then 29 else 28
  else if month ∈ [4, 6, 9, 11] then 30
  else 31

def afterDate : List Char → Option (List Char)
  | y₁ :: y₂ :: y₃ :: y₄ :: '-' :: m₁ :: m₂ :: '-' :: d₁ :: d₂ :: rest => do
    let century ← twoDigits 0 99 y₁ y₂
    let year ← twoDigits 0 99 y₃ y₄
    let month ← twoDigits 1 12 m₁ m₂
    let _ ← twoDigits 1 (daysIn (100 * century + year) month) d₁ d₂
    return rest
  | _ => none

/-- What follows a time of day: hours, minutes, seconds and perhaps a fraction of a second. -/
def afterTime : List Char → Option (List Char)
  | h₁ :: h₂ :: ':' :: m₁ :: m₂ :: ':' :: s₁ :: s₂ :: rest => do
    let _ ← twoDigits 0 23 h₁ h₂
    let _ ← twoDigits 0 59 m₁ m₂
    let _ ← twoDigits 0 60 s₁ s₂
    match rest with
    | '.' :: c :: r => if c.isDigit then some (r.dropWhile Char.isDigit) else none
    | '.' :: [] => none
    | r => some r
  | _ => none

/-- The end of a date with a time: nothing, or the distance from universal time. -/
def isOffset : List Char → Bool
  | [] => true
  | ['Z'] | ['z'] => true
  | [s, h₁, h₂, ':', m₁, m₂] =>
    (s = '+' || s = '-') && (twoDigits 0 23 h₁ h₂).isSome && (twoDigits 0 59 m₁ m₂).isSome
  | _ => false

def isDate (cs : List Char) : Bool := afterDate cs = some []

/-- A time of day as it may follow a date. -/
def isZonedTime (cs : List Char) : Bool := (afterTime cs).any isOffset

/-- A date, a time of day, or a date with a time. -/
def isMoment (cs : List Char) : Bool :=
  match afterDate cs with
  | some [] => true
  | some (c :: r) => (c = 'T' || c = 't') && isZonedTime r
  | none => afterTime cs = some []

/-! ## Words -/

def scalar? (cs : List Char) : Option Value :=
  if cs = "true".toList then some (.flag true)
  else if cs = "false".toList then some (.flag false)
  else if isMoment cs then some (.moment (String.ofList cs))
  else (float? cs).map .float <|> (integer? cs).map .integer

/-- What a word consists of: it ends at a blank, at the end of the line, at a comment, or where a
list goes on or ends. -/
def inWord (c : Char) : Bool := !" \t\n\r,]\x7d#".toList.contains c

end RenderStream.Toml
