import RenderStream.Binary

/-!
# Document trees

A TOML document is a table: keys with values, in the order of their first mention. A value is a
scalar, an array of values or another table. Dates and times are kept as they are written.
-/

namespace RenderStream.Toml

/-- A value of a document. -/
inductive Value where
  | text (s : String)
  | integer (n : Int)
  | float (x : Double)
  | flag (on : Bool)
  /-- A date, a time of day, or both. -/
  | moment (written : String)
  | array (elements : List Value)
  | table (entries : List (String × Value))

/-- The integers a document can hold are those of 64 bits with a sign. -/
def isInteger (n : Int) : Bool := -0x8000000000000000 ≤ n && n < 0x8000000000000000

/-- The nesting of values, and the parts of a dotted key, stay below this bound. -/
def depthLimit : Nat := 80

end RenderStream.Toml
