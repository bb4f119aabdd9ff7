import RenderStream.Decimal
import RenderStream.Toml.Reader

/-!
# Writing documents

Plain entries come first, then a block for every table and for every element of an array of tables,
each behind its header and a blank line. A string is written in the plainest form that can hold
it: between quotes, as it stands between apostrophes, or with either of them three times. Between
quotes a tab is always escaped; what else needs an escape is avoided where another form can do it.
-/

namespace RenderStream.Toml

/-! ## Strings -/

def longestRun (c : Char) (s : List Char) : Nat :=
  (s.foldl (fun (best, run) d => if d = c then (max best (run + 1), run + 1) else (best, 0))
    (0, 0)).1

/-- A character that only an escape can stand for. -/
def needsCode (c : Char) : Bool := (c < ' ' && c != '\t' && c != '\n') || c = '\x7f'

def codeEscape (c : Char) : String :=
  "\\u" ++ String.ofList (((Nat.toDigits 16 c.toNat).map Char.toUpper).leftpad 4 '0')

def escape (triple : Bool) (c : Char) : String :=
  if c = '\x08' then "\\b"
  else if c = '\t' then "\\t"
  else if c = '\n' then if triple then "\n" else "\\n"
  else if c = '\x0c' then "\\f"
  else if c = '\r' then "\\r"
  else if c = '\\' then "\\\\"
  else if needsCode c then codeEscape c
  else c.toString

/-- The body of a string between quotes. `quotes` counts the quotes written in a row: between single
ones each is escaped, between triple ones only a third. -/
def escapeAll (triple : Bool) : Nat → List Char → String
  | _, [] => ""
  | quotes, '"' :: r =>
    if triple && quotes < 2 then "\"" ++ escapeAll triple (quotes + 1) r
    else "\\\"" ++ escapeAll triple 0 r
  | _, c :: r => escape triple c ++ escapeAll triple 0 r

def quote (text : String) : String :=
  let s := text.toList
  let lines := s.contains '\n'
  let coded := s.any needsCode
  let slashed := s.contains '\\'
  let doubles := longestRun '"' s
  let singles := longestRun '\'' s
  let start := if lines then "\n" else ""
  let escaped (triple : Bool) : String :=
    let delimiter := if triple then "\"\"\"" else "\""
    delimiter ++ start ++ escapeAll triple 0 s ++ delimiter
  if !coded && !slashed && doubles = 0 && !lines then escaped false
  else if !coded && singles = 0 && !lines then "'" ++ text ++ "'"
  else if !coded && !slashed && doubles ≤ 2 then escaped true
  else if !coded && singles ≤ 2 then "'''" ++ start ++ text ++ "'''"
  else escaped lines

example : quote "a\tb" = "\"a\\tb\"" := by decide +kernel
example : quote "x\t\"y\"'" = "\"\"\"x\\t\"y\"'\"\"\"" := by decide +kernel
example : quote "\\\t" = "'\\\t'" := by decide +kernel

/-! ## Entries and blocks -/

def printKey (key : String) : String :=
  if key.toList.all isBare && !key.isEmpty then key else quote key

mutual

def Value.print : Value → String
  | .text s => quote s
  | .integer n => toString n
  | .float x => x.toShortest
  | .flag on => if on then "true" else "false"
  | .moment written => written
  | .array elements => "[" ++ ", ".intercalate (printElements elements) ++ "]"
  | .table entries => "\x7b" ++ ", ".intercalate (printEntries entries) ++ "\x7d"

def printElements : List Value → List String
  | [] => []
  | v :: rest => v.print :: printElements rest

def printEntries : List (String × Value) → List String
  | [] => []
  | (key, v) :: rest => (printKey key ++ " = " ++ v.print) :: printEntries rest

end

def Value.entries? : Value → Option (List (String × Value))
  | .table entries => some entries
  | _ => none

/-- The blocks that a value takes: one for a table, one for each element of an array of tables, none
for what is written within a line. -/
def Value.blocks (key : String) : Value → List (List String)
  | .table entries => [("[" ++ printKey key ++ "]") :: printEntries entries]
  | .array elements =>
    match elements.mapM Value.entries? with
    | some tables =>
      tables.map fun entries => ("[[" ++ printKey key ++ "]]") :: printEntries entries
    | none => []
  | _ => []

def print (entries : List (String × Value)) : String :=
  let plain := entries.filter fun (key, v) => (v.blocks key).isEmpty
  let blocks := printEntries plain :: entries.flatMap fun (key, v) => v.blocks key
  "\n".intercalate
    ((blocks.filter (!·.isEmpty)).map fun lines => String.join (lines.map (· ++ "\n")))

end RenderStream.Toml
