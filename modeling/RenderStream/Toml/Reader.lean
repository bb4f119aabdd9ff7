import RenderStream.Toml.Number
import RenderStream.Toml.Tree

/-!
# Reading documents

A reader takes a prefix of the input and answers what it read and what is left. Repetition is
`many`, which ends where its piece no longer fits; every piece here takes at least one character.
Nested values are read under a depth budget, which is the bound on nesting itself.
-/

namespace RenderStream.Toml

/-- A reader of a prefix: what was read, and the rest of the input. -/
abbrev Reader (α : Type) := List Char → Option (α × List Char)

/-- Pieces one after another, as long as they fit. A piece that takes nothing ends the run. -/
def many {α : Type} (piece : Reader α) (s : List Char) : List α × List Char :=
  match piece s with
  | none => ([], s)
  | some (a, rest) =>
    if rest.length < s.length then
      let (more, final) := many piece rest
      (a :: more, final)
    else ([], s)
termination_by s.length

def exactly (c : Char) : List Char → Option (List Char)
  | d :: r => if d = c then some r else none
  | [] => none

/-! ## Blanks, comments, line ends -/

def isBlank (c : Char) : Bool := c = ' ' || c = '\t'

def skipBlanks (s : List Char) : List Char := s.dropWhile isBlank

/-- The input behind a line end. A carriage return counts only before a line feed. -/
def newline? : List Char → Option (List Char)
  | '\n' :: r => some r
  | '\r' :: '\n' :: r => some r
  | _ => none

/-- A character that may stand in comments and strings: no control character but the tab. -/
def isPlain (c : Char) : Bool := c = '\t' || (' ' ≤ c && c != '\x7f')

/-- The input behind a comment, if there is one. -/
def skipComment : List Char → List Char
  | '#' :: r => r.dropWhile isPlain
  | s => s

/-- The input behind what may end a line: blanks, a comment, the line end. -/
def lineTail? (s : List Char) : Option (List Char) :=
  match skipComment (skipBlanks s) with
  | [] => some []
  | r => newline? r

def space? : Reader Unit
  | c :: r => if isBlank c then some ((), r) else (newline? (c :: r)).map ((), ·)
  | [] => none

/-- A blank, a line end, or a comment with its line end. -/
def filler? : Reader Unit
  | '#' :: r => (newline? (r.dropWhile isPlain)).map ((), ·)
  | s => space? s

def skipFiller (s : List Char) : List Char := (many filler? s).2

/-! ## Strings -/

def codePoint? (digits : List Char) : Option Char :=
  let n := number 16 digitValue digits
  if digits.all isHexDigit && (n < 0xd800 || (0xe000 ≤ n && n < 0x110000)) then some (Char.ofNat n)
  else none

/-- A character by a number of `n` hexadecimal digits. -/
def codeEscape? (n : Nat) : Reader Char := fun s =>
  if (s.take n).length = n then (codePoint? (s.take n)).map (·, s.drop n) else none

def escape? : Reader Char
  | 'b' :: r => some ('\x08', r)
  | 't' :: r => some ('\t', r)
  | 'n' :: r => some ('\n', r)
  | 'f' :: r => some ('\x0c', r)
  | 'r' :: r => some ('\r', r)
  | '"' :: r => some ('"', r)
  | '\\' :: r => some ('\\', r)
  | 'u' :: r => codeEscape? 4 r
  | 'U' :: r => codeEscape? 8 r
  | _ => none

def basicPiece : Reader (List Char)
  | '\\' :: r => (escape? r).map fun (c, rest) => ([c], rest)
  | c :: r => if isPlain c && c != '"' then some ([c], r) else none
  | [] => none

def literalPiece : Reader (List Char)
  | c :: r => if isPlain c && c != '\'' then some ([c], r) else none
  | [] => none

/-- A line end within a string of several lines; it is read as a line feed. -/
def newlinePiece : Reader (List Char) := fun s => (newline? s).map (['\n'], ·)

/-- A quote within a string that three of them end. -/
def quotePiece (quote : Char) : Reader (List Char)
  | a :: r => if a = quote && r.take 2 != [quote, quote] then some ([quote], r) else none
  | [] => none

/-- A backslash at the end of a line: the line end and all blanks and lines that follow are left
out. -/
def continuation : Reader (List Char)
  | '\\' :: r => (newline? (skipBlanks r)).map fun rest => ([], (many space? rest).2)
  | _ => none

/-- One piece of a string in three double quotes. -/
def basicLinesPiece : Reader (List Char) := fun s =>
  continuation s <|> basicPiece s <|> newlinePiece s <|> quotePiece '"' s

/-- One piece of a string in three single quotes. -/
def literalLinesPiece : Reader (List Char) := fun s =>
  literalPiece s <|> newlinePiece s <|> quotePiece '\'' s

/-- The body of a string on one line, up to its closing quote. -/
def lineBody (quote : Char) (piece : Reader (List Char)) : Reader String := fun s => do
  let (pieces, rest) := many piece s
  return (String.ofList pieces.flatten, ← exactly quote rest)

/-- The body of a string of several lines. A line end right behind the opening quotes is left out,
and up to two quotes may stand right before the three that close. -/
def linesBody (quote : Char) (piece : Reader (List Char)) : Reader String := fun s => do
  let (pieces, rest) := many piece ((newline? s).getD s)
  let run := (rest.takeWhile (· == quote)).length
  if run < 3 then none
  let extra := min (run - 3) 2
  return (String.ofList (pieces.flatten ++ .replicate extra quote), rest.drop (extra + 3))

def string? : Reader String
  | '"' :: '"' :: '"' :: r => linesBody '"' basicLinesPiece r
  | '"' :: r => lineBody '"' basicPiece r
  | '\'' :: '\'' :: '\'' :: r => linesBody '\'' literalLinesPiece r
  | '\'' :: r => lineBody '\'' literalPiece r
  | _ => none

/-! ## Keys -/

def isBare (c : Char) : Bool := c.isAlphanum || c = '_' || c = '-'

def part? : Reader String
  | '"' :: r => lineBody '"' basicPiece r
  | '\'' :: r => lineBody '\'' literalPiece r
  | s =>
    let word := s.takeWhile isBare
    if word.isEmpty then none else some (String.ofList word, s.dropWhile isBare)

/-- One part of a key, with the blanks around it. -/
def spacedPart? : Reader String := fun s => do
  let (key, rest) ← part? (skipBlanks s)
  return (key, skipBlanks rest)

def nextPart? : Reader String := fun s => do spacedPart? (← exactly '.' s)

def path? : Reader Path := fun s => do
  let (first, rest) ← spacedPart? s
  let (more, rest) := many nextPart? rest
  let parts := first :: more
  if depthLimit ≤ parts.length then none
  return (⟨parts.dropLast, parts.getLastD first⟩, rest)

/-! ## Values -/

/-- A word. A date may be followed by a blank and a time. -/
def word? : Reader Value := fun s => do
  let word := s.takeWhile inWord
  let rest := s.dropWhile inWord
  let v ← scalar? word
  match rest with
  | ' ' :: r =>
    let time := r.takeWhile inWord
    if isDate word && isZonedTime time then
      return (.moment (String.ofList (word ++ ' ' :: time)), r.dropWhile inWord)
    else return (v, rest)
  | _ => return (v, rest)

/-- An element of an array, with the filler around it. -/
def element? (value : Reader Value) : Reader Value := fun s => do
  let (v, rest) ← value (skipFiller s)
  return (v, skipFiller rest)

/-- An array behind its opening bracket. A comma may follow the last element. -/
def array? (value : Reader Value) : Reader Value := fun s => do
  match element? value s with
  | none => return (.array [], ← exactly ']' (skipFiller s))
  | some (first, rest) =>
    let (more, rest) := many (fun s => do element? value (← exactly ',' s)) rest
    let rest := skipFiller ((exactly ',' rest).getD rest)
    return (.array (first :: more), ← exactly ']' rest)

/-- An entry: a key, an equals sign and a value. -/
def entry? (value : Reader Value) : Reader (Path × Value) := fun s => do
  let (key, rest) ← path? s
  let (v, rest) ← value (skipBlanks (← exactly '=' rest))
  return ((key, v), rest)

/-- An entry of an inline table, with the blanks behind it. -/
def inlineEntry? (value : Reader Value) : Reader (Path × Value) := fun s => do
  let (e, rest) ← entry? value s
  return (e, skipBlanks rest)

/-- An inline table behind its opening brace. No comma follows the last entry. -/
def inlineTable? (value : Reader Value) : Reader Value := fun s => do
  let (entries, rest) :=
    match inlineEntry? value s with
    | none => ([], skipBlanks s)
    | some (first, rest) =>
      let (more, rest) := many (fun s => do inlineEntry? value (← exactly ',' s)) rest
      (first :: more, rest)
  let rest ← exactly '}' rest
  return (.table (← assembleInline entries), rest)

/-- A value, with `depth` levels of nesting left. -/
def value? : Nat → Reader Value
  | depth, s =>
    match s with
    | '"' :: _ | '\'' :: _ => (string? s).map fun (t, rest) => (.text t, rest)
    | '[' :: r =>
      match depth with
      | 0 => none
      | depth + 1 => array? (value? depth) r
    | '{' :: r =>
      match depth with
      | 0 => none
      | depth + 1 => inlineTable? (value? depth) r
    | _ => word? s

/-! ## Documents -/

def header? : Reader Statement
  | '[' :: r => do
    let (key, rest) ← path? r
    return (.element key, ← exactly ']' (← exactly ']' rest))
  | r => do
    let (key, rest) ← path? r
    return (.table key, ← exactly ']' rest)

/-- A line: nothing, a comment, a header or an entry. -/
def line? : Reader (Option Statement) := fun s =>
  match skipBlanks s with
  | [] => none
  | '[' :: r => do
    let (h, rest) ← header? r
    return (some h, ← lineTail? rest)
  | c :: r =>
    if c = '#' || c = '\n' || c = '\r' then (lineTail? (c :: r)).map (none, ·)
    else do
      let ((key, v), rest) ← entry? (value? (depthLimit - 1)) (c :: r)
      return (some (.entry key v), ← lineTail? rest)

def statements? (s : List Char) : Option (List Statement) :=
  let (lines, rest) := many line? s
  if (skipBlanks rest).isEmpty then some (lines.filterMap id) else none

/-- The input behind a byte order mark, if there is one. -/
def skipMark : List Char → List Char
  | '\ufeff' :: r => r
  | s => s

/-- The document written in a text, if it is well-formed. -/
def read (text : String) : Option (List (String × Value)) := do
  assemble (← statements? (skipMark text.toList))

end RenderStream.Toml
