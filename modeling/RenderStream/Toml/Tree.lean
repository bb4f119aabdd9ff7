import RenderStream.Toml.Value

/-!
# Assembling a document

A document is a sequence of statements: an entry under a key, or a header that opens a table or one
more element of an array of tables. A key is a path. `Tree` is a document under construction; it
remembers how each table came about, because a table is opened once only:

- a header may open a table that so far was only passed through by longer headers;
- a dotted key may pass through tables that came about by passing, and may put its value only where
  dotted keys opened the table;
- entries and headers after a header belong to the element last added to an array of tables.
-/

namespace RenderStream.Toml

/-- A key: where it starts from, table by table, and its last part. -/
structure Path where
  /-- The tables passed through. -/
  parents : List String
  last : String
deriving DecidableEq, Repr

/-- How a table came about. -/
inductive Origin where
  /-- By its own header, or as the document itself. -/
  | header
  /-- On the way of a longer header. -/
  | passed
  /-- On the way of a dotted key. -/
  | dotted
deriving DecidableEq, Repr

/-- One statement of a document. -/
inductive Statement where
  | entry (key : Path) (value : Value)
  /-- A header that opens a table. -/
  | table (key : Path)
  /-- A header that adds an element to an array of tables. -/
  | element (key : Path)

/-- A document under construction. -/
inductive Tree where
  | value (v : Value)
  | table (origin : Origin) (entries : List (String × Tree))
  | tables (elements : List (List (String × Tree)))

abbrev Entries := List (String × Tree)

namespace Entries

/-- The entries with one of them replaced, or added at the end. -/
def put (entries : Entries) (key : String) (t : Tree) : Entries :=
  if entries.any (·.1 == key) then entries.map fun e => if e.1 == key then (key, t) else e
  else entries ++ [(key, t)]

/-- `change` applied to the table at the end of a path, tables on the way being made where there is
none. A dotted key does not pass through a table that a header opened. -/
def descend (dotted : Bool) (change : Origin → Entries → Option Entries) (origin : Origin)
    (entries : Entries) : List String → Option Entries
  | [] => change origin entries
  | key :: path => do
    match entries.lookup key with
    | none =>
      let made := if dotted then .dotted else .passed
      let inner ← descend dotted change made [] path
      return entries.put key (.table made inner)
    | some (.table origin inner) =>
      if dotted && origin = .header then none
      let inner ← descend dotted change origin inner path
      return entries.put key (.table origin inner)
    | some (.tables elements) =>
      let final ← elements.getLast?
      let final ← descend dotted change .header final path
      return entries.put key (.tables (elements.dropLast ++ [final]))
    | some (.value _) => none

/-- A value put under a key, inside the table that the entry stands in. -/
def insert (entries : Entries) (key : Path) (v : Value) : Option Entries :=
  descend true (fun origin inner =>
    if (origin == .dotted) == key.parents.isEmpty then none
    else if inner.any (·.1 == key.last) then none
    else some (inner ++ [(key.last, .value v)])) .header entries key.parents

/-- The entries with which a header opens a table: none, or those of a table passed before. -/
def opened (entries : Entries) (key : String) : Option Entries :=
  match entries.lookup key with
  | none => some []
  | some (.table .passed inner) => some inner
  | some _ => none

def openTable (entries : Entries) (key : Path) : Option Entries :=
  descend false (fun _ inner => do
    let old ← inner.opened key.last
    return inner.put key.last (.table .header old)) .header entries key.parents

/-- A header that adds an element to an array of tables. -/
def openElement (entries : Entries) (key : Path) : Option Entries :=
  descend false (fun _ inner =>
    match inner.lookup key.last with
    | none => some (inner ++ [(key.last, .tables [[]])])
    | some (.tables elements) => some (inner.put key.last (.tables (elements ++ [[]])))
    | some _ => none) .header entries key.parents

/-- A value put under a key of the table that the last header opened. -/
def insertUnder (entries : Entries) (header : Option Path) (key : Path) (v : Value) :
    Option Entries :=
  match header with
  | none => entries.insert key v
  | some at_ => descend false (fun _ inner => inner.insert key v) .header entries
      (at_.parents ++ [at_.last])

end Entries

/-! ## Finished documents -/

mutual

def Tree.finish : Tree → Value
  | .value v => v
  | .table _ entries => .table (finishEntries entries)
  | .tables elements => .array (finishElements elements)

def finishEntries : List (String × Tree) → List (String × Value)
  | [] => []
  | (key, t) :: rest => (key, t.finish) :: finishEntries rest

def finishElements : List (List (String × Tree)) → List Value
  | [] => []
  | entries :: rest => .table (finishEntries entries) :: finishElements rest

end

/-- The entries built so far, and the header that the next entry belongs to. -/
structure Draft where
  entries : Entries := []
  header : Option Path := none

def Draft.add (d : Draft) : Statement → Option Draft
  | .entry key v => do
    let entries ← d.entries.insertUnder d.header key v
    return { d with entries }
  | .table key => do
    let entries ← d.entries.openTable key
    return { entries, header := some key }
  | .element key => do
    let entries ← d.entries.openElement key
    return { entries, header := some key }

/-- The table that a sequence of statements describes, if they fit together. -/
def assemble (statements : List Statement) : Option (List (String × Value)) := do
  let d ← statements.foldlM Draft.add {}
  return finishEntries d.entries

/-- The table of an inline table: entries alone, assembled in a table of their own. -/
def assembleInline (entries : List (Path × Value)) : Option (List (String × Value)) := do
  let inner ← entries.foldlM (fun (e : Entries) (key, v) => e.insert key v) []
  return finishEntries inner

end RenderStream.Toml
