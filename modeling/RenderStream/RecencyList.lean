/-!
# A bounded list by key, the key used last in front

Values are held under keys, each key once and no more than there is room for. A push is a use of
its key, and so is asking for a value in order to change it; to peek is none. A use brings its key
to the front, and what no longer fits falls off the end: the key that was not used for longest.
-/

namespace RenderStream

/-- Keys and values in the order of their last use. -/
structure RecencyList (κ α : Type) where
  capacity : Nat
  /-- The latest used first. -/
  items : List (κ × α)
  capacity_pos : 0 < capacity
  nodup : (items.map Prod.fst).Nodup
  length_le : items.length ≤ capacity

namespace RecencyList

/-- An empty list with room for one item at least. -/
def empty {κ α : Type} (capacity : Nat) (h : 0 < capacity) : RecencyList κ α :=
  ⟨capacity, [], h, List.nodup_nil, Nat.zero_le _⟩

def clear {κ α : Type} (l : RecencyList κ α) : RecencyList κ α := empty l.capacity l.capacity_pos

variable {κ α : Type} [DecidableEq κ]

/-- The value of a key; this is no use. -/
def peek? (l : RecencyList κ α) (key : κ) : Option α :=
  (l.items.find? (·.1 == key)).map Prod.snd

def contains (l : RecencyList κ α) (key : κ) : Bool := (l.peek? key).isSome

def others (l : RecencyList κ α) (key : κ) : List (κ × α) := l.items.filter (·.1 != key)

/-- A key in front of the others is not repeated. -/
theorem nodup_cons_others (l : RecencyList κ α) (key : κ) (value : α) :
    (((key, value) :: l.others key).map Prod.fst).Nodup := by
  refine List.nodup_cons.2 ⟨by simp [others], ?_⟩
  exact List.Pairwise.sublist (List.filter_sublist.map Prod.fst) l.nodup

/-- A use: the key comes to the front with a value, and what no longer fits is lost. -/
def use (l : RecencyList κ α) (key : κ) (value : α) : RecencyList κ α where
  capacity := l.capacity
  items := ((key, value) :: l.others key).take l.capacity
  capacity_pos := l.capacity_pos
  nodup := List.Pairwise.sublist ((List.take_sublist _ _).map Prod.fst)
    (l.nodup_cons_others key value)
  length_le := List.length_take_le _ _

/-- The value of a key, changed in place; this is a use. -/
def modify (l : RecencyList κ α) (key : κ) (f : α → α) : RecencyList κ α × Option α :=
  match l.peek? key with
  | some value => (l.use key (f value), some (f value))
  | none => (l, none)

/-- A value put under a key, and the key and the value that it takes the place of: those of the same
key or, on a full list, those at the end. -/
def push (l : RecencyList κ α) (key : κ) (value : α) : RecencyList κ α × Option (κ × α) :=
  (l.use key value,
    match l.peek? key with
    | some old => some (key, old)
    | none => if l.items.length < l.capacity then none else l.items.getLast?)

end RecencyList

end RenderStream
