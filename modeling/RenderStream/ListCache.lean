import RenderStream.CompiledList
import RenderStream.RecencyList

/-!
# The cache of compiled lists

Entries are held under their keys, in the order of their last use. A hit and an insertion are uses;
looking without asking is not. A full cache loses the entry that was not used for longest. Every
lookup and every insertion moves the clock.
-/

namespace RenderStream

/-- Counts of the cache. -/
structure ListCounts where
  hits : Nat := 0
  misses : Nat := 0
  evictions : Nat := 0
  invalidations : Nat := 0
deriving DecidableEq, Repr

def ListCounts.hitRate (c : ListCounts) : Single :=
  if c.hits + c.misses = 0 then 0
  else ((.ofNat c.hits / .ofNat (c.hits + c.misses) : Double)).narrow

/-- An entry of the cache. -/
structure CachedList where
  key : Fingerprint
  list : CompiledList
  /-- The clock at its last use. -/
  lastUsed : Nat
deriving DecidableEq

/-- A bounded cache. -/
structure ListCache where
  held : RecencyList Fingerprint CachedList
  clock : Nat := 0
  /-- Counts of this frame. -/
  frame : ListCounts := {}
  /-- Counts of all time. -/
  lifetime : ListCounts := {}

namespace ListCache

/-- An empty cache, for one entry at least. -/
def empty (capacity : Nat) : ListCache :=
  { held := .empty (max capacity 1) (Nat.le_max_right _ _) }

def capacity (c : ListCache) : Nat := c.held.capacity

/-- The entries, the latest used first. -/
def entries (c : ListCache) : List CachedList := c.held.items.map Prod.snd

/-- A change to the counts of the frame and of all time. -/
def count (c : ListCache) (f : ListCounts → ListCounts) : ListCache :=
  { c with frame := f c.frame, lifetime := f c.lifetime }

/-- The entry of a key; this is no use. -/
def peek? (c : ListCache) (key : Fingerprint) : Option CachedList := c.held.peek? key

def contains (c : ListCache) (key : Fingerprint) : Bool := c.held.contains key

/-- The list of a key, if there is one. -/
def lookup (c : ListCache) (key : Fingerprint) : ListCache × Option CompiledList :=
  let clock := c.clock + 1
  match c.held.modify key fun e => { e with lastUsed := clock } with
  | (held, some e) =>
    ({ c.count fun n => { n with hits := n.hits + 1 } with clock, held }, some e.list)
  | (held, none) =>
    ({ c.count fun n => { n with misses := n.misses + 1 } with clock, held }, none)

/-- A list put under a key, and the key that lost its entry to it. -/
def insert (c : ListCache) (key : Fingerprint) (list : CompiledList) :
    ListCache × Option Fingerprint :=
  let clock := c.clock + 1
  match c.held.push key { key, list, lastUsed := clock } with
  | (held, some (lost, _)) =>
    if lost != key then
      ({ c.count fun n => { n with evictions := n.evictions + 1 } with clock, held }, some lost)
    else ({ c with clock, held }, none)
  | (held, none) => ({ c with clock, held }, none)

def invalidate (c : ListCache) : ListCache :=
  { c.count fun n => { n with invalidations := n.invalidations + 1 } with held := c.held.clear }

/-- The counts of the frame, taken off. -/
def takeFrame (c : ListCache) : ListCache × ListCounts := ({ c with frame := {} }, c.frame)

end ListCache

end RenderStream
