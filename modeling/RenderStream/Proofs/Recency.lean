import Mathlib.Data.List.Induction
import RenderStream.Proofs.RecencyList

/-!
# What a cache holds, read off its past

The cache keeps its entries in the order of their last use and throws out the last one when it is
full. Here the same is said without a cache: the past of a cache is a list of events, and from it
are read the keys in the order of their last use (`recent`), the time of the last use of a key, and
the list last put under it (`put?`). `Recalls` ties the cache to its past: it holds the first keys
of that order, as many as there is room for, and each entry is what the past says of its key.

The counts are read off in the same way. Those of a frame are handed out and begin anew, and what
was handed out adds up to those of all time (`Sums`).
-/

namespace RenderStream

/-! ## The keys used last -/

section
variable {α : Type} [DecidableEq α]

/-- What is left out of keys may be left out before repetitions are. -/
theorem filter_eraseDups (p : α → Bool) (ks : List α) :
    (ks.filter p).eraseDups = ks.eraseDups.filter p := by
  cases ks with
  | nil => rfl
  | cons k ks =>
    rw [List.eraseDups_cons, List.filter_cons, List.filter_cons,
      ← filter_eraseDups p (ks.filter fun b => !b == k), List.filter_filter]
    split
    · next hk => rw [List.eraseDups_cons, List.filter_filter, funext fun b => Bool.and_comm _ _]
    · next hk =>
      -- What is left out of the rest is left out by `p` anyway.
      refine congrArg List.eraseDups (List.filter_congr fun b _ => ?_)
      by_cases hb : b = k
      · subst hb
        simpa using hk
      · simp [hb]
termination_by ks.length
decreasing_by exact Nat.lt_succ_of_le (List.length_filter_le _ _)

/-- A key that is used again moves to the front. -/
theorem eraseDups_used (k : α) (ks : List α) :
    (k :: ks).eraseDups = k :: ks.eraseDups.filter (· != k) := by
  rw [List.eraseDups_cons, ← filter_eraseDups]
  rfl

/-- No key is repeated. -/
theorem nodup_eraseDups (ks : List α) : ks.eraseDups.Nodup := by
  induction ks with
  | nil => exact List.nodup_nil
  | cons k ks ih =>
    rw [eraseDups_used]
    exact List.nodup_cons.2 ⟨by simp, ih.filter _⟩

end

namespace ListCounts

def add (a b : ListCounts) : ListCounts :=
  { hits := a.hits + b.hits
    misses := a.misses + b.misses
    evictions := a.evictions + b.evictions
    invalidations := a.invalidations + b.invalidations }

theorem add_comm (a b : ListCounts) : a.add b = b.add a := by
  simp only [add, Nat.add_comm]

/-- A count at the end of a sum may be added last. -/
theorem foldr_add (counts : List ListCounts) (a : ListCounts) :
    counts.foldr add a = (counts.foldr add {}).add a := by
  induction counts with
  | nil => simp [add]
  | cons b counts ih => rw [List.foldr_cons, List.foldr_cons, ih]; simp only [add, Nat.add_assoc]

end ListCounts

namespace ListCache

/-! ## The past of a cache -/

/-- Something that is asked of a cache. -/
inductive Deed where
  | lookup (key : Fingerprint)
  | insert (key : Fingerprint) (list : CompiledList)
  | peek (key : Fingerprint)
  | contains (key : Fingerprint)
  | invalidate
  | takeFrame
deriving DecidableEq

/-- What is remembered of a deed. -/
inductive Event where
  | lookup (key : Fingerprint) (hit : Bool)
  | insert (key : Fingerprint) (list : CompiledList)
  | invalidate
  | takeFrame (counts : ListCounts)
deriving DecidableEq

/-- The cache behind a deed. -/
def act (c : ListCache) : Deed → ListCache
  | .lookup key => (c.lookup key).1
  | .insert key list => (c.insert key list).1
  | .peek _ => c
  | .contains _ => c
  | .invalidate => c.invalidate
  | .takeFrame => c.takeFrame.1

/-- What a deed leaves to be remembered. To look without asking leaves nothing. -/
def events (c : ListCache) : Deed → List Event
  | .lookup key => [.lookup key (c.lookup key).2.isSome]
  | .insert key list => [.insert key list]
  | .peek _ => []
  | .contains _ => []
  | .invalidate => [.invalidate]
  | .takeFrame => [.takeFrame c.takeFrame.2]

/-- A cache and its past, the latest event first. -/
structure Logged where
  cache : ListCache
  past : List Event := []

namespace Logged

/-- One deed more. -/
def step (w : Logged) (d : Deed) : Logged := ⟨w.cache.act d, w.cache.events d ++ w.past⟩

/-- A sequence of deeds, from an empty cache on. -/
def run (capacity : Nat) (ds : List Deed) : Logged := ds.foldl step { cache := .empty capacity }

end Logged

namespace Event

/-- Whether an event moves the clock. -/
def ticks : Event → Bool
  | .lookup _ _ => true
  | .insert _ _ => true
  | .invalidate => false
  | .takeFrame _ => false

def isLookup : Event → Bool
  | .lookup _ _ => true
  | .insert _ _ => false
  | .invalidate => false
  | .takeFrame _ => false

/-- The counts that an event hands out. -/
def taken? : Event → Option ListCounts
  | .takeFrame counts => some counts
  | .lookup _ _ => none
  | .insert _ _ => none
  | .invalidate => none

end Event

/-- The time behind a past. -/
def time (past : List Event) : Nat := past.countP Event.ticks

/-- The uses since the last invalidation, each with its time, the latest first. Insertions and hits
are uses. -/
def uses : List Event → List (Fingerprint × Nat)
  | [] => []
  | .lookup key true :: past => (key, time past + 1) :: uses past
  | .lookup _ false :: past => uses past
  | .insert key _ :: past => (key, time past + 1) :: uses past
  | .invalidate :: _ => []
  | .takeFrame _ :: past => uses past

/-- The keys used since the last invalidation, each once, in the order of their last use. -/
def recent (past : List Event) : List Fingerprint := ((uses past).map Prod.fst).eraseDups

/-- The time of the last use of a key. -/
def lastUse? (key : Fingerprint) (past : List Event) : Option Nat := (uses past).lookup key

/-- The list last put under a key. -/
def put? (key : Fingerprint) : List Event → Option CompiledList
  | [] => none
  | .insert k list :: past => if k = key then some list else put? key past
  | .lookup _ _ :: past => put? key past
  | .invalidate :: past => put? key past
  | .takeFrame _ :: past => put? key past

/-- How often the cache was asked for a list. -/
def lookups (past : List Event) : Nat := past.countP Event.isLookup

/-- The events since counts were last handed out. -/
def frameOf (past : List Event) : List Event := past.takeWhile fun ev => ev.taken?.isNone

/-! ## Entries -/

variable {c : ListCache} {past : List Event} {key : Fingerprint}

def keys (c : ListCache) : List Fingerprint := c.entries.map (·.key)

/-- No key is recent twice. -/
theorem nodup_recent (past : List Event) : (recent past).Nodup := nodup_eraseDups _

/-- The keys held are those used last, each under its own key, and each entry is what the past says
of its key. -/
structure Recalls (c : ListCache) (past : List Event) : Prop where
  keys_eq : c.held.keys = (recent past).take c.capacity
  own : ∀ x ∈ c.held.items, x.2.key = x.1
  put : ∀ e ∈ c.entries, put? e.key past = some e.list
  used : ∀ e ∈ c.entries, lastUse? e.key past = some e.lastUsed
  clock_eq : c.clock = time past
  used_le : ∀ e ∈ c.entries, e.lastUsed ≤ c.clock
  latest_first : c.entries.Pairwise fun e e' => e'.lastUsed < e.lastUsed

/-- The keys of the entries are those they are held under. -/
theorem Recalls.keys (h : c.Recalls past) : c.keys = c.held.keys := by
  rw [ListCache.keys, entries, List.map_map]
  exact List.map_congr_left h.own

/-- An entry is held under its key. -/
theorem Recalls.mem_items (h : c.Recalls past) {e : CachedList} :
    e ∈ c.entries ↔ (e.key, e) ∈ c.held.items := by
  refine ⟨fun he => ?_, fun hx => List.mem_map_of_mem hx⟩
  obtain ⟨⟨k, e'⟩, hx, rfl⟩ := List.mem_map.1 he
  have hkey : e'.key = k := h.own _ hx
  exact hkey ▸ hx

/-- No key is held twice. -/
theorem Recalls.nodup (h : c.Recalls past) : c.keys.Nodup := h.keys ▸ c.held.nodup

/-- No more entries are held than there is room for. -/
theorem length_entries_le (c : ListCache) : c.entries.length ≤ c.capacity := by
  rw [entries, List.length_map]
  exact c.held.length_le

/-- A key is held just when an entry is under it. -/
theorem Recalls.contains_iff (h : c.Recalls past) : c.contains key = true ↔ key ∈ c.keys := by
  rw [h.keys]
  exact RecencyList.contains_iff

/-- A key is peeked at with its entry. -/
theorem Recalls.peek? (h : c.Recalls past) {e : CachedList} (he : e ∈ c.entries) :
    c.peek? e.key = some e := RecencyList.peek?_eq_some_iff.2 (h.mem_items.1 he)

/-- What an event says of the use of the entry `e`. -/
structure Use (c : ListCache) (ev : Event) (past : List Event) (e : CachedList) : Prop where
  uses_eq : uses (ev :: past) = (e.key, time past + 1) :: uses past
  time_eq : time (ev :: past) = time past + 1
  put : put? e.key (ev :: past) = some e.list
  put_others : ∀ k, e.key ≠ k → put? k (ev :: past) = put? k past
  lastUsed : e.lastUsed = c.clock + 1

/-- A use brings its key to the front of the past and of what is held, and leaves the others in
their order. -/
theorem Recalls.use (h : c.Recalls past) {ev : Event} {e : CachedList} (hu : c.Use ev past e)
    {c' : ListCache} (hheld : c'.held = c.held.use e.key e) (hclock : c'.clock = c.clock + 1) :
    c'.Recalls (ev :: past) := by
  have hrecent : recent (ev :: past) = e.key :: (recent past).filter (· != e.key) := by
    rw [recent, hu.uses_eq, List.map_cons, eraseDups_used]
    rfl
  have hlast : ∀ k, lastUse? k (ev :: past) =
      if e.key = k then some (time past + 1) else lastUse? k past := by
    intro k
    rw [lastUse?, hu.uses_eq, List.lookup_cons]
    by_cases hk : e.key = k
    · simp [hk]
    · simp [hk, lastUse?, beq_eq_false_iff_ne.2 (Ne.symm hk)]
  have hcapacity : c'.capacity = c.capacity := by rw [capacity, hheld]; rfl
  obtain ⟨rest, hitems, hsub, hne⟩ := c.held.exists_items_use e.key e
  rw [← hheld] at hitems
  have hentries : c'.entries = e :: rest.map Prod.snd := by rw [entries, hitems, List.map_cons]
  have hothers : (rest.map Prod.snd).Sublist c.entries := hsub.map _
  have hkeys : ∀ e' ∈ rest.map Prod.snd, e.key ≠ e'.key := by
    intro e' he'
    obtain ⟨x, hx, rfl⟩ := List.mem_map.1 he'
    exact h.own x (hsub.subset hx) ▸ hne x hx
  refine ⟨?_, ?_, ?_, ?_, ?_, ?_, ?_⟩
  · rw [hheld, c.held.keys_use, h.keys_eq, hcapacity, hrecent]
    exact take_used (nodup_recent past) _ _
  · intro x hx
    rcases List.mem_cons.1 (hitems ▸ hx) with rfl | hx
    · rfl
    · exact h.own x (hsub.subset hx)
  · intro e' he'
    rcases List.mem_cons.1 (hentries ▸ he') with rfl | he'
    · exact hu.put
    · rw [hu.put_others _ (hkeys e' he')]
      exact h.put e' (hothers.subset he')
  · intro e' he'
    rcases List.mem_cons.1 (hentries ▸ he') with rfl | he'
    · rw [hlast, if_pos rfl, hu.lastUsed, h.clock_eq]
    · rw [hlast, if_neg (hkeys e' he')]
      exact h.used e' (hothers.subset he')
  · rw [hclock, h.clock_eq, hu.time_eq]
  · intro e' he'
    rcases List.mem_cons.1 (hentries ▸ he') with rfl | he'
    · exact Nat.le_of_eq (hu.lastUsed.trans hclock.symm)
    · exact hclock ▸ Nat.le_succ_of_le (h.used_le e' (hothers.subset he'))
  · rw [hentries]
    refine List.pairwise_cons.2 ⟨fun e' he' => ?_, h.latest_first.sublist hothers⟩
    exact hu.lastUsed ▸ Nat.lt_succ_of_le (h.used_le e' (hothers.subset he'))

/-- A lookup moves the clock. -/
theorem time_lookup (key : Fingerprint) (hit : Bool) :
    time (.lookup key hit :: past) = time past + 1 := List.countP_cons_of_pos rfl

/-- An insertion moves the clock. -/
theorem time_insert (key : Fingerprint) (list : CompiledList) :
    time (.insert key list :: past) = time past + 1 := List.countP_cons_of_pos rfl

/-- A hit is a use of its key, and a miss only moves the clock. -/
theorem Recalls.lookup (h : c.Recalls past) (key : Fingerprint) :
    (c.lookup key).1.Recalls (.lookup key (c.lookup key).2.isSome :: past) := by
  rcases c.lookup_cases key with ⟨e, hx, hresult, hheld⟩ | ⟨-, hresult, hheld⟩
  · obtain rfl : e.key = key := h.own _ hx
    rw [hresult]
    exact h.use (e := { e with lastUsed := c.clock + 1 })
      ⟨rfl, time_lookup _ _, h.put e (h.mem_items.2 hx), fun _ _ => rfl, rfl⟩ hheld
      (c.clock_lookup _)
  · have hentries : (c.lookup key).1.entries = c.entries := by rw [entries, hheld, entries]
    rw [hresult]
    refine ⟨?_, hheld ▸ h.own, hentries ▸ h.put, hentries ▸ h.used, ?_, ?_,
      hentries ▸ h.latest_first⟩
    · rw [capacity, hheld]
      exact h.keys_eq
    · rw [clock_lookup, h.clock_eq]
      exact (time_lookup key false).symm
    · rw [hentries, clock_lookup]
      exact fun e he => Nat.le_succ_of_le (h.used_le e he)

/-- An insertion is a use of its key. -/
theorem Recalls.insert (h : c.Recalls past) (key : Fingerprint) (list : CompiledList) :
    (c.insert key list).1.Recalls (.insert key list :: past) :=
  h.use (e := ⟨key, list, c.clock + 1⟩)
    ⟨rfl, time_insert _ _, if_pos rfl, fun _ hk => if_neg hk, rfl⟩ (c.held_insert key list)
    (c.clock_insert key list)

/-- A cache that recalls its past recalls it behind every deed. -/
theorem Recalls.step {w : Logged} (h : w.cache.Recalls w.past) (d : Deed) :
    (w.step d).cache.Recalls (w.step d).past := by
  cases d with
  | lookup key => exact h.lookup key
  | insert key list => exact h.insert key list
  | peek | contains => exact h
  | invalidate =>
    exact ⟨List.take_nil.symm, nofun, nofun, nofun, h.clock_eq, nofun, .nil⟩
  | takeFrame => exact ⟨h.keys_eq, h.own, h.put, h.used, h.clock_eq, h.used_le, h.latest_first⟩

/-- A lookup finds the list last put under the key, as long as the key is held. -/
theorem Recalls.lookup_result (h : c.Recalls past) (key : Fingerprint) :
    (c.lookup key).2 = if key ∈ c.keys then put? key past else none := by
  rcases c.lookup_cases key with ⟨e, hx, hresult, -⟩ | ⟨hkey, hresult, -⟩
  · obtain rfl : e.key = key := h.own _ hx
    have he : e ∈ c.entries := h.mem_items.2 hx
    have hkey : e.key ∈ c.keys := List.mem_map_of_mem he
    rw [hresult, if_pos hkey, h.put e he]
  · rw [hresult, h.keys, if_neg hkey]

/-- An entry is the last one just when all others were used after it. -/
theorem Recalls.getLast?_iff (h : c.Recalls past) {e : CachedList} :
    c.entries.getLast? = some e ↔
      e ∈ c.entries ∧ ∀ e' ∈ c.entries, e' ≠ e → e.lastUsed < e'.lastUsed := by
  have hlater : ∀ l, c.entries.getLast? = some l → ∀ e' ∈ c.entries, e' ≠ l →
      l.lastUsed < e'.lastUsed := by
    intro l hl e' he' hne
    obtain ⟨others, hsplit⟩ := List.getLast?_eq_some_iff.1 hl
    have hpairs := h.latest_first
    rw [hsplit, List.pairwise_append] at hpairs
    rw [hsplit, List.mem_append] at he'
    exact hpairs.2.2 e' (he'.resolve_right (by simpa using hne)) l (by simp)
  refine ⟨fun hl => ⟨List.mem_of_getLast? hl, hlater e hl⟩, fun ⟨he, hleast⟩ => ?_⟩
  obtain ⟨l, hl⟩ : ∃ l, c.entries.getLast? = some l :=
    ⟨_, List.getLast?_eq_some_getLast (List.ne_nil_of_mem he)⟩
  have hlast : l = e := by
    by_contra hne
    exact Nat.lt_asymm (hlater l hl e he (Ne.symm hne)) (hleast l (List.mem_of_getLast? hl) hne)
  rw [hl, hlast]

/-- An insertion throws out the key whose last use lies furthest back, when there is no room for its
own. -/
theorem Recalls.insert_result (h : c.Recalls past) (key : Fingerprint) (list : CompiledList)
    (k : Fingerprint) :
    (c.insert key list).2 = some k ↔
      c.contains key = false ∧ c.entries.length = c.capacity ∧ ∃ e ∈ c.entries, e.key = k ∧
        ∀ e' ∈ c.entries, e' ≠ e → e.lastUsed < e'.lastUsed := by
  have hlength : c.entries.length = c.held.items.length := List.length_map _
  have hcontains : c.contains key = false ↔ key ∉ c.held.keys := by
    rw [← Bool.not_eq_true]
    exact not_congr RecencyList.contains_iff
  have hlast : (∃ x, c.held.items.getLast? = some x ∧ x.1 = k) ↔
      ∃ e, c.entries.getLast? = some e ∧ e.key = k := by
    rw [entries, List.getLast?_map]
    constructor
    · rintro ⟨x, hx, rfl⟩
      exact ⟨x.2, congrArg (Option.map Prod.snd) hx, h.own x (List.mem_of_getLast? hx)⟩
    · rintro ⟨e, he, rfl⟩
      obtain ⟨x, hx, rfl⟩ := Option.map_eq_some_iff.1 he
      exact ⟨x, hx, (h.own x (List.mem_of_getLast? hx)).symm⟩
  rw [insert_eq_some, hcontains, hlength, hlast]
  simp only [h.getLast?_iff, and_right_comm, and_assoc]

/-! ## Counts -/

/-- The counts handed out and those of this frame add up to those of all time, and every lookup is
counted, as a hit or as a miss. -/
structure Sums (c : ListCache) (past : List Event) : Prop where
  lifetime_eq : c.lifetime = (past.filterMap Event.taken?).foldr ListCounts.add c.frame
  lifetime_lookups : c.lifetime.hits + c.lifetime.misses = lookups past
  frame_lookups : c.frame.hits + c.frame.misses = lookups (frameOf past)

/-- An event that hands nothing out leaves the sum as long as it changes the counts of the frame and
those of all time alike. -/
theorem Sums.count (h : c.Sums past) {ev : Event} (hev : ev.taken? = none) {c' : ListCache}
    {d : ListCounts} (hframe : c'.frame = c.frame.add d)
    (hlifetime : c'.lifetime = c.lifetime.add d)
    (hlookups : d.hits + d.misses = if ev.isLookup then 1 else 0) : c'.Sums (ev :: past) := by
  have hasked : ∀ n : ListCounts, ∀ evs : List Event, n.hits + n.misses = lookups evs →
      (n.add d).hits + (n.add d).misses = lookups (ev :: evs) := by
    intro n evs hn
    rw [lookups, List.countP_cons, ← hlookups]
    rw [lookups] at hn
    simp only [ListCounts.add]
    omega
  refine ⟨?_, hlifetime ▸ hasked _ _ h.lifetime_lookups, ?_⟩
  · rw [hlifetime, h.lifetime_eq, hframe, List.filterMap_cons_none hev, ListCounts.foldr_add,
      ListCounts.foldr_add _ (c.frame.add d)]
    simp only [ListCounts.add, Nat.add_assoc]
  · rw [hframe, frameOf, List.takeWhile_cons_of_pos (by rw [hev]; rfl)]
    exact hasked _ _ h.frame_lookups

/-- A lookup is counted once, as a hit or as a miss. -/
theorem Sums.lookup (h : c.Sums past) (key : Fingerprint) :
    (c.lookup key).1.Sums (.lookup key (c.lookup key).2.isSome :: past) := by
  rw [ListCache.lookup]
  split
  · exact h.count (d := { hits := 1 }) rfl rfl rfl rfl
  · exact h.count (d := { misses := 1 }) rfl rfl rfl rfl

/-- An insertion is no lookup, and an eviction is counted for the frame and for all time. -/
theorem Sums.insert (h : c.Sums past) (key : Fingerprint) (list : CompiledList) :
    (c.insert key list).1.Sums (.insert key list :: past) := by
  rw [ListCache.insert]
  split
  · split
    · exact h.count (d := { evictions := 1 }) rfl rfl rfl rfl
    · exact h.count (d := {}) rfl rfl rfl rfl
  · exact h.count (d := {}) rfl rfl rfl rfl

/-- The counts that are handed out are no longer those of the frame. -/
theorem Sums.takeFrame (h : c.Sums past) :
    c.takeFrame.1.Sums (.takeFrame c.takeFrame.2 :: past) := by
  refine ⟨?_, h.lifetime_lookups, rfl⟩
  change c.lifetime = c.frame.add ((past.filterMap Event.taken?).foldr ListCounts.add {})
  rw [h.lifetime_eq, ListCounts.foldr_add, ListCounts.add_comm]

/-- The counts add up behind every deed. -/
theorem Sums.step {w : Logged} (h : w.cache.Sums w.past) (d : Deed) :
    (w.step d).cache.Sums (w.step d).past := by
  cases d with
  | lookup key => exact h.lookup key
  | insert key list => exact h.insert key list
  | peek | contains => exact h
  | invalidate => exact h.count (d := { invalidations := 1 }) rfl rfl rfl rfl
  | takeFrame => exact h.takeFrame

/-! ## Every run -/

/-- No deed changes the capacity. -/
theorem Logged.capacity_step (w : Logged) (d : Deed) :
    (w.step d).cache.capacity = w.cache.capacity := by
  cases d with
  | lookup key =>
    rw [step, act, capacity]
    rcases w.cache.lookup_cases key with ⟨e, -, -, hheld⟩ | ⟨-, -, hheld⟩
    · rw [hheld, RecencyList.capacity_use, capacity]
    · rw [hheld, capacity]
  | insert key list =>
    rw [step, act, capacity, held_insert, RecencyList.capacity_use, capacity]
  | peek | contains | invalidate | takeFrame => rfl

section
variable (capacity : Nat) (ds : List Deed)

/-- What holds of an empty cache with no past, and behind each deed more, holds behind every run. -/
theorem Logged.run_induction {P : Logged → Prop} (hempty : P { cache := .empty capacity })
    (hstep : ∀ w d, P w → P (w.step d)) : P (run capacity ds) := by
  rw [run]
  induction ds using List.reverseRecOn with
  | nil => exact hempty
  | append_singleton ds d ih =>
    rw [List.foldl_append]
    exact hstep _ d ih

/-- Behind every run there is room for one entry at least. -/
theorem Logged.run_capacity : (run capacity ds).cache.capacity = max capacity 1 :=
  run_induction (P := fun w => w.cache.capacity = max capacity 1) capacity ds rfl
    fun w d h => (w.capacity_step d).trans h

/-- Behind every run the cache recalls its past. -/
theorem Logged.run_recalls : (run capacity ds).cache.Recalls (run capacity ds).past :=
  run_induction (P := fun w => w.cache.Recalls w.past) capacity ds
    ⟨List.take_nil.symm, nofun, nofun, nofun, rfl, nofun, .nil⟩
    fun _ d h => h.step d

/-- Behind every run the counts add up. -/
theorem Logged.run_sums : (run capacity ds).cache.Sums (run capacity ds).past :=
  run_induction (P := fun w => w.cache.Sums w.past) capacity ds ⟨rfl, rfl, rfl⟩
    fun _ d h => h.step d

end

/-- Behind every run the cache holds the keys used last since it was last emptied, as many as there
is room for, in the order of their last use, each once and with the list last put under it and the
time of its last use. A lookup finds a list just for these keys. An insertion throws a key out just
when its own key is not held and there is no room, and then the one whose last use lies furthest
back. Every lookup is counted as a hit or as a miss, and the counts of all frames add up to those of
all time. -/
theorem holds_latest (capacity : Nat) (ds : List Deed) :
    let w := Logged.run capacity ds
    let c := w.cache
    let room := max capacity 1
    let latest := (recent w.past).take room
    c.keys = latest ∧ c.keys.Nodup ∧ c.entries.length ≤ room ∧ c.clock = time w.past ∧
      (∀ e ∈ c.entries, c.peek? e.key = some e ∧ put? e.key w.past = some e.list ∧
        lastUse? e.key w.past = some e.lastUsed) ∧
      (∀ key, c.contains key = true ↔ key ∈ latest) ∧
      (∀ key, (c.lookup key).2 = if key ∈ latest then put? key w.past else none) ∧
      (∀ key list k, (c.insert key list).2 = some k ↔
        c.contains key = false ∧ c.entries.length = room ∧ ∃ e ∈ c.entries, e.key = k ∧
          ∀ e' ∈ c.entries, e' ≠ e → e.lastUsed < e'.lastUsed) ∧
      c.lifetime.hits + c.lifetime.misses = lookups w.past ∧
      c.frame.hits + c.frame.misses = lookups (frameOf w.past) ∧
      c.lifetime = (w.past.filterMap Event.taken?).foldr ListCounts.add c.frame := by
  have h := Logged.run_recalls capacity ds
  have hsums := Logged.run_sums capacity ds
  have hroom := Logged.run_capacity capacity ds
  have hkeys := h.keys.trans h.keys_eq
  rw [hroom] at hkeys
  refine ⟨hkeys, h.nodup, hroom ▸ length_entries_le _, h.clock_eq,
    fun e he => ⟨h.peek? he, h.put e he, h.used e he⟩, fun key => ?_, fun key => ?_,
    fun key list k => ?_, hsums.lifetime_lookups, hsums.frame_lookups, hsums.lifetime_eq⟩
  · rw [h.contains_iff, hkeys]
  · rw [h.lookup_result, hkeys]
  · rw [h.insert_result, hroom]

-- The hit keeps the first key, and the second one is thrown out in its place.
example :
    let k (n : UInt64) : Fingerprint := ⟨0, n⟩
    let c := (Logged.run 2 [.insert (k 1) {}, .insert (k 2) {}, .peek (k 2), .lookup (k 1)]).cache
    (c.insert (k 3) {}).2 = some (k 2) ∧ (c.insert (k 3) {}).1.keys = [k 3, k 1] := by decide

end ListCache

end RenderStream
