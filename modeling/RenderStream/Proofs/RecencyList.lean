import Mathlib.Data.List.Nodup
import RenderStream.ListCache

/-!
# Laws of a bounded list by key

The first keys of an order, as many as there is room for, stay the first ones when a key is used
and moves to the front (`take_used`); for a recency list this is `keys_use`. What a push does is
said once (`push_cases`): it replaces the value of its key, or finds room, or takes the place of the
last item. The cache of compiled lists is built on one, and what it does to it is said here too.
-/

namespace RenderStream

/-- What is missing behind the first `n` keys is not missed when a key is used: the first `n` keys
of the new order are read off the first `n` of the old one. -/
theorem take_used {κ : Type} [DecidableEq κ] {ks : List κ} (hks : ks.Nodup) (k : κ) (n : Nat) :
    (k :: (ks.take n).filter (· != k)).take n = (k :: ks.filter (· != k)).take n := by
  obtain _ | m := n
  · rfl
  rw [List.take_succ_cons, List.take_succ_cons]
  refine congrArg (k :: ·) ?_
  conv_rhs => rw [← List.take_append_drop (m + 1) ks, List.filter_append]
  by_cases hall : ks.length ≤ m
  · rw [List.drop_eq_nil_of_le (Nat.le_succ_of_le hall), List.filter_nil, List.append_nil]
  · -- At most one key is missing from the first ones, so that enough of them are left.
    have hleft : m ≤ ((ks.take (m + 1)).filter (· != k)).length := by
      rw [← (hks.sublist (List.take_sublist _ _)).erase_eq_filter, List.length_erase,
        List.length_take]
      split <;> omega
    rw [List.take_append_of_le_length hleft]

namespace RecencyList

variable {κ α : Type} [DecidableEq κ] {l : RecencyList κ α} {key : κ} {value : α}

/-- The keys in the order of their last use. -/
def keys (l : RecencyList κ α) : List κ := l.items.map Prod.fst

/-- A key is peeked at with the value that it is held with. -/
theorem peek?_eq_some_iff : l.peek? key = some value ↔ (key, value) ∈ l.items := by
  constructor
  · intro h
    obtain ⟨x, hx, rfl⟩ := Option.map_eq_some_iff.1 h
    have hkey : x.1 = key := by simpa using List.find?_some hx
    exact hkey ▸ List.mem_of_find?_eq_some hx
  · intro h
    cases hx : l.items.find? (·.1 == key) with
    | none => simpa using List.find?_eq_none.1 hx _ h
    | some x =>
      have hkey : x.1 = key := by simpa using List.find?_some hx
      have hsame : x = (key, value) :=
        List.inj_on_of_nodup_map l.nodup (List.mem_of_find?_eq_some hx) h hkey
      rw [peek?, hx, hsame]
      rfl

/-- A key is held just when it is one of the keys. -/
theorem contains_iff : l.contains key = true ↔ key ∈ l.keys := by
  simp [contains, peek?, keys]

/-- A key that finds no value is not held. -/
theorem not_mem_keys_of_peek? (h : l.peek? key = none) : key ∉ l.keys := by
  rw [← contains_iff, contains, h]
  exact Bool.false_ne_true

/-- The others of a key keep their order. -/
theorem keys_others (l : RecencyList κ α) (key : κ) :
    (l.others key).map Prod.fst = l.keys.filter (· != key) := by
  rw [keys, List.filter_map]
  rfl

/-- The others of a key that is not held are all items. -/
theorem others_eq_items (h : key ∉ l.keys) : l.others key = l.items :=
  List.filter_eq_self.2 fun _ hx => bne_iff_ne.2 fun hkey => h (hkey ▸ List.mem_map_of_mem hx)

/-- The others of a key that is held leave room for it. -/
theorem length_others_lt (h : key ∈ l.keys) : (l.others key).length < l.items.length := by
  obtain ⟨x, hx, rfl⟩ := List.mem_map.1 h
  exact List.length_filter_lt_length_iff_exists.2 ⟨x, hx, by simp⟩

@[simp] theorem capacity_use (l : RecencyList κ α) (key : κ) (value : α) :
    (l.use key value).capacity = l.capacity := rfl

/-- What is held behind a use. -/
theorem items_use (l : RecencyList κ α) (key : κ) (value : α) :
    (l.use key value).items = ((key, value) :: l.others key).take l.capacity := rfl

/-- A key that is used comes first, and the first of the other keys follow. -/
theorem keys_use (l : RecencyList κ α) (key : κ) (value : α) :
    (l.use key value).keys = (key :: l.keys.filter (· != key)).take l.capacity := by
  rw [← keys_others, keys, items_use, List.map_take, List.map_cons]

/-- A key that is used comes first, with its value, and then items of the list in their order that
are under other keys. -/
theorem exists_items_use (l : RecencyList κ α) (key : κ) (value : α) :
    ∃ rest, (l.use key value).items = (key, value) :: rest ∧ rest.Sublist l.items ∧
      ∀ x ∈ rest, key ≠ x.1 := by
  obtain ⟨m, hm⟩ : ∃ m, l.capacity = m + 1 :=
    Nat.exists_eq_succ_of_ne_zero (Nat.ne_of_gt l.capacity_pos)
  refine ⟨(l.others key).take m, ?_, (List.take_sublist _ _).trans List.filter_sublist, ?_⟩
  · rw [items_use, hm, List.take_succ_cons]
  · rintro x hx rfl
    simpa [others] using List.take_subset _ _ hx

/-- An item behind a use is the one put there, or was held before. -/
theorem eq_or_mem_of_mem_use {x : κ × α} (h : x ∈ (l.use key value).items) :
    x = (key, value) ∨ x ∈ l.items := by
  obtain ⟨rest, hitems, hsub, -⟩ := l.exists_items_use key value
  exact (List.mem_cons.1 (hitems ▸ h)).imp_right fun hx => hsub.subset hx

/-- A push replaces the value of its key, or there is room for it, or on a full list it takes the
place of the last item. -/
theorem push_cases (l : RecencyList κ α) (key : κ) (value : α) :
    (∃ old, (key, old) ∈ l.items ∧ (l.push key value).1.items = (key, value) :: l.others key ∧
      (l.push key value).2 = some (key, old)) ∨
    (key ∉ l.keys ∧ l.items.length < l.capacity ∧
      (l.push key value).1.items = (key, value) :: l.items ∧ (l.push key value).2 = none) ∨
    ∃ kept lost, key ∉ l.keys ∧ l.items = kept ++ [lost] ∧ l.items.length = l.capacity ∧
      (l.push key value).1.items = (key, value) :: kept ∧ (l.push key value).2 = some lost := by
  have hroom : (l.others key).length < l.capacity →
      (l.push key value).1.items = (key, value) :: l.others key :=
    fun h => List.take_of_length_le h
  cases hp : l.peek? key with
  | some old =>
    have hold : (key, old) ∈ l.items := peek?_eq_some_iff.1 hp
    have hless := length_others_lt (List.mem_map_of_mem hold)
    refine .inl ⟨old, hold, hroom (Nat.lt_of_lt_of_le hless l.length_le), ?_⟩
    rw [push, hp]
  | none =>
    have hkey : key ∉ l.keys := not_mem_keys_of_peek? hp
    have hothers : l.others key = l.items := others_eq_items hkey
    refine .inr ?_
    by_cases hlt : l.items.length < l.capacity
    · refine .inl ⟨hkey, hlt, hothers ▸ hroom (hothers ▸ hlt), ?_⟩
      rw [push, hp]
      exact if_pos hlt
    · have hfull : l.items.length = l.capacity := Nat.le_antisymm l.length_le (Nat.not_lt.1 hlt)
      obtain ⟨kept, lost, hitems⟩ : ∃ kept lost, l.items = kept ++ [lost] :=
        (List.eq_nil_or_concat' l.items).resolve_left fun hnil =>
          Nat.ne_of_gt l.capacity_pos (by rw [← hfull, hnil]; rfl)
      refine .inr ⟨kept, lost, hkey, hitems, hfull, ?_, ?_⟩
      · have hlength : l.capacity = kept.length + 1 := by rw [← hfull, hitems]; simp
        rw [push, items_use, hothers, hlength, List.take_succ_cons, hitems, List.take_left]
      · rw [push, hp]
        exact (if_neg hlt).trans (hitems ▸ List.getLast?_concat)

end RecencyList

namespace ListCache

/-- What a lookup does to what is held: a key that has an entry is used, and its entry gets the new
time. -/
theorem lookup_cases (c : ListCache) (key : Fingerprint) :
    (∃ e, (key, e) ∈ c.held.items ∧ (c.lookup key).2 = some e.list ∧
      (c.lookup key).1.held = c.held.use key { e with lastUsed := c.clock + 1 }) ∨
    (key ∉ c.held.keys ∧ (c.lookup key).2 = none ∧ (c.lookup key).1.held = c.held) := by
  rw [ListCache.lookup, RecencyList.modify]
  cases hp : c.held.peek? key with
  | some e => exact .inl ⟨e, RecencyList.peek?_eq_some_iff.1 hp, rfl, rfl⟩
  | none => exact .inr ⟨RecencyList.not_mem_keys_of_peek? hp, rfl, rfl⟩

@[simp] theorem clock_lookup (c : ListCache) (key : Fingerprint) :
    (c.lookup key).1.clock = c.clock + 1 := by
  rw [ListCache.lookup]
  split <;> rfl

/-- An insertion puts its list at the front, with the new time. -/
theorem held_insert (c : ListCache) (key : Fingerprint) (list : CompiledList) :
    (c.insert key list).1.held = c.held.use key ⟨key, list, c.clock + 1⟩ := by
  rw [ListCache.insert, RecencyList.push]
  split
  · next heq => split <;> exact (congrArg Prod.fst heq).symm
  · next heq => exact (congrArg Prod.fst heq).symm

@[simp] theorem clock_insert (c : ListCache) (key : Fingerprint) (list : CompiledList) :
    (c.insert key list).1.clock = c.clock + 1 := by
  rw [ListCache.insert]
  split
  · split <;> rfl
  · rfl

/-- An insertion throws out the key of what its push took the place of, unless it is its own. -/
theorem insert_eq_some {c : ListCache} {key k : Fingerprint} {list : CompiledList} :
    (c.insert key list).2 = some k ↔
      key ∉ c.held.keys ∧ c.held.items.length = c.capacity ∧
        ∃ x, c.held.items.getLast? = some x ∧ x.1 = k := by
  have hpush := c.held.push_cases key ⟨key, list, c.clock + 1⟩
  rw [ListCache.insert]
  generalize c.held.push key ⟨key, list, c.clock + 1⟩ = pushed at hpush
  obtain ⟨held, lost?⟩ := pushed
  rcases hpush with ⟨old, hold, -, rfl⟩ | ⟨-, hroom, -, rfl⟩ |
      ⟨kept, lost, hkey, hitems, hfull, -, rfl⟩
  · have hkey : key ∈ c.held.keys := List.mem_map_of_mem hold
    simp [hkey]
  · simp [capacity, Nat.ne_of_lt hroom]
  · have hne : lost.1 ≠ key := by
      rintro rfl
      exact hkey (List.mem_map_of_mem (hitems ▸ List.mem_append_right _ (.head _)))
    have hlength : kept.length + 1 = c.capacity := by
      rw [capacity, ← hfull, hitems, List.length_append, List.length_singleton]
    simp [hne, hkey, hitems, hlength]

end ListCache

end RenderStream
