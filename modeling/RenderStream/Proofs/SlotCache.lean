import RenderStream.SlotCache
import RenderStream.Proofs.Scripted

/-!
# State writes and the slots of a host

The cache believes to know what the host holds. `SlotCache.Tells` says that it is right, and
`SlotMap.Meets` that the slots hold what was last wanted. Both are kept by every write, whether it
is sent or left out, and a restore brings back the second one from the first one alone.
-/

namespace RenderStream

/-! ## Equality of slot values -/

/-- Two values that a host does not tell apart: the same pattern, or equal as numbers. -/
def SlotValue.Same (u v : SlotValue) : Prop := u = v ∨ u.numEq v = true

namespace Binary

variable {f : Format} {x y z : Binary f}

/-- Equality as numbers is symmetric. -/
theorem numEq_comm (x y : Binary f) : x.numEq y = y.numEq x := by
  simp only [numEq, Bool.and_comm (!x.isNaN), BEq.comm (a := x.key)]

/-- Numbers that equal a third one equal each other. -/
theorem numEq_join (hx : x.numEq z = true) (hy : y.numEq z = true) : x.numEq y = true := by
  simp only [numEq, Bool.and_eq_true, Bool.not_eq_true', beq_iff_eq] at *
  exact ⟨⟨hx.1.1, hy.1.1⟩, hx.2.trans hy.2.symm⟩

end Binary

namespace Rect

variable {a b c : Rect}

/-- Equality as numbers is symmetric. -/
theorem numEq_comm (a b : Rect) : a.numEq b = b.numEq a := by
  simp only [numEq, Binary.numEq_comm]

/-- What is equal as numbers to the same is so to each other. -/
theorem numEq_join (ha : a.numEq c = true) (hb : b.numEq c = true) : a.numEq b = true := by
  simp only [numEq, Bool.and_eq_true] at *
  obtain ⟨⟨⟨ha₁, ha₂⟩, ha₃⟩, ha₄⟩ := ha
  obtain ⟨⟨⟨hb₁, hb₂⟩, hb₃⟩, hb₄⟩ := hb
  exact ⟨⟨⟨Binary.numEq_join ha₁ hb₁, Binary.numEq_join ha₂ hb₂⟩, Binary.numEq_join ha₃ hb₃⟩,
    Binary.numEq_join ha₄ hb₄⟩

end Rect

namespace SlotValue

variable {u v w : SlotValue}

/-- Equality as numbers is symmetric. -/
theorem numEq_comm (u v : SlotValue) : u.numEq v = v.numEq u := by
  cases u <;> cases v <;> simp [numEq, eq_comm, Rect.numEq_comm]

/-- What is equal as numbers to the same is so to each other. -/
theorem numEq_join (hu : u.numEq w = true) (hv : v.numEq w = true) : u.numEq v = true := by
  cases w with
  | rect c => cases u <;> cases v <;> simp_all [numEq, Rect.numEq_join (c := c)]
  | _ => cases u <;> cases v <;> simp_all [numEq]

/-- Values that are the same as a third one are the same. -/
theorem Same.join (hu : u.Same w) (hv : v.Same w) : u.Same v := by
  rcases hu with rfl | hu
  · rcases hv with rfl | hv
    · exact .inl rfl
    · exact .inr (numEq_comm u v ▸ hv)
  · rcases hv with rfl | hv
    · exact .inr hu
    · exact .inr (numEq_join hu hv)

end SlotValue

/-! ## What the slots of a host hold -/

/-- Every slot in which something is wanted holds it. -/
def SlotMap.Meets (m : SlotMap SlotValue) (wanted : SlotMap (Option SlotValue)) : Prop :=
  ∀ s v, wanted.get s = some v → (m.get s).Same v

namespace SlotCache

/-- What the cache believes of the host is so. -/
def Tells (c : SlotCache) (m : SlotMap SlotValue) : Prop :=
  ∀ s v, c.held.get s = some v → m.get s = v

variable {c : SlotCache} {m : SlotMap SlotValue}

/-- A value that the host is known to hold is there already. -/
theorem Tells.same (h : c.Tells m) {s : Slot} {v : SlotValue} (hv : c.holds s v = true) :
    (m.get s).Same v := by
  obtain ⟨u, hu, huv⟩ := (Option.any_eq_true _ _).1 hv
  rw [h s u hu]
  exact .inr huv

/-- A value that was sent. -/
theorem Tells.emit (h : c.Tells m) (s : Slot) (v : SlotValue) : (c.emit s v).Tells (m.set s v) := by
  intro t u ht
  simp only [SlotCache.emit, SlotMap.get_set] at ht ⊢
  split at ht
  · next hst => simpa [hst] using ht
  · next hst => simpa [hst] using h t u ht

/-! ## Writes -/

@[simp] theorem set_wanted (c : SlotCache) (s : Slot) (v : SlotValue) :
    (c.set s v).1.wanted = c.wanted.set s (some v) := by
  rw [set]
  split <;> rfl

/-- The command for a write is the write. -/
theorem eq_of_mem_set {s : Slot} {v : SlotValue} {d : Command} (hd : d ∈ (c.set s v).2.toList) :
    d = .set s v := by
  rw [set] at hd
  split at hd
  · simp at hd
  · simpa using hd

/-- Behind a write the cache is right about the host, and the host holds the value. -/
theorem Tells.set (h : c.Tells m) (s : Slot) (v : SlotValue) :
    (c.set s v).1.Tells (m.after (c.set s v).2.toList) ∧
      ((m.after (c.set s v).2.toList).get s).Same v := by
  rw [SlotCache.set]
  split
  · next hv => exact ⟨h, Tells.same (c := c) h hv⟩
  · refine ⟨Tells.emit (c := { c.note s v with counts := _ }) h s v, .inl ?_⟩
    simp

/-- A write changes no other slot. -/
theorem get_after_set {s t : Slot} (v : SlotValue) (hst : s ≠ t) :
    (m.after (c.set s v).2.toList).get t = m.get t := by
  rw [SlotCache.set]
  split
  · rfl
  · simp [SlotMap.get_set_of_ne _ _ hst]

/-- A write brings the host up to what is wanted now. -/
theorem Meets.set {wanted : SlotMap (Option SlotValue)} (h : c.Tells m) (hm : m.Meets wanted)
    (s : Slot) (v : SlotValue) :
    (m.after (c.set s v).2.toList).Meets (wanted.set s (some v)) := by
  intro t u ht
  rw [SlotMap.get_set] at ht
  split at ht
  · next hst =>
    obtain rfl : v = u := by simpa using ht
    exact hst ▸ (h.set s v).2
  · next hst =>
    rw [get_after_set v hst]
    exact hm t u ht

/-! ## Restores -/

/-- Setting a slot anew leaves what is wanted. -/
theorem restoreNext_wanted (r : SlotCache × List Command) (s : Slot) :
    (restoreNext r s).1.wanted = r.1.wanted := by
  simp only [restoreNext, restoreSlot]
  split
  · rfl
  · split <;> rfl

/-- Setting slots anew leaves what is wanted. -/
theorem foldl_restoreNext_wanted (ss : List Slot) :
    ∀ r : SlotCache × List Command, (ss.foldl restoreNext r).1.wanted = r.1.wanted := by
  induction ss with
  | nil => exact fun r => rfl
  | cons s ss ih =>
    intro r
    rw [List.foldl_cons, ih, restoreNext_wanted]

/-- A restore sets the slots anew one after the other. -/
theorem restore_eq_foldl (c : SlotCache) : c.restore = Slot.all.foldl restoreNext (c, []) := by
  unfold restore
  with_reducible rfl

/-- A restore asks for nothing new. -/
theorem restore_wanted (c : SlotCache) : c.restore.1.wanted = c.wanted := by
  rw [restore_eq_foldl, foldl_restoreNext_wanted]

/-- A restore on its way: `done` are the slots that are dealt with. -/
structure Restoring (m : SlotMap SlotValue) (wanted : SlotMap (Option SlotValue))
    (done : List Slot) (r : SlotCache × List Command) : Prop where
  wanted_eq : r.1.wanted = wanted
  tells : r.1.Tells (m.after r.2)
  met : ∀ s ∈ done, ∀ v, wanted.get s = some v → ((m.after r.2).get s).Same v
  writes : ∀ d ∈ r.2, ∃ s v, d = .set s v ∧ wanted.get s = some v

/-- A slot more is set anew. -/
theorem Restoring.next {wanted : SlotMap (Option SlotValue)} {done : List Slot}
    {r : SlotCache × List Command} (h : Restoring m wanted done r) (s : Slot) :
    Restoring m wanted (s :: done) (restoreNext r s) := by
  obtain ⟨c, out⟩ := r
  obtain ⟨rfl, htells, hmet, hwrites⟩ := h
  simp only [restoreNext, restoreSlot]
  cases hw : c.wanted.get s with
  | none =>
    refine ⟨rfl, by simpa using htells, ?_, by simpa using hwrites⟩
    intro t ht v hv
    rcases List.mem_cons.1 ht with rfl | ht
    · rw [hw] at hv
      cases hv
    · simpa using hmet t ht v hv
  | some w =>
    dsimp only
    split
    · next hheld =>
      refine ⟨rfl, by simpa using htells, ?_, by simpa using hwrites⟩
      intro t ht v hv
      rcases List.mem_cons.1 ht with rfl | ht
      · obtain rfl : w = v := by simpa [hw] using hv
        simpa using htells.same hheld
      · simpa using hmet t ht v hv
    · refine ⟨rfl, by simpa using htells.emit s w, ?_, ?_⟩
      · intro t ht v hv
        simp only [SlotMap.after_append, SlotMap.after_set, SlotMap.get_set]
        split
        · next hst =>
          subst hst
          exact .inl (by simpa [hw] using hv)
        · next hst =>
          exact hmet t ((List.mem_cons.1 ht).resolve_left (Ne.symm hst)) v hv
      · intro d hd
        rcases List.mem_append.1 hd with hd | hd
        · exact hwrites d hd
        · exact ⟨s, w, by simpa using hd, hw⟩

/-- All slots of a list are set anew. -/
theorem Restoring.foldl {wanted : SlotMap (Option SlotValue)} :
    ∀ (ss : List Slot) {done : List Slot} {r : SlotCache × List Command},
      Restoring m wanted done r → Restoring m wanted (ss.reverse ++ done) (ss.foldl restoreNext r)
  | [], _, _, h => h
  | s :: ss, done, _, h => by
    rw [List.reverse_cons, List.append_assoc]
    exact Restoring.foldl ss (h.next s)

/-- A restore writes wanted values only, behind it the cache is right about the host again, and the
host holds all that is wanted. -/
theorem Tells.restore (h : c.Tells m) :
    c.restore.1.Tells (m.after c.restore.2) ∧ (m.after c.restore.2).Meets c.wanted ∧
      ∀ d ∈ c.restore.2, ∃ s v, d = .set s v ∧ c.wanted.get s = some v := by
  have start : Restoring m c.wanted [] (c, []) := ⟨rfl, h, by simp, by simp⟩
  have hall := start.foldl Slot.all
  rw [← restore_eq_foldl] at hall
  refine ⟨hall.tells, fun s v hv => ?_, hall.writes⟩
  refine hall.met s ?_ v hv
  exact List.mem_append_left _ (List.mem_reverse.2 (Slot.mem_all s))

/-! ## Invalidations -/

/-- What is forgotten cannot be wrong. -/
theorem Tells.invalidate (h : c.Tells m) (scope : Scope) : (c.invalidate scope).Tells m := by
  intro t v ht
  cases scope with
  | slot s =>
    simp only [SlotCache.invalidate, SlotMap.get_set] at ht
    split at ht
    · cases ht
    · exact h t v ht
  | allState | caches => simp [SlotCache.invalidate] at ht

/-- Behind a change of everything nothing is believed. -/
theorem invalidate_allState_tells (c : SlotCache) (m : SlotMap SlotValue) :
    (c.invalidate .allState).Tells m := by
  intro t v ht
  simp [SlotCache.invalidate] at ht

end SlotCache

end RenderStream
