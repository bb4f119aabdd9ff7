import Mathlib.Data.List.Induction
import RenderStream.Proofs.LastWritten
import RenderStream.Proofs.SlotCache

/-!
# A cache beside a host that others write to

The cache sees its own writes only. `Coupled` puts it beside the slots of a host that carries out
every command of the cache and may be written to by others as well, and keeps a log of what was done
and what was sent. Two things are read off the log without asking the cache: the value that was last
sent to a slot and stands since (`standing`), and the value last asked for (`asked`).

They are what the cache remembers (`held_eq`, `wanted_eq`), whatever others do. That the memory is
also right about the host takes a condition: writes of others are made known before the cache is
next relied upon (`covered`).
-/

namespace RenderStream

/-- The slot that a command writes. -/
def Command.slot? : Command → Option Slot
  | .set s _ => some s
  | _ => none

/-- Whether a slot is out of date. -/
def Scope.covers (s : Slot) : Scope → Bool
  | .slot t => t = s
  | .allState => true
  | .caches => true

namespace SlotCache

/-! ## Restores -/

/-- The value that a restore sends to a slot. -/
def due (c : SlotCache) (s : Slot) : Option SlotValue :=
  (c.wanted.get s).filter fun v => !c.holds s v

/-- What is due for a slot depends on what is held and wanted of that slot only. -/
theorem due_congr {c c' : SlotCache} {s : Slot} (hheld : c.held.get s = c'.held.get s)
    (hwanted : c.wanted.get s = c'.wanted.get s) : c.due s = c'.due s := by
  simp only [due, holds, hheld, hwanted]

/-- What is due for a slot is what is wanted there. -/
theorem wanted_of_due {c : SlotCache} {s : Slot} {v : SlotValue} (h : c.due s = some v) :
    c.wanted.get s = some v := (Option.filter_eq_some_iff.1 h).1

/-- A slot is restored when something is due to it. -/
theorem restoreSlot_eq (c : SlotCache) (s : Slot) :
    c.restoreSlot s =
      match c.due s with
      | some v => (c.emit s v, [.set s v])
      | none => (c, []) := by
  rw [restoreSlot, due]
  cases c.wanted.get s with
  | none => rfl
  | some v =>
    cases hv : c.holds s v with
    | true => simp [Option.filter, hv]
    | false => simp [Option.filter, hv]

/-- A slot that is set anew holds what was due, and no other slot is touched. -/
theorem restoreNext_held (r : SlotCache × List Command) (s t : Slot) :
    (restoreNext r s).1.held.get t =
      if s = t then (r.1.due s).or (r.1.held.get t) else r.1.held.get t := by
  simp only [restoreNext, restoreSlot_eq]
  cases r.1.due s with
  | none => simp
  | some v => simp [emit, SlotMap.get_set]

/-- A slot is set anew by one write, when something is due. -/
theorem restoreNext_sent (r : SlotCache × List Command) (s : Slot) :
    (restoreNext r s).2 = r.2 ++ ((r.1.due s).map (.set s)).toList := by
  simp only [restoreNext, restoreSlot_eq]
  cases r.1.due s <;> rfl

/-- To restore one slot leaves alone what is due to the others. -/
theorem restoreNext_due (r : SlotCache × List Command) {s t : Slot} (h : s ≠ t) :
    (restoreNext r s).1.due t = r.1.due t :=
  due_congr (by rw [restoreNext_held, if_neg h]) (by rw [restoreNext_wanted])

/-- Slots are set anew by the writes that are due, one for each. -/
theorem foldl_restoreNext_sent : ∀ (ss : List Slot), ss.Nodup → ∀ r : SlotCache × List Command,
    (ss.foldl restoreNext r).2 = r.2 ++ ss.filterMap fun s => (r.1.due s).map (.set s)
  | [], _, r => (List.append_nil r.2).symm
  | s :: ss, h, r => by
    obtain ⟨hs, hss⟩ := List.nodup_cons.1 h
    have hdue : ∀ t ∈ ss, (restoreNext r s).1.due t = r.1.due t := fun t ht =>
      restoreNext_due r fun hst => hs (hst ▸ ht)
    have hrest : (ss.filterMap fun t => ((restoreNext r s).1.due t).map (.set t)) =
        ss.filterMap fun t => (r.1.due t).map (Command.set t) :=
      List.filterMap_congr fun t ht => by rw [hdue t ht]
    rw [List.foldl_cons, foldl_restoreNext_sent ss hss, restoreNext_sent, hrest,
      List.filterMap_cons,
      List.append_assoc]
    cases r.1.due s <;> rfl

/-- Each slot that is set anew holds what was due. -/
theorem foldl_restoreNext_held (t : Slot) : ∀ (ss : List Slot), ss.Nodup →
    ∀ r : SlotCache × List Command, (ss.foldl restoreNext r).1.held.get t =
      if t ∈ ss then (r.1.due t).or (r.1.held.get t) else r.1.held.get t
  | [], _, _ => rfl
  | s :: ss, h, r => by
    obtain ⟨hs, hss⟩ := List.nodup_cons.1 h
    rw [List.foldl_cons, foldl_restoreNext_held t ss hss, restoreNext_held]
    by_cases hst : s = t
    · subst hst
      simp [hs]
    · rw [restoreNext_due r hst, if_neg hst]
      simp [Ne.symm hst]

/-- No slot is listed twice. -/
theorem all_nodup : Slot.all.Nodup := by decide

/-- A restore sends what is due, slot by slot. -/
theorem restore_sent (c : SlotCache) :
    c.restore.2 = Slot.all.filterMap fun s => (c.due s).map (.set s) := by
  rw [restore_eq_foldl, foldl_restoreNext_sent _ all_nodup, List.nil_append]

/-- Behind a restore every slot holds what was due. -/
theorem restore_held (c : SlotCache) (s : Slot) :
    c.restore.1.held.get s = (c.due s).or (c.held.get s) := by
  rw [restore_eq_foldl, foldl_restoreNext_held _ _ all_nodup, if_pos (Slot.mem_all s)]

/-- Every command of a restore writes a wanted value. -/
theorem mem_restore_sent {c : SlotCache} {d : Command} (h : d ∈ c.restore.2) :
    ∃ s v, d = .set s v ∧ c.wanted.get s = some v := by
  rw [restore_sent] at h
  obtain ⟨s, -, hs⟩ := List.mem_filterMap.1 h
  obtain ⟨v, hv, rfl⟩ := Option.map_eq_some_iff.1 hs
  exact ⟨s, v, rfl, wanted_of_due hv⟩

/-- A restore writes no slot twice, and keeps to the order of the slots. -/
theorem restore_slots (c : SlotCache) : (c.restore.2.filterMap Command.slot?).Sublist Slot.all := by
  have hslots : (fun s => ((c.due s).map (Command.set s)).bind Command.slot?) =
      Option.guard fun s => (c.due s).isSome := by
    funext s
    cases hs : c.due s with
    | none => simp [Option.guard, hs]
    | some v => simp [Option.guard, hs, Command.slot?]
  rw [restore_sent, List.filterMap_filterMap, hslots, List.filterMap_eq_filter]
  exact List.filter_sublist

/-- A restore behind a restore sends nothing, as long as what is wanted equals itself. -/
theorem restore_restore {c : SlotCache}
    (hself : ∀ s v, c.wanted.get s = some v → v.numEq v = true) : c.restore.1.restore.2 = [] := by
  rw [restore_sent, List.filterMap_eq_nil_iff]
  intro s _
  rw [Option.map_eq_none_iff]
  cases hv : c.due s with
  | some v =>
    have hwanted := wanted_of_due hv
    have hholds : c.restore.1.holds s v = true := by
      rw [holds, restore_held, hv, Option.some_or, Option.any_some, hself s v hwanted]
    simp [due, restore_wanted, hwanted, Option.filter, hholds]
  | none =>
    rw [← hv]
    exact due_congr (by rw [restore_held, hv, Option.none_or]) (by rw [restore_wanted])

/-! ## A cache at work -/

/-- Something that is done with the cache, or to the slots of the host. -/
inductive Deed where
  | set (s : Slot) (v : SlotValue)
  | note (s : Slot) (v : SlotValue)
  | invalidate (scope : Scope)
  | restore
  /-- Somebody else writes to a slot of the host. -/
  | intrude (s : Slot) (v : SlotValue)
deriving DecidableEq

namespace Deed

/-- The value that a deed asks for in a slot. -/
def asks? (s : Slot) : Deed → Option SlotValue
  | .set t v => if t = s then some v else none
  | .note t v => if t = s then some v else none
  | .invalidate _ => none
  | .restore => none
  | .intrude _ _ => none

/-- What a deed of others does to the slots of the host. -/
def suffer (m : SlotMap SlotValue) : Deed → SlotMap SlotValue
  | .intrude s v => m.set s v
  | .set _ _ => m
  | .note _ _ => m
  | .invalidate _ => m
  | .restore => m

/-- Whether a deed says that a slot is out of date. -/
def forgets (s : Slot) : Deed → Bool
  | .invalidate scope => scope.covers s
  | .set _ _ => false
  | .note _ _ => false
  | .restore => false
  | .intrude _ _ => false

/-- Whether a deed relies on what the cache remembers. -/
def relies : Deed → Bool
  | .set _ _ => true
  | .restore => true
  | .note _ _ => false
  | .invalidate _ => false
  | .intrude _ _ => false

/-- The slots that others wrote to and that were not made known, behind a deed. -/
def taint (tainted : List Slot) : Deed → List Slot
  | .intrude s _ => s :: tainted
  | .invalidate scope => tainted.filter fun s => !scope.covers s
  | .set _ _ => tainted
  | .note _ _ => tainted
  | .restore => tainted

/-- Whether the writes of others are made known before the cache is next relied upon. -/
def covered (tainted : List Slot) : List Deed → Bool
  | [] => true
  | d :: ds => (!d.relies || tainted.isEmpty) && covered (d.taint tainted) ds

/-- Deeds are covered when the first ones are, and then the others. -/
theorem covered_append (ds es : List Deed) : ∀ tainted : List Slot,
    covered tainted (ds ++ es) = (covered tainted ds && covered (ds.foldl taint tainted) es) := by
  induction ds with
  | nil => exact fun _ => rfl
  | cons d ds ih =>
    intro tainted
    rw [List.cons_append, covered, ih, covered, Bool.and_assoc]
    rfl

end Deed

/-- The cache behind a deed, and its commands for the host. -/
def act (c : SlotCache) : Deed → SlotCache × List Command
  | .set s v => ((c.set s v).1, (c.set s v).2.toList)
  | .note s v => (c.note s v, [])
  | .invalidate scope => (c.invalidate scope, [])
  | .restore => c.restore
  | .intrude _ _ => (c, [])

/-- A deed, and the commands that it sent to the host. -/
structure Entry where
  deed : Deed
  sent : List Command

namespace Entry

/-- The value that stands in a slot behind an entry, given the one that stood there before it. -/
def stand (s : Slot) (before : Option SlotValue) (e : Entry) : Option SlotValue :=
  if e.deed.forgets s then none else (Command.last? (Command.written? s) e.sent).or before

/-- The value last sent to a slot, unless the slot was invalidated since. -/
def standing (s : Slot) (log : List Entry) : Option SlotValue := log.foldl (stand s) none

/-- The value last asked for in a slot. -/
def asked (s : Slot) (log : List Entry) : Option SlotValue :=
  (log.filterMap fun e => e.deed.asks? s).getLast?

/-- What stands in a slot is told by the last entry that says something of it. -/
theorem standing_append (s : Slot) (log : List Entry) (e : Entry) :
    standing s (log ++ [e]) = stand s (standing s log) e := by
  rw [standing, standing, List.foldl_append, List.foldl_cons, List.foldl_nil]

/-- What is asked for in a slot is told by the last deed that asks. -/
theorem asked_append (s : Slot) (log : List Entry) (e : Entry) :
    asked s (log ++ [e]) = (e.deed.asks? s).or (asked s log) := by
  rw [asked, asked, List.filterMap_append]
  cases he : e.deed.asks? s <;> simp [he]

end Entry

open Entry

/-- A cache, the slots of the host behind it, and what was done so far. -/
structure Coupled where
  cache : SlotCache := {}
  slots : SlotMap SlotValue
  log : List Entry := []

namespace Coupled

/-- One deed more. The host carries out what the cache sends, and suffers what others write. -/
def step (w : Coupled) (d : Deed) : Coupled :=
  { cache := (w.cache.act d).1
    slots := (d.suffer w.slots).after (w.cache.act d).2
    log := w.log ++ [⟨d, (w.cache.act d).2⟩] }

/-- A sequence of deeds, in front of a host whose slots hold anything. -/
def run (slots : SlotMap SlotValue) (ds : List Deed) : Coupled := ds.foldl step { slots }

/-- Deeds are run one after the other. -/
theorem run_append (slots : SlotMap SlotValue) (ds : List Deed) (d : Deed) :
    run slots (ds ++ [d]) = (run slots ds).step d := by
  rw [run, run, List.foldl_append, List.foldl_cons, List.foldl_nil]

end Coupled

/-! ## What the cache remembers -/

/-- A deed wants what it asks for, and else what was wanted before. -/
theorem act_wanted (c : SlotCache) (d : Deed) (s : Slot) :
    (c.act d).1.wanted.get s = (d.asks? s).or (c.wanted.get s) := by
  cases d with
  | set t v =>
    rw [act, set_wanted, SlotMap.get_set, Deed.asks?]
    split <;> rfl
  | note t v =>
    rw [act, note, SlotMap.get_set, Deed.asks?]
    split <;> rfl
  | invalidate scope => rfl
  | restore => rw [act, restore_wanted, Deed.asks?, Option.none_or]
  | intrude t v => rfl

/-- Behind a request a slot holds what was sent, and else what it held. -/
theorem set_held (c : SlotCache) (s t : Slot) (v : SlotValue) :
    (c.set s v).1.held.get t =
      (Command.last? (Command.written? t) (c.set s v).2.toList).or (c.held.get t) := by
  rw [set]
  split
  · rfl
  · rw [emit, SlotMap.get_set, Option.toList_some, Command.last?_cons, Command.written?]
    split <;> rfl

/-- The last command of a restore for a slot is the only one. -/
theorem last?_restore (c : SlotCache) (s : Slot) :
    Command.last? (Command.written? s) c.restore.2 = c.due s := by
  have hwritten : (fun t => ((c.due t).map (Command.set t)).bind (Command.written? s)) =
      fun t => if t = s then c.due s else none := by
    funext t
    by_cases hts : t = s
    · subst hts
      cases ht : c.due t <;> simp [Command.written?]
    · cases ht : c.due t <;> simp [Command.written?, hts]
  rw [restore_sent, Command.last?, List.filterMap_filterMap, hwritten]
  cases s <;> cases c.due _ <;> rfl

/-- What a deed makes a slot hold is told by its entry. -/
theorem act_held (c : SlotCache) (d : Deed) (s : Slot) :
    (c.act d).1.held.get s = Entry.stand s (c.held.get s) ⟨d, (c.act d).2⟩ := by
  rw [Entry.stand]
  cases d with
  | set t v => exact c.set_held t s v
  | note t v => rfl
  | invalidate scope =>
    cases scope with
    | slot t =>
      rw [act, invalidate, SlotMap.get_set]
      by_cases hts : t = s
      · simp [Deed.forgets, Scope.covers, hts]
      · simp [Deed.forgets, Scope.covers, hts, Command.last?]
    | allState | caches => simp [act, invalidate, Deed.forgets, Scope.covers]
  | restore => rw [act, restore_held, last?_restore, Deed.forgets, if_neg Bool.false_ne_true]
  | intrude t v => rfl

namespace Coupled

/-- The cache remembers what was last sent and was not invalidated since. -/
theorem held_eq (slots : SlotMap SlotValue) (ds : List Deed) (s : Slot) :
    (run slots ds).cache.held.get s = standing s (run slots ds).log := by
  induction ds using List.reverseRecOn with
  | nil => exact SlotMap.get_const none s
  | append_singleton ds d ih =>
    rw [run_append, step, act_held, ih, standing_append]

/-- The cache remembers what was last asked for. -/
theorem wanted_eq (slots : SlotMap SlotValue) (ds : List Deed) (s : Slot) :
    (run slots ds).cache.wanted.get s = asked s (run slots ds).log := by
  induction ds using List.reverseRecOn with
  | nil => exact SlotMap.get_const none s
  | append_singleton ds d ih => rw [run_append, step, act_wanted, ih, asked_append]

end Coupled

/-! ## The memory and the host -/

/-- What the cache believes of the host is so, except for some slots. -/
def TellsBut (c : SlotCache) (tainted : List Slot) (m : SlotMap SlotValue) : Prop :=
  ∀ s ∉ tainted, ∀ v, c.held.get s = some v → m.get s = v

/-- A cache that is wrong about no slot tells the host's state. -/
theorem tellsBut_nil {c : SlotCache} {m : SlotMap SlotValue} : c.TellsBut [] m ↔ c.Tells m :=
  ⟨fun h s => h s List.not_mem_nil, fun h s _ => h s⟩

/-- A deed keeps the cache right about all slots that nobody else wrote to unknown to it. -/
theorem TellsBut.step {w : Coupled} {tainted : List Slot} (h : w.cache.TellsBut tainted w.slots)
    {d : Deed} (hd : (!d.relies || tainted.isEmpty) = true) :
    (w.step d).cache.TellsBut (d.taint tainted) (w.step d).slots := by
  cases d with
  | set s v =>
    obtain rfl : tainted = [] := by simpa [Deed.relies] using hd
    exact tellsBut_nil.2 ((tellsBut_nil.1 h).set s v).1
  | restore =>
    obtain rfl : tainted = [] := by simpa [Deed.relies] using hd
    exact tellsBut_nil.2 (tellsBut_nil.1 h).restore.1
  | note s v => exact h
  | invalidate scope =>
    intro s hs v hv
    have hheld : (w.cache.act (.invalidate scope)).1.held.get s = some v := hv
    rw [act_held, Entry.stand] at hheld
    split at hheld
    · cases hheld
    · next hcovers =>
      refine h s (fun hmem => hs ?_) v hheld
      exact List.mem_filter.2 ⟨hmem, by simpa [Deed.forgets] using hcovers⟩
  | intrude s v =>
    intro t ht u hu
    obtain ⟨hts, ht⟩ := not_or.1 (mt List.mem_cons.2 ht)
    have hslots : (w.step (.intrude s v)).slots = w.slots.set s v := rfl
    rw [hslots, SlotMap.get_set_of_ne _ _ (Ne.symm hts)]
    exact h t ht u hu

/-- Behind every run of covered deeds the cache tells the host's state, but for the slots that were
written outside. -/
theorem TellsBut.run (slots : SlotMap SlotValue) (ds : List Deed)
    (hds : Deed.covered [] ds = true) :
    (Coupled.run slots ds).cache.TellsBut (ds.foldl Deed.taint [])
      (Coupled.run slots ds).slots := by
  induction ds using List.reverseRecOn with
  | nil =>
    intro s _ v hv
    simp [Coupled.run] at hv
  | append_singleton ds d ih =>
    rw [Deed.covered_append, Bool.and_eq_true] at hds
    obtain ⟨hds, hd⟩ := hds
    rw [Coupled.run_append, List.foldl_append]
    exact (ih hds).step (Bool.and_eq_true_iff.1 hd).1

/-- Where the cache may be relied upon it is right about the host. -/
theorem tells_run (slots : SlotMap SlotValue) {ds : List Deed} {d : Deed} (hd : d.relies = true)
    (hds : Deed.covered [] (ds ++ [d]) = true) :
    (Coupled.run slots ds).cache.Tells (Coupled.run slots ds).slots := by
  rw [Deed.covered_append, Bool.and_eq_true] at hds
  obtain ⟨hds, hclean⟩ := hds
  have htainted : ds.foldl Deed.taint [] = [] := by
    simpa [Deed.covered, hd] using hclean
  have htells := TellsBut.run slots ds hds
  rw [htainted] at htells
  exact tellsBut_nil.1 htells

/-! ## A host that is meddled with -/

namespace Demo

/-- A texture that somebody else unbinds and that is made known, and a culling mode that is only
noted. -/
def meddling : List Deed :=
  [.set .scissor (.rect ⟨0, 0, 9, 9⟩), .set .texture0 (.handle 1), .intrude .texture0 (.handle 7),
    .note .cullMode (.cull .back), .invalidate (.slot .texture0)]

def slots : SlotMap SlotValue := .const (.flag false)

/-- The scissor again, with a zero of the other sign. -/
def scissor : SlotValue := .rect ⟨-0, 0, 9, 9⟩

end Demo

/-- What the cache leaves out the host has no need of. Whatever was done before, as long as writes
of others were made known: behind a write the host holds the value; no command means that it held
the value before; and there is a command just when no value stands that equals the new one. A
restore sends one command at most to each slot, in slot order; behind it the host holds all that was
last asked for, and another restore has nothing to send, as long as what was asked for equals
itself. -/
theorem suppression_safe (slots : SlotMap SlotValue) (before : List Deed) :
    let w := Coupled.run slots before
    (∀ s v, Deed.covered [] (before ++ [.set s v]) = true →
      ((w.step (.set s v)).slots.get s).Same v ∧
      ((w.cache.set s v).2 = none → (w.slots.get s).Same v) ∧
      (w.cache.set s v).2 =
        if (standing s w.log).any (·.numEq v) then none else some (.set s v)) ∧
    (Deed.covered [] (before ++ [.restore]) = true →
      (w.cache.restore.2.filterMap Command.slot?).Sublist Slot.all ∧
      (∀ d ∈ w.cache.restore.2, ∃ s v, d = .set s v ∧ asked s w.log = some v) ∧
      (∀ s v, asked s w.log = some v → ((w.step .restore).slots.get s).Same v) ∧
      ((∀ s v, asked s w.log = some v → v.numEq v = true) →
        (w.step .restore).cache.restore.2 = [])) := by
  intro w
  constructor
  · intro s v hcovered
    have htells := tells_run slots rfl hcovered
    have hholds : w.cache.holds s v = (standing s w.log).any (·.numEq v) := by
      rw [holds, Coupled.held_eq]
    refine ⟨(htells.set s v).2, fun hnone => ?_, ?_⟩
    · have hset := (htells.set s v).2
      rwa [hnone] at hset
    · rw [← hholds, SlotCache.set]
      split
      · next h => exact (if_pos h).symm
      · next h => exact (if_neg h).symm
  · intro hcovered
    have htells := tells_run slots rfl hcovered
    have hasked : ∀ s, w.cache.wanted.get s = asked s w.log := Coupled.wanted_eq slots before
    refine ⟨restore_slots _, fun d hd => ?_, fun s v hv => ?_, fun hself => ?_⟩
    · obtain ⟨s, v, hset, hwanted⟩ := mem_restore_sent hd
      exact ⟨s, v, hset, hasked s ▸ hwanted⟩
    · exact htells.restore.2.1 s v (hasked s ▸ hv)
    · exact restore_restore fun s v hv => hself s v (hasked s ▸ hv)

/-- A write that is left out, since the zeros of a scissor do not tell it from the one that stands,
and a restore that brings back a texture and a mode that was never sent. -/
theorem suppression_safe_demo :
    let w := Coupled.run Demo.slots Demo.meddling
    Deed.covered [] (Demo.meddling ++ [.set .scissor Demo.scissor]) = true ∧
      (w.cache.set .scissor Demo.scissor).2 = none ∧
      (w.slots.get .scissor).Same Demo.scissor ∧
      Deed.covered [] (Demo.meddling ++ [.restore]) = true ∧
      asked .cullMode w.log = some (.cull .back) ∧
      ((w.step .restore).slots.get .cullMode).Same (.cull .back) ∧
      (w.step .restore).cache.restore.2 = [] := by
  intro w
  obtain ⟨hset, hrestore⟩ := suppression_safe Demo.slots Demo.meddling
  have hcovered : Deed.covered [] (Demo.meddling ++ [.set .scissor Demo.scissor]) = true := by
    decide
  have hcovered' : Deed.covered [] (Demo.meddling ++ [.restore]) = true := by decide
  have hnone : (w.cache.set .scissor Demo.scissor).2 = none := by decide +kernel
  have hasked : asked .cullMode w.log = some (.cull .back) := by decide +kernel
  have hself : ∀ s v, asked s w.log = some v → v.numEq v = true := by
    have hall : ∀ s ∈ Slot.all, ∀ v ∈ asked s w.log, v.numEq v = true := by decide +kernel
    exact fun s v hv => hall s (Slot.mem_all s) v hv
  obtain ⟨-, -, hmeets, hquiet⟩ := hrestore hcovered'
  exact ⟨hcovered, hnone, (hset _ _ hcovered).2.1 hnone, hcovered', hasked, hmeets _ _ hasked,
    hquiet hself⟩

end SlotCache

end RenderStream
