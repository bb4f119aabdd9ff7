import RenderStream.Proofs.Accounts
import RenderStream.Proofs.Ending

/-!
# Records conserve work

What a record says of a presented frame adds up to what was sent and to what the host presented
(`Conserves`). It does so when the counts began at nothing with the frame (`Cleared`). The end of a
frame sees to that, of a dropped one too, but not that of a frame that stops the pipeline: such a
pipeline is not meant to go on, and if it does, the counts of the frame that stopped it go into the
next record (`conserves_not_behind_stop`).
-/

namespace RenderStream

open Attempt

/-- What a record says of a frame, `owed` being the writes that were to be restored before it, `bs`
the batches that the host took in it, and `y` what it presented. Counts that the size of the frame
does not bound are given as they are cut to 32 bits. -/
structure Conserves (r : Record) (frame : Frame) (owed : List Command)
    (bs : List (List Command)) (y : Shown) : Prop where
  index : r.index = frame.index
  presented : r.presented = true
  /-- Every draw is tested, in display lists too. -/
  tested : r.tested.toNat = (Command.draws frame.commands).length
  discarded_le : r.discarded ≤ r.tested
  /-- Draws that were not discarded were presented. -/
  drawn : r.tested.toNat - r.discarded.toNat = (Command.draws y.commands).length
  particles : r.particles.toNat = (Command.draws frame.commands).countP (·.kind = .particle)
  entities : r.entities.toNat = (Command.draws frame.commands).countP (·.kind = .entity)
  skipped_le : r.particlesSkipped ≤ r.particles
  culled_le : r.entitiesCulled ≤ r.entities
  requests : r.stateRequests.toNat = Command.sets frame.commands
  suppressed_le : r.stateSuppressed ≤ r.stateRequests
  restored : owed <+: y.commands
  /-- Writes that were not left out were presented, and so were those that were restored. -/
  written : r.stateRequests.toNat - r.stateSuppressed.toNat + owed.length = Command.sets y.commands
  /-- Every display list is a hit or a miss. -/
  lookups : ∃ hits misses, hits + misses = frame.listCalls.length ∧
    r.listHits = Pipeline.saturate hits ∧ r.listMisses = Pipeline.saturate misses
  commands : r.commands = .ofNat y.commands.length
  flatten : bs.flatten = y.commands
  batches : r.batches = .ofNat bs.length

namespace Pipeline

/-! ## Counts that begin at nothing -/

section
variable {η : Type}

/-- Nothing was counted yet. -/
structure Cleared (p : Pipeline η) : Prop where
  culling : p.culling.counts = {}
  slots : p.slots.counts = {}
  batch : p.batch.counts = {}
  lists : p.lists.frame = {}

/-- What is done behind a frame clears the counts of the frame. -/
theorem cleared_conclude (p : Pipeline η) (frame : Frame) (presented : Bool) (time : Single) :
    Cleared (p.conclude frame presented time) := ⟨rfl, rfl, rfl, rfl⟩

variable [Host η]

/-- At the start the counts of the frame are clear. -/
theorem cleared_start (s : Settings) (host : η) : Cleared (ofSettings s host) :=
  ⟨rfl, rfl, rfl, rfl⟩

/-- A frame that does not stop the pipeline clears the counts, dropped or not. -/
theorem cleared_feed {p : Pipeline η} {a : Arrival} (hok : (p.feed a).failure = none) :
    Cleared (p.feed a).state := by
  have hending := p.feed_ending a
  generalize p.feed a = r at hok hending ⊢
  cases hending with
  | presented q _ _ => exact cleared_conclude _ _ _ _
  | dropped q e _ _ _ => exact cleared_conclude _ _ _ _
  | fatal q e _ _ _ => cases hok

/-- Behind a run without an error the counts of the frame are clear. -/
theorem Cleared.run (as : List Arrival) : ∀ {p : Pipeline η}, Cleared p →
    (∀ o ∈ p.outcomes as, o.result = .ok ()) → Cleared (p.run as) := by
  induction as with
  | nil => exact fun h _ => h
  | cons a as ih =>
    intro p _ hok
    obtain ⟨ha, hrest⟩ := List.forall_mem_cons.1 hok
    exact ih (cleared_feed (result_ok.1 ha)) hrest

end

end Pipeline

/-! ## Lookups -/

namespace ListCache

/-- How often the cache was asked in the frame. -/
def asked (c : ListCache) : Nat := c.frame.hits + c.frame.misses

/-- A lookup asks once. -/
theorem asked_lookup (c : ListCache) (key : Fingerprint) :
    (c.lookup key).1.asked = c.asked + 1 := by
  rw [lookup]
  split
  · exact Nat.add_right_comm _ _ _
  · rfl

/-- An insertion does not ask. -/
theorem asked_insert (c : ListCache) (key : Fingerprint) (l : CompiledList) :
    (c.insert key l).1.asked = c.asked := by
  rw [insert]
  split
  · split <;> rfl
  · rfl

end ListCache

namespace Pipeline

section
variable {η : Type} (p : Pipeline η)

/-- A list that is called is asked for once. -/
theorem asked_compiled (call : ListCall) : (p.compiled call).1.lists.asked = p.lists.asked + 1 := by
  have hlookup := p.lists.asked_lookup (call.fingerprint.combine p.culling.fingerprint)
  rw [compiled]
  rcases hl : p.lists.lookup (call.fingerprint.combine p.culling.fingerprint) with ⟨lists, _ | l⟩
  · rw [hl] at hlookup
    exact (lists.asked_insert _ _).trans hlookup
  · rw [hl] at hlookup
    exact hlookup

/-- A cache that is emptied was asked no more. -/
theorem asked_adopt (profile : Profile) : (p.adopt profile).lists.asked = p.lists.asked := by
  rw [adopt]
  dsimp only
  split <;> rfl

variable [Host η]

/-- An item asks for the list that it calls. -/
theorem asked_item (i : Item) :
    (p.item i).state.lists.asked = p.lists.asked + (Frame.listCalls { items := [i] }).length := by
  cases i with
  | command c => exact congrArg (·.state.lists.asked) (p.execute_dressed p.lists p.display c)
  | list call =>
    have hcompiled := p.asked_compiled call
    rw [item, Pipeline.call]
    generalize p.compiled call = r at hcompiled ⊢
    obtain ⟨q, l⟩ := r
    exact (congrArg (·.state.lists.asked) (q.replay_dressed q.lists q.display l)).trans hcompiled
  | invalidate scope =>
    rw [item, invalidate]
    dsimp only
    split <;> rfl

/-- Every display list of a frame that comes through is asked for once. -/
theorem asked_each (is : List Item) : ∀ p : Pipeline η,
    (each item noteItem p is).Ends
      (fun q => q.lists.asked = p.lists.asked + (Frame.listCalls { items := is }).length)
      fun _ => True := by
  induction is with
  | nil => exact fun p => rfl
  | cons i is ih =>
    intro p
    have hcalls : (Frame.listCalls { items := i :: is }).length =
        (Frame.listCalls { items := [i] }).length + (Frame.listCalls { items := is }).length := by
      rw [Frame.listCalls, ← List.singleton_append, List.filterMap_append, List.length_append]
      rfl
    have hitem : (p.item i).Ends (fun q => q.lists.asked =
        p.lists.asked + (Frame.listCalls { items := [i] }).length) fun _ => True :=
      .of_state (p.asked_item i)
    rw [each_cons, hcalls, ← Nat.add_assoc]
    refine hitem.andEach (fun q hq => ?_) fun _ _ => trivial
    rw [← hq]
    exact ih q

/-- A frame that comes through asked for each list that it calls. -/
theorem asked_attempt (frame : Frame) :
    (p.attempt frame).Ends (fun q => q.lists.asked = p.lists.asked + frame.listCalls.length)
      fun _ => True := by
  have hrestore : ({ p with ordinal := 0 } : Pipeline η).restore.Ends
      (fun q => q.lists.asked = p.lists.asked) fun _ => True :=
    .of_state <| congrArg (·.state.lists.asked)
      (restore_dressed { p with ordinal := 0 } p.lists p.display)
  have hitems : ({ p with ordinal := 0 } : Pipeline η).items frame.items |>.Ends
      (fun q => q.lists.asked = p.lists.asked + frame.listCalls.length) fun _ => True := by
    refine hrestore.andEach (fun q hq => ?_) fun _ _ => trivial
    rw [← hq]
    exact asked_each frame.items q
  refine hitems.andThen fun q hq => ?_
  rw [ends_map]
  exact .of_state hq

end

/-! ## The record of a frame -/

section
variable {rs : List Request} {t : Settings.Culling} {p p' q q' : Pipeline Scripted}

/-- Accounts do not depend on the cache. -/
theorem InStep.closes {frame : Frame} {w : Work} {bs : List (List Command)} (h : InStep rs t p q)
    (h' : InStep rs t p' q') (hclose : Closes q frame w bs q') : Closes p frame w bs p' := by
  cases h
  cases h'
  exact ⟨hclose.settles, hclose.frames, hclose.culling, hclose.requests, hclose.suppressed,
    hclose.flatten, hclose.taken, hclose.batches, hclose.commands⟩

/-- A pipeline in step with an idle one is idle. -/
theorem InStep.idle (h : InStep rs t p q) (hidle : Idle q) : Idle p := by
  cases h
  exact ⟨hidle.taken, hidle.buffer, hidle.tells, hidle.meets⟩

/-- Behind a run the accounts of a frame that comes through are closed. -/
theorem attempt_closes (s : Settings) (script : Script) (before : List Arrival) (a : Arrival)
    (hrs : NoCollision ((start s script).requests (before ++ [a]))) :
    Idle ((start s script).run before) ∧ (((start s script).run before).attempt a.frame).Ends
      (fun q => ∃ w bs, Closes ((start s script).run before) a.frame w bs q) fun _ => True := by
  rw [requests_append] at hrs
  have hbefore := inStep_run s ({ script } : Scripted) before a.frame.items hrs fun r hr => by
    simpa [requests] using hr
  have hattempt := InStep.attempt hbefore hrs
  have hidle := (idle_start s script).runAfresh before
  have hcloses := hidle.attemptAfresh_closes a.frame
  refine ⟨hbefore.1.idle hidle, ?_⟩
  generalize ((start s script).run before).attempt a.frame = r at hattempt ⊢
  generalize ((start s script).runAfresh before).attemptAfresh a.frame = r' at hattempt hcloses
  obtain ⟨p', _ | e⟩ := r
  · obtain ⟨q', _ | e'⟩ := r'
    · obtain ⟨w, bs, hclose⟩ := hcloses
      exact ⟨w, bs, hbefore.1.closes hattempt hclose⟩
    · exact hattempt.elim
  · trivial

/-- What is owed are state writes. -/
theorem Idle.owed_sets (h : Idle p) : ∀ c ∈ p.owed, c.isSet = true := by
  intro c hc
  rw [owed] at hc
  split at hc
  · obtain ⟨-, -, hwrites⟩ := h.tells.restore
    obtain ⟨s, v, rfl, -⟩ := hwrites c hc
    rfl
  · cases hc

/-- Closed accounts of a frame that began with cleared counts are what the record shows. -/
theorem Closes.conserves {frame : Frame} {w : Work} {bs : List (List Command)}
    (h : Closes p frame w bs q) (hidle : Idle p) (hclear : Cleared p)
    (hsize : frame.commands.length < 2 ^ 32)
    (hasked : q.lists.asked = frame.listCalls.length) (time : Single) :
    Conserves (q.keepFrame.conclude frame true time).display.record frame p.owed bs
      ⟨p.batch.host.screen.slots, p.owed ++ w.sent⟩ := by
  obtain ⟨⟨⟨hasks, hsent⟩, hrules, hdraws⟩, -, hculling, hrequests, hsuppressed, hflatten, -,
    hbatches, hcommands⟩ := h
  obtain ⟨howedSets, howedDraws⟩ := Command.of_all_sets hidle.owed_sets
  rw [hclear.culling, CullCounts.zero_add] at hculling
  rw [hclear.slots, UInt32.zero_add] at hrequests hsuppressed
  rw [hclear.batch, UInt32.zero_add] at hbatches hcommands
  have hlength := hrules.length_eq
  have hfew : w.rulings.length < 2 ^ 32 :=
    Nat.lt_of_le_of_lt (hlength ▸ Command.draws_length_le _) hsize
  obtain ⟨htested, hdiscarded, hdistant, hdecimated, hentities, hparticles⟩ :=
    CullCounts.toNat_tally hfew
  rw [← hculling] at htested hdiscarded hdistant hdecimated hentities hparticles
  have haskedNat : q.slots.counts.requests.toNat = w.asked := by
    rw [hrequests, hasks]
    exact UInt32.toNat_ofNat_of_lt' (Nat.lt_of_le_of_lt (Command.sets_le _) hsize)
  have hsavedNat : q.slots.counts.suppressed.toNat = w.saved := by
    have hsets := Command.sets_le frame.commands
    rw [hsuppressed]
    exact UInt32.toNat_ofNat_of_lt' (by rw [UInt32.size]; omega)
  refine ⟨rfl, rfl, htested.trans hlength, ?_, ?_, hparticles.trans (hrules.count_kind _),
    hentities.trans (hrules.count_kind _), ?_, ?_, haskedNat.trans hasks, ?_,
    List.prefix_append _ _, ?_, ?_, hcommands, hflatten, hbatches⟩
  · change q.culling.counts.discarded.toNat ≤ q.culling.counts.tested.toNat
    omega
  · change q.culling.counts.tested.toNat - q.culling.counts.discarded.toNat = _
    have hkept : w.rulings.countP Ruling.kept ≤ w.rulings.length := List.countP_le_length
    rw [Command.draws_append, howedDraws, List.nil_append, hdraws]
    omega
  · change q.culling.counts.decimated.toNat ≤ q.culling.counts.particles.toNat
    rw [hdecimated, hparticles]
    exact hrules.count_le.2
  · change q.culling.counts.distant.toNat ≤ q.culling.counts.entities.toNat
    rw [hdistant, hentities]
    exact hrules.count_le.1
  · change q.slots.counts.suppressed.toNat ≤ q.slots.counts.requests.toNat
    omega
  · change q.slots.counts.requests.toNat - q.slots.counts.suppressed.toNat + _ = _
    rw [Command.sets_append, howedSets]
    omega
  · exact ⟨_, _, (asked_adopt _ _).trans hasked, rfl, rfl⟩

end

/-- The record of a presented frame conserves work, as long as no frame came behind one that stopped
the pipeline: every draw is tested and is discarded or presented, every state write is asked for and
is left out or presented, every display list is a hit or a miss, and what is presented left in the
batches that were counted. Frames that were dropped leave no trace in the counts. -/
theorem record_conserves (s : Settings) (script : Script) (before : List Arrival) (a : Arrival)
    {y : Shown} (hok : ∀ o ∈ (start s script).outcomes before, o.result = .ok ())
    (hrs : NoCollision ((start s script).requests (before ++ [a])))
    (hsize : a.frame.commands.length < 2 ^ 32)
    (hy : (((start s script).run before).feed a).state.presentedFrames =
      ((start s script).run before).presentedFrames ++ [y]) :
    let p := (start s script).run before
    let q := (p.feed a).state
    ∃ bs, q.batch.host.taken = p.batch.host.taken ++ bs ∧
      Conserves q.display.record a.frame p.owed bs y := by
  intro p q
  obtain ⟨hidle, hcloses⟩ := attempt_closes s script before a hrs
  have hclear : Cleared p := (cleared_start s ({ script } : Scripted)).run before hok
  have hends := feed_ends s script before a hrs
  have hasked := p.asked_attempt a.frame
  have hnone : p.lists.asked = 0 := congrArg (fun n : ListCounts => n.hits + n.misses) hclear.lists
  have hframes : q.presentedFrames = p.presentedFrames ++ [y] := hy
  change (p.attempt a.frame).Ends _ _ at hcloses hends
  have hfeed : p.feed a = settle a.frame a.time (p.attempt a.frame) := rfl
  rcases hattempt : p.attempt a.frame with ⟨q', _ | e⟩
  · rw [hattempt] at hcloses hasked hfeed
    obtain ⟨w, bs, hclose⟩ := hcloses
    have hlists : q'.lists.asked = a.frame.listCalls.length := by
      rw [ends_ok.1 hasked, hnone, Nat.zero_add]
    have hq : q = q'.keepFrame.conclude a.frame true a.time := congrArg Attempt.state hfeed
    have hshown : q.presentedFrames = q'.presentedFrames := by rw [hq]; rfl
    rw [hshown, hclose.frames, List.append_cancel_left_eq] at hframes
    obtain rfl := List.singleton_inj.1 hframes
    refine ⟨bs, ?_, ?_⟩
    · rw [hq]
      exact hclose.taken
    · rw [hq]
      exact hclose.conserves hidle hclear hsize hlists a.time
  · rw [hattempt] at hends
    have hsame : q.presentedFrames = p.presentedFrames := hends
    rw [hsame] at hframes
    simp at hframes

set_option maxRecDepth 10000 in
/-- A frame behind one that was dropped in the middle of its second display list. -/
theorem record_conserves_demo :
    let p := (start Demo.settings (Demo.refusing 2)).run [Demo.arrival 1 .white]
    let q := (p.feed (Demo.arrival 1 .black)).state
    p.owed ≠ [] ∧ ∃ bs, q.batch.host.taken = p.batch.host.taken ++ bs ∧
      Conserves q.display.record (Demo.frame .black) p.owed bs (lastPresented q) :=
  ⟨by decide +kernel,
    record_conserves Demo.settings (Demo.refusing 2) [Demo.arrival 1 .white]
      (Demo.arrival 1 .black) (by decide +kernel) (by decide +kernel) (by decide +kernel)
      (by decide +kernel)⟩

end Pipeline

namespace Demo

/-- Settings under which one lost frame is one too many. -/
def brittle : Settings := { batching := { batchCapacity := 2, failureLimit := 1 } }

end Demo

namespace Pipeline

set_option maxRecDepth 10000 in
/-- Behind a frame that stopped the pipeline a record does not conserve work: the draws of the list
that was called when the host failed are counted once more. -/
theorem conserves_not_behind_stop :
    let p := (start Demo.brittle (Demo.refusing 0)).run [Demo.arrival 1 .white]
    let q := (p.feed (Demo.arrival 1 .black)).state
    Demo.brittle.repaired = Demo.brittle ∧
      NoCollision ((start Demo.brittle (Demo.refusing 0)).requests
        ([Demo.arrival 1 .white] ++ [Demo.arrival 1 .black])) ∧
      (Demo.arrival 1 .black).frame.commands.length < 2 ^ 32 ∧
      q.presentedFrames = p.presentedFrames ++ [lastPresented q] ∧
      ∀ bs, ¬Conserves q.display.record (Demo.frame .black) p.owed bs (lastPresented q) :=
  ⟨by decide +kernel, by decide +kernel, by decide +kernel, by decide +kernel,
    fun _ h => absurd h.tested (by decide +kernel)⟩

end Pipeline

end RenderStream
