import RenderStream.Proofs.Run
import RenderStream.Proofs.Scripted

/-!
# The cache of compiled lists is transparent

A pipeline with the cache stays in step with the one that compiles every list anew (`InStep`): the
two share everything but the cache and what is displayed about it. Neither of these is read on the
way of a command, so every operation commutes with exchanging them (`dressed`), and where the cache
is asked, `compiled_eq` gives the same list. Profiles and invalidations empty the cache at worst.
-/

namespace RenderStream

open Attempt

namespace Pipeline

variable {η : Type}

/-- The pipeline with another cache and another display. -/
def dressed (p : Pipeline η) (lists : ListCache) (display : Display) : Pipeline η :=
  { p with lists, display }

section
variable (p : Pipeline η) (lists : ListCache) (display : Display)

/-- What is noted of a command does not touch the cache. -/
theorem note_dressed (c : Command) :
    (p.dressed lists display).note c = (p.note c).dressed lists display := by
  cases c <;> rfl

/-- What is noted of commands does not touch the cache. -/
theorem notes_dressed (cs : List Command) :
    cs.foldl note (p.dressed lists display) = (cs.foldl note p).dressed lists display :=
  List.foldl_hom (·.dressed lists display) fun p c => note_dressed p lists display c

variable [Host η]

/-- Sending a command does not touch the cache. -/
theorem send_dressed (c : Command) :
    (p.dressed lists display).send c = (p.send c).map (·.dressed lists display) := rfl

/-- Sending commands does not touch the cache. -/
theorem sends_dressed (cs : List Command) :
    each send (fun p _ => p) (p.dressed lists display) cs =
      (each send (fun p _ => p) p cs).map (·.dressed lists display) :=
  each_map (fun p c => p.send_dressed lists display c) (fun _ _ => rfl) cs p

/-- A state write does not touch the cache. -/
theorem write_dressed (s : Slot) (v : SlotValue) :
    (p.dressed lists display).write s v = (p.write s v).map (·.dressed lists display) := by
  have hslots : (p.dressed lists display).slots = p.slots := rfl
  rw [write_eq, write_eq, hslots]
  cases (p.slots.set s v).2 <;> rfl

/-- A command does not touch the cache. -/
theorem execute_dressed (c : Command) :
    (p.dressed lists display).execute c = (p.execute c).map (·.dressed lists display) := by
  cases c with
  | set s v => exact p.write_dressed lists display s v
  | draw x =>
    have hverdict : (p.dressed lists display).culling.test x (p.dressed lists display).ordinal =
        p.culling.test x p.ordinal := rfl
    rw [execute, execute, draw_eq, draw_eq, hverdict]
    split <;> rfl
  | clear | barrier => rfl

/-- A command of a compiled list does not touch the cache. -/
theorem replayCommand_dressed (c : Command) :
    (p.dressed lists display).replayCommand c =
      (p.replayCommand c).map (·.dressed lists display) := by
  cases c with
  | set s v => exact p.write_dressed lists display s v
  | draw | clear | barrier => rfl

/-- Replaying a compiled list does not touch the cache. -/
theorem replay_dressed (l : CompiledList) :
    (p.dressed lists display).replay l = (p.replay l).map (·.dressed lists display) := by
  have htallied : (p.dressed lists display).tallied l = (p.tallied l).dressed lists display := rfl
  rw [replay_eq, replay_eq, htallied]
  exact each_map (fun p c => p.replayCommand_dressed lists display c)
    (fun p c => p.note_dressed lists display c) l.commands (p.tallied l)

/-- Compiling a list anew does not touch the cache. -/
theorem callAfresh_dressed (c : ListCall) :
    (p.dressed lists display).callAfresh c = (p.callAfresh c).map (·.dressed lists display) :=
  p.replay_dressed lists display _

/-- Setting the host's state anew does not touch the cache. -/
theorem restore_dressed :
    (p.dressed lists display).restore = p.restore.map (·.dressed lists display) := by
  have hrestore : (p.dressed lists display).mustRestore = p.mustRestore := rfl
  have hslots : (p.dressed lists display).slots = p.slots := rfl
  have hrestored : (p.dressed lists display).restored = p.restored.dressed lists display := by
    simp only [restored, dressed]
  rw [restore_eq, restore_eq, hrestore, hrestored, hslots]
  split
  · exact p.restored.sends_dressed lists display p.slots.restore.2
  · rfl

end

/-- As long as the cache answers requests that fingerprints tell apart, a display list is compiled
on the spot, whether it is in the cache or not. -/
theorem call_eq [Host η] (p : Pipeline η) (c : ListCall) {rs : List Request} (hrs : NoCollision rs)
    (hlists : p.lists.Answers rs p.culling.tolerances) (hr : ⟨c, p.upstream.culling⟩ ∈ rs) :
    ∃ lists : ListCache, lists.Answers rs p.culling.tolerances ∧
      p.call c = (p.dressed lists p.display).callAfresh c := by
  obtain ⟨lists, hanswers, hcompiled⟩ := p.compiled_eq c hrs hlists hr
  refine ⟨lists, hanswers, ?_⟩
  rw [call, hcompiled]
  rfl

/-! ## Keeping step -/

/-- A pipeline whose cache answers requests out of `rs` beside a pipeline that may differ from it in
the cache and in what is displayed about it. -/
inductive InStep (rs : List Request) (t : Settings.Culling) : Pipeline η → Pipeline η → Prop where
  | intro (core : Pipeline η) (lists lists' : ListCache) (display display' : Display)
      (answers : lists.Answers rs t) (tolerances : core.culling.tolerances = t)
      (shown : display.withoutLists = display'.withoutLists) :
      InStep rs t (core.dressed lists display) (core.dressed lists' display')

namespace InStep

variable {rs : List Request} {t : Settings.Culling} {p q : Pipeline η}

/-- Pipelines in step rule on commands alike. -/
theorem upstream_eq (h : InStep rs t p q) : p.upstream = q.upstream := by
  cases h
  rfl

/-- The cache of a pipeline in step holds answers to requests. -/
theorem answers (h : InStep rs t p q) : p.lists.Answers rs p.culling.tolerances := by
  obtain ⟨core, lists, lists', display, display', answers, rfl, shown⟩ := h
  exact answers

/-- Pipelines in step have counted as many commands. -/
theorem ordinal_eq (h : InStep rs t p q) : p.ordinal = q.ordinal := by
  cases h
  rfl

/-- Pipelines in step have sent the same. -/
theorem batch_eq (h : InStep rs t p q) : p.batch = q.batch := by
  cases h
  rfl

/-- Step is kept by what changes neither the cache nor the display. -/
theorem maps (h : InStep rs t p q) {op : Pipeline η → Attempt HostError (Pipeline η)}
    (cs : List Command)
    (hop : ∀ p lists display, op (dressed p lists display) = (op p).map (·.dressed lists display))
    (hseen : ∀ p, (op p).state.upstream = p.upstream.sees cs) :
    Alike (InStep rs t) (InStep rs t) (op p) (op q) := by
  obtain ⟨core, lists, lists', display, display', answers, tolerances, shown⟩ := h
  have htolerances : (op core).state.culling.tolerances = t := by
    have := congrArg (fun u : Upstream => u.culling.tolerances) (hseen core)
    rwa [Upstream.sees_tolerances, ← tolerances] at *
  rw [hop, hop]
  exact alike_maps ⟨_, _, _, _, _, answers, htolerances, shown⟩
    ⟨_, _, _, _, _, answers, htolerances, shown⟩

/-- An invalidation keeps pipelines in step. -/
theorem invalidate (h : InStep rs t p q) (scope : Scope) :
    InStep rs t (p.invalidate scope) (q.invalidate scope) := by
  obtain ⟨core, lists, lists', display, display', answers, tolerances, shown⟩ := h
  refine ⟨core.invalidate scope, _, _, _, _, ?_, tolerances, shown⟩
  dsimp only [dressed]
  split
  · exact ListCache.Answers.invalidate _
  · exact answers

/-- What is noted of commands keeps pipelines in step. -/
theorem notes (h : InStep rs t p q) (cs : List Command) :
    InStep rs t (cs.foldl note p) (cs.foldl note q) := by
  obtain ⟨core, lists, lists', display, display', answers, tolerances, shown⟩ := h
  have hseen := congrArg (·.culling.tolerances) (upstream_notes cs core)
  rw [Upstream.sees_tolerances] at hseen
  rw [notes_dressed, notes_dressed]
  exact ⟨_, _, _, _, _, answers, hseen.trans tolerances, shown⟩

/-- What is noted of an item keeps pipelines in step. -/
theorem noteItem (h : InStep rs t p q) (i : Item) : InStep rs t (p.noteItem i) (q.noteItem i) := by
  cases i with
  | command c => exact h.notes [c]
  | list call => exact h.notes call.commands
  | invalidate scope => exact h.invalidate scope

variable [Host η]

/-- A display list is the same list on both sides, as long as the request is one of `rs`. -/
theorem call (h : InStep rs t p q) (hrs : NoCollision rs) (c : ListCall)
    (hr : ⟨c, q.upstream.culling⟩ ∈ rs) :
    Alike (InStep rs t) (InStep rs t) (p.call c) (q.callAfresh c) := by
  obtain ⟨core, lists, lists', display, display', answers, tolerances, shown⟩ := h
  subst tolerances
  obtain ⟨filled, hfilled, hcall⟩ := call_eq (core.dressed lists display) c hrs answers hr
  change _ = (core.dressed filled display).callAfresh c at hcall
  have hseen := congrArg (·.culling.tolerances) (core.upstream_callAfresh c)
  rw [Upstream.sees_tolerances] at hseen
  rw [hcall, callAfresh_dressed, callAfresh_dressed]
  exact alike_maps ⟨_, _, _, _, _, hfilled, hseen, shown⟩ ⟨_, _, _, _, _, hfilled, hseen, shown⟩

/-- An item keeps pipelines in step when its request is one of those told apart. -/
theorem item (h : InStep rs t p q) (hrs : NoCollision rs) (i : Item)
    (hr : ∀ r ∈ q.upstream.request i, r ∈ rs) :
    Alike (InStep rs t) (InStep rs t) (p.item i) (q.itemAfresh i) := by
  cases i with
  | command c =>
    exact h.maps [c] (fun p lists display => p.execute_dressed lists display c)
      fun p => p.upstream_execute c
  | list c => exact h.call hrs c (hr _ (by simp [Upstream.request]))
  | invalidate scope => exact h.invalidate scope

/-- In step, with items to come whose requests are among `rs`. -/
def Before (rs : List Request) (t : Settings.Culling) (is : List Item) (p q : Pipeline η) : Prop :=
  InStep rs t p q ∧ ∀ r ∈ q.upstream.requests is, r ∈ rs

/-- An item leaves the requests of those behind it as they were, since on the side without a cache
the stream alone decides them. -/
theorem Before.item {i : Item} {is : List Item} (h : Before rs t (i :: is) p q)
    (hrs : NoCollision rs) :
    Alike (Before rs t is) (InStep rs t) (p.item i) (q.itemAfresh i) := by
  obtain ⟨hstep, hr⟩ := h
  rw [Upstream.requests] at hr
  have hitem := hstep.item hrs i fun r hi => hr r (List.mem_append_left _ hi)
  refine (hitem.with_right (P := fun q' => q'.upstream = q.upstream.sees i.commands)
    (q.upstream_itemAfresh i)).mono ?_ fun _ _ h => h.1
  rintro p' q' ⟨hstep', hseen⟩
  exact ⟨hstep', fun r hi => hr r (List.mem_append_right _ (hseen ▸ hi))⟩

/-- The items of a frame, behind what is restored. -/
theorem items {is : List Item} (h : Before rs t is p q) (hrs : NoCollision rs) :
    Alike (InStep rs t) (InStep rs t) (p.items is) (q.itemsAfresh is) := by
  have hrestore : Alike (InStep rs t) (InStep rs t) p.restore q.restore :=
    h.1.maps [] (fun p lists display => p.restore_dressed lists display)
      fun p => p.upstream_restore
  have hitem : ∀ i is (p q : Pipeline η), Before rs t (i :: is) p q →
      Alike (Before rs t is) (InStep rs t) (p.item i) (q.itemAfresh i) :=
    fun _ _ _ _ h => h.item hrs
  have hnote : ∀ i (_ : List Item) (p q : Pipeline η), InStep rs t p q →
      InStep rs t (p.noteItem i) (q.noteItem i) := fun i _ _ _ h => h.noteItem i
  refine (hrestore.with_right (P := fun q' => q'.upstream = q.upstream) q.upstream_restore).andEach
    ?_ ?_
  · rintro p' q' ⟨hstep, hseen⟩
    have hbefore : Before rs t is p' q' := ⟨hstep, hseen ▸ h.2⟩
    exact (Alike.each hitem hnote is p' q' hbefore).mono (fun _ _ h => h.1) fun _ _ h => h
  · rintro p' q' ⟨hstep, -⟩
    exact foldl_keeps₂ (P := fun _ => InStep rs t) hnote is p' q' hstep

omit [Host η] in
/-- Where the count of commands begins does not matter before a frame. -/
theorem Before.atZero {is : List Item} (h : Before rs t is p q) :
    Before rs t is { p with ordinal := 0 } { q with ordinal := 0 } := by
  obtain ⟨⟨core, lists, lists', display, display', answers, tolerances, shown⟩, hr⟩ := h
  exact ⟨⟨{ core with ordinal := 0 }, _, _, _, _, answers, tolerances, shown⟩, hr⟩

/-- An attempt keeps pipelines in step when its requests are told apart. -/
theorem attempt {frame : Frame} (h : Before rs t frame.items p q) (hrs : NoCollision rs) :
    Alike (InStep rs t) (InStep rs t) (p.attempt frame) (q.attemptAfresh frame) := by
  refine (items h.atZero hrs).andThen ?_
  rintro _ _ ⟨core, lists, lists', display, display', answers, tolerances, shown⟩
  exact alike_maps (r := core.batch.present)
    ⟨{ core with batch := core.batch.present.state }, _, _, _, _, answers, tolerances, shown⟩
    ⟨{ core with batch := core.batch.present.state }, _, _, _, _, answers, tolerances, shown⟩

/-! ## Whole frames -/

omit [Host η] in
/-- The end of a frame. The cache is emptied at worst, and the records differ in the counts of its
traffic alone. -/
theorem conclude (h : InStep rs t p q) (frame : Frame) (presented : Bool) (time : Single) :
    InStep rs t (p.conclude frame presented time) (q.conclude frame presented time) := by
  obtain ⟨core, lists, lists', display, display', answers, tolerances, shown⟩ := h
  refine ⟨core.conclude frame presented time, _, _, _, _, ListCache.Answers.takeFrame ?_,
    tolerances, rfl⟩
  dsimp only [adopt]
  split
  · exact answers
  · exact ListCache.Answers.invalidate _

/-- What is done behind an attempt keeps pipelines in step. -/
theorem settle {r r' : Attempt HostError (Pipeline η)} (h : Alike (InStep rs t) (InStep rs t) r r')
    (frame : Frame) (time : Single) :
    Alike (InStep rs t) (InStep rs t) (settle frame time r) (settle frame time r') := by
  obtain ⟨p, _ | e⟩ := r <;> obtain ⟨q, _ | e'⟩ := r'
  · obtain ⟨core, lists, lists', display, display', answers, tolerances, shown⟩ := h
    have hkept : InStep rs t (core.dressed lists display).keepFrame
        (core.dressed lists' display').keepFrame :=
      ⟨core.keepFrame, lists, lists', display, display', answers, tolerances, shown⟩
    exact hkept.conclude frame true time
  · exact h.elim
  · exact h.elim
  · obtain ⟨rfl, core, lists, lists', display, display', answers, tolerances, shown⟩ := h
    have hdropped : InStep rs t (core.dressed lists display).dropFrame
        (core.dressed lists' display').dropFrame :=
      ⟨core.dropFrame, lists, lists', display, display', answers, tolerances, shown⟩
    have hconcluded := hdropped.conclude frame false time
    rw [settle_failed, settle_failed]
    change Alike _ _
      (if core.failureLimit ≤ core.failures + 1 then _ else _)
      (if core.failureLimit ≤ core.failures + 1 then _ else _)
    split
    · exact ⟨rfl, hdropped⟩
    · exact hconcluded

/-- One frame, measured alike on both sides. -/
theorem feed (h : InStep rs t p q) (hrs : NoCollision rs) {a b : Arrival}
    (hab : a.Same b)
    (hr : ∀ r ∈ p.upstream.requests a.frame.items, r ∈ rs) :
    Alike (InStep rs t) (InStep rs t) (p.feed a) (q.feedAfresh b) := by
  have hbefore : Before rs t a.frame.items p q := ⟨h, h.upstream_eq ▸ hr⟩
  have htime : a.frame.time.getD a.elapsed = b.frame.time.getD b.elapsed := hab.time_eq
  rw [Pipeline.feed, process, htime, feedAfresh, processAfresh, ← hab.frame_eq]
  exact settle (attempt hbefore hrs) a.frame _

/-- A run over the same arrivals. -/
theorem run (hrs : NoCollision rs) : ∀ (as : List Arrival) {p q : Pipeline η}, InStep rs t p q →
    (∀ r ∈ p.requests as, r ∈ rs) → InStep rs t (p.run as) (q.runAfresh as)
  | [], _, _, h, _ => h
  | a :: as, p, q, h, hr => by
    rw [requests] at hr
    have hfeed := h.feed hrs (a := a) ⟨rfl, rfl⟩ fun r hi => hr r (List.mem_append_left _ hi)
    exact run hrs as hfeed.of_state fun r hi => hr r (List.mem_append_right _ hi)

omit [Host η] in
/-- Pipelines in step give the same outcome. -/
theorem outcome {r r' : Attempt PipelineError (Pipeline η)}
    (h : Alike (InStep rs t) (InStep rs t) r r') : outcome r = outcome r' := by
  obtain ⟨p, failure⟩ := r
  obtain ⟨q, failure'⟩ := r'
  obtain rfl : failure = failure' := h.failure_eq
  have hstep : InStep rs t p q := h.of_state
  obtain ⟨core, lists, lists', display, display', answers, tolerances, shown⟩ := hstep
  have hshown : (core.dressed lists display).display.withoutLists =
      (core.dressed lists' display').display.withoutLists := shown
  rw [Pipeline.outcome, Pipeline.outcome, hshown]
  rfl

/-- Two runs in step with one run without a cache: what they show is the same, frame by frame. -/
theorem outcomes (hrs : NoCollision rs) {as₁ bs : List Arrival}
    (h₁ : List.Forall₂ Arrival.Same as₁ bs) :
    ∀ {as₂ : List Arrival}, List.Forall₂ Arrival.Same as₂ bs →
    ∀ {p₁ p₂ q : Pipeline η}, InStep rs t p₁ q → InStep rs t p₂ q →
      (∀ r ∈ p₁.requests as₁, r ∈ rs) →
      p₁.outcomes as₁ = q.outcomesAfresh bs ∧ p₂.outcomes as₂ = q.outcomesAfresh bs := by
  induction h₁ with
  | nil =>
    intro as₂ h₂ p₁ p₂ q _ _ _
    cases h₂
    exact ⟨rfl, rfl⟩
  | cons ha _ ih =>
    intro as₂ h₂ p₁ p₂ q hp₁ hp₂ hr
    obtain _ | ⟨hb, hbs⟩ := h₂
    rw [requests] at hr
    have hr₁ := fun r hi => hr r (List.mem_append_left _ hi)
    have hframe := ha.frame_eq.trans hb.frame_eq.symm
    have hr₂ := hr₁
    rw [hp₁.upstream_eq, ← hp₂.upstream_eq, hframe] at hr₂
    have hfeed₁ := hp₁.feed hrs ha hr₁
    have hfeed₂ := hp₂.feed hrs hb hr₂
    obtain ⟨hrest₁, hrest₂⟩ := ih hbs hfeed₁.of_state hfeed₂.of_state
      fun r hi => hr r (List.mem_append_right _ hi)
    exact ⟨congrArg₂ List.cons (outcome hfeed₁) hrest₁, congrArg₂ List.cons (outcome hfeed₂) hrest₂⟩

end InStep

/-! ## Two capacities, or none -/

/-- A pipeline at its start is in step with itself, whatever the capacity of the cache. -/
theorem inStep_start [Host η] (s : Settings) (n : UInt64) (host : η) (rs : List Request) :
    InStep rs s.culling (ofSettings (s.withLists n) host) (ofSettings s host) :=
  ⟨ofSettings s host, .empty n.toNat, _, {}, _, ListCache.answers_empty _, rfl, rfl⟩

/-- A run from the start is in step with the one without a cache, before every frame and within it.
-/
theorem inStep_run [Host η] (s : Settings) (host : η) (before : List Arrival) (is : List Item)
    {rs : List Request} (hrs : NoCollision rs)
    (hr : ∀ r ∈ (ofSettings s host).requests before ++
      ((ofSettings s host).run before).upstream.requests is, r ∈ rs) :
    InStep.Before rs s.culling is ((ofSettings s host).run before)
      ((ofSettings s host).runAfresh before) := by
  have hrun := InStep.run hrs before (inStep_start s s.batching.listCapacity host rs)
    fun r hi => hr r (List.mem_append_left _ hi)
  have hstep : InStep rs s.culling ((ofSettings s host).run before)
      ((ofSettings s host).runAfresh before) := hrun
  exact ⟨hstep, fun r hi => hr r (List.mem_append_right _ (hstep.upstream_eq ▸ hi))⟩

/-- Behind any run the pipeline takes the stream to have asked for what its commands ask for. -/
theorem upstream_run [Host η] (s : Settings) (host : η) (before : List Arrival)
    (hrs : NoCollision ((ofSettings s host).requests before)) :
    ((ofSettings s host).run before).upstream =
      (s.upstream.sees (Arrival.commands before)).under
        ((ofSettings s host).run before).culling.profile := by
  have hstep := (inStep_run s host before [] hrs (by simp [Upstream.requests])).1
  have hprofile := congrArg (·.culling.profile) hstep.upstream_eq
  rw [hstep.upstream_eq, upstream_runAfresh]
  exact congrArg (Upstream.under _) hprofile.symm

/-- A run gives the outcomes of compiling every list anew. -/
theorem outcomes_run [Host η] (s : Settings) (host : η) (before : List Arrival)
    (hrs : NoCollision ((ofSettings s host).requests before)) :
    (ofSettings s host).outcomes before = (ofSettings s host).outcomesAfresh before := by
  have hstart := inStep_start s s.batching.listCapacity host ((ofSettings s host).requests before)
  have hsame : List.Forall₂ Arrival.Same before before := List.forall₂_same.2 fun _ _ => ⟨rfl, rfl⟩
  exact (InStep.outcomes hrs hsame hsame hstart hstart fun _ h => h).1

/-- The capacity of the cache of compiled lists cannot be told from outside, nor can it be told
whether there is a cache at all: the same answers are given, the same is asked of the host, and the
same is displayed, frame by frame, as long as the frames state their times and fingerprints do not
collide. -/
theorem outcomes_transparent [Host η] (s : Settings) (host : η) (n₁ n₂ : UInt64)
    {as₁ as₂ bs : List Arrival} (h₁ : List.Forall₂ Arrival.Same as₁ bs)
    (h₂ : List.Forall₂ Arrival.Same as₂ bs)
    (hrs : NoCollision ((ofSettings (s.withLists n₁) host).requests as₁)) :
    (ofSettings (s.withLists n₁) host).outcomes as₁ = (ofSettings s host).outcomesAfresh bs ∧
      (ofSettings (s.withLists n₂) host).outcomes as₂ = (ofSettings s host).outcomesAfresh bs :=
  InStep.outcomes hrs h₁ h₂ (inStep_start s n₁ host _) (inStep_start s n₂ host _) fun _ h => h

set_option maxRecDepth 10000 in
/-- A cache for one list against a cache for many and against none, with a call of the host that
fails between two uses of the list. -/
theorem outcomes_transparent_demo :
    (ofSettings (Demo.settings.withLists 1) ({ script := Demo.refusing 2 } : Scripted)).outcomes
        [Demo.arrival 1 .white, Demo.arrival 1 .black] =
      (ofSettings Demo.settings ({ script := Demo.refusing 2 } : Scripted)).outcomesAfresh
        [Demo.arrival 3 .white, Demo.arrival 3 .black] ∧
    (ofSettings (Demo.settings.withLists 8) ({ script := Demo.refusing 2 } : Scripted)).outcomes
        [Demo.arrival 2 .white, Demo.arrival 2 .black] =
      (ofSettings Demo.settings ({ script := Demo.refusing 2 } : Scripted)).outcomesAfresh
        [Demo.arrival 3 .white, Demo.arrival 3 .black] :=
  outcomes_transparent Demo.settings ({ script := Demo.refusing 2 } : Scripted) 1 8
    (.cons (Demo.same_arrival 1 3 .white) (.cons (Demo.same_arrival 1 3 .black) .nil))
    (.cons (Demo.same_arrival 2 3 .white) (.cons (Demo.same_arrival 2 3 .black) .nil))
    (by decide +kernel)

end Pipeline

end RenderStream
