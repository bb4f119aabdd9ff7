import RenderStream.Proofs.Tally
import RenderStream.Proofs.Transparent
import RenderStream.Proofs.Untouched

/-!
# A display list or its commands one by one

A display list is culled beforehand and replayed; commands of their own are culled as they come. At
every position of the list the two have seen the same state writes, so they come to the same verdict
(`Culling.test_place` deals with the places of particles, which are counted differently), and what
the compilation sends is what the other side executes (`replay_eq_execute`). They differ only in
what is added as a whole on one side and step by step on the other: the counts, which come to the
same sum, and the area, which is rounded differently and is not spoken of here.
-/

namespace RenderStream

open Attempt

/-! ## Verdicts and places -/

/-- The place of a primitive matters only to particles, and only when not all of them are kept. -/
theorem Culling.test_place {c : Culling} {x : Primitive} {i j : UInt32}
    (h : 1 ≤ c.profile.keepRatio ∨ x.kind ≠ .particle ∨ i = j) : c.test x i = c.test x j := by
  have hlossy : lossyVerdict c.profile x i = lossyVerdict c.profile x j := by
    rcases h with h | h | rfl
    · simp only [lossyVerdict, keepOnStride, if_pos h]
    · cases hkind : x.kind with
      | particle => exact absurd hkind h
      | world | entity => simp only [lossyVerdict, hkind]
    · rfl
  simp only [test, hlossy]

/-- Particles may be counted from different places: all of them are kept, or there are none, or the
places are the same. -/
def Culling.PlaceFree (c : Culling) (i j : UInt32) (cs : List Command) : Prop :=
  1 ≤ c.profile.keepRatio ∨ (∀ x, .draw x ∈ cs → x.kind ≠ .particle) ∨ i = j

/-- Where the place of commands does not matter, it does not matter behind the first one. -/
theorem Culling.PlaceFree.tail {c d : Culling} {i j : UInt32} {e : Command} {cs : List Command}
    (h : c.PlaceFree i j (e :: cs)) (hcd : c.profile.keepRatio = d.profile.keepRatio) :
    d.PlaceFree (e.nextOrdinal i) (e.nextOrdinal j) cs := by
  rcases h with h | h | rfl
  · exact .inl (hcd ▸ h)
  · exact .inr (.inl fun x hx => h x (List.mem_cons_of_mem _ hx))
  · exact .inr (.inr rfl)

/-- Where the place of commands does not matter, the first draw is judged alike. -/
theorem Culling.PlaceFree.test {c : Culling} {i j : UInt32} {x : Primitive} {cs : List Command}
    (h : c.PlaceFree i j (.draw x :: cs)) : c.test x i = c.test x j :=
  test_place (h.imp_right (Or.imp_left fun h => h x List.mem_cons_self))

/-- A compilation that has seen the same comes to the same verdict at its own place. -/
theorem Culling.PlaceFree.test_eq {c d : Culling} {i j : UInt32} {x : Primitive}
    {cs : List Command} (h : c.PlaceFree i j (.draw x :: cs)) (hd : d.Sees c) :
    c.test x i = d.test x j := by
  rw [h.test, hd.test]

/-! ## Command by command -/

namespace Batch

variable {η : Type} [Host η]

/-- Commands accepted one by one. -/
def acceptAll (b : Batch η) (cs : List Command) : Attempt HostError (Batch η) :=
  .each accept (fun b _ => b) b cs

/-- To accept one command is to accept it. -/
theorem acceptAll_singleton (b : Batch η) (c : Command) : b.acceptAll [c] = b.accept c := by
  rw [acceptAll, each_cons]
  obtain ⟨b', _ | e⟩ := b.accept c
  · rfl
  · rfl

/-- Commands are accepted one after the other. -/
theorem acceptAll_append {b b' : Batch η} {cs : List Command} (h : b.acceptAll cs = ⟨b', none⟩)
    (ds : List Command) : b.acceptAll (cs ++ ds) = b'.acceptAll ds := by
  rw [acceptAll, each_append, ← acceptAll, h]
  rfl

end Batch

namespace Pipeline

variable {η : Type}

/-- The pipeline with other counts, area and place of the next particle: all that differs between a
list that is replayed and commands that are executed. -/
def recounted (p : Pipeline η) (counts : CullCounts) (meter : FillMeter) (ordinal : UInt32) :
    Pipeline η :=
  { p with culling := { p.culling with counts }, meter, ordinal }

section
variable (p : Pipeline η) (counts : CullCounts) (meter : FillMeter) (ordinal : UInt32)

/-- What is noted of a command does not read the counts. -/
theorem note_recounted (c : Command) :
    (p.recounted counts meter ordinal).note c = (p.note c).recounted counts meter ordinal := by
  cases c <;> rfl

/-- What is noted of commands does not read the counts. -/
theorem notes_recounted (cs : List Command) :
    cs.foldl note (p.recounted counts meter ordinal) =
      (cs.foldl note p).recounted counts meter ordinal :=
  List.foldl_hom (fun q => recounted q counts meter ordinal) fun q c =>
    note_recounted q counts meter ordinal c

variable [Host η]

/-- A state write does not read the counts. -/
theorem write_recounted (s : Slot) (v : SlotValue) :
    (p.recounted counts meter ordinal).write s v =
      (p.write s v).map (·.recounted counts meter ordinal) := by
  have hslots : (p.recounted counts meter ordinal).slots = p.slots := rfl
  rw [write_eq, write_eq, hslots]
  cases (p.slots.set s v).2 <;> rfl

end

open CompiledList

/-- Noting what a compilation sends is noting all of the list: draws leave no trace. -/
theorem notes_run : ∀ (cs : List Command) (s : Progress) (p : Pipeline η),
    (s.run cs).1.foldl note p = cs.foldl note p
  | [], _, _ => rfl
  | c :: cs, s, p => by
    simp only [Progress.run]
    split
    · exact notes_run cs _ _
    · next hsent =>
      obtain ⟨x, rfl⟩ := (s.step_sent c).resolve_left hsent
      exact notes_run cs _ _

section
variable [Host η] {s : Progress} {p : Pipeline η}
variable (counts : CullCounts) (meter : FillMeter) (ordinal : UInt32)

/-- One command. If the compilation sends it, replaying it is what executing it is; if not,
executing it only counts. -/
theorem replayCommand_recounted {c : Command} {cs : List Command} (hs : s.culling.Sees p.culling)
    (hplace : p.culling.PlaceFree p.ordinal s.ordinal (c :: cs)) :
    if (s.step c).2 then
      (p.recounted counts meter ordinal).replayCommand c =
        (p.execute c).map (·.recounted counts meter ordinal)
    else
      (p.execute c).failure = none ∧
        (p.execute c).state.recounted counts meter ordinal =
          p.recounted counts meter ordinal := by
  cases c with
  | set slot v => exact p.write_recounted counts meter ordinal slot v
  | draw x =>
    have hverdict : p.culling.test x p.ordinal = s.culling.test x s.ordinal := hplace.test_eq hs
    rw [Progress.step_draw, execute, draw_eq, hverdict]
    by_cases hx : s.culling.test x s.ordinal = .keep
    · rw [if_pos hx, if_pos hx]
      rfl
    · rw [if_neg hx, if_neg hx]
      exact ⟨rfl, rfl⟩
  | clear | barrier => rfl

/-- What a compilation has seen and the place it stands at move on with the commands executed. -/
theorem execute_follows {c : Command} {cs : List Command} (hs : s.culling.Sees p.culling)
    (hplace : p.culling.PlaceFree p.ordinal s.ordinal (c :: cs)) :
    (s.step c).1.culling.Sees (p.execute c).state.culling ∧
      (p.execute c).state.culling.PlaceFree (p.execute c).state.ordinal (s.step c).1.ordinal
        cs := by
  have hseen : (s.step c).1.culling.Sees (p.execute c).state.upstream.culling := by
    rw [upstream_execute]
    exact Progress.step_sees (u := p.upstream)
      ⟨hs.tolerances, hs.view, hs.keepRatio, hs.cullDistance⟩ c
  have hprofile := congrArg (·.culling.profile) (p.upstream_execute c)
  have hratio : p.culling.profile.keepRatio = (p.execute c).state.culling.profile.keepRatio :=
    congrArg Profile.keepRatio (hprofile.trans (p.upstream.see_profile c)).symm
  have hordinal : (p.execute c).state.ordinal = c.nextOrdinal p.ordinal :=
    congrArg Prod.fst (p.aside_execute c)
  refine ⟨⟨hseen.tolerances, hseen.view, hseen.keepRatio, hseen.cullDistance⟩, ?_⟩
  rw [hordinal, Progress.step_ordinal]
  exact hplace.tail hratio

/-- Replaying what a compilation sends is executing the list, counts, area and place apart. -/
theorem replay_eq_execute (cs : List Command) :
    ∀ {s : Progress} {p : Pipeline η}, s.culling.Sees p.culling →
      p.culling.PlaceFree p.ordinal s.ordinal cs →
      each replayCommand note (p.recounted counts meter ordinal) (s.run cs).1 =
        (each execute note p cs).map (·.recounted counts meter ordinal) := by
  induction cs with
  | nil => exact fun _ _ => rfl
  | cons c cs ih =>
    intro s p hs hplace
    have hcommand := replayCommand_recounted counts meter ordinal hs hplace
    obtain ⟨hs', hplace'⟩ := execute_follows hs hplace
    have hrest := ih hs' hplace'
    rw [each_cons]
    simp only [Progress.run]
    split at hcommand
    · next hsent =>
      rw [if_pos hsent, each_cons, hcommand]
      generalize p.execute c = r at hrest ⊢
      obtain ⟨q, _ | e⟩ := r
      · exact hrest
      · have hnotes : (((s.step c).1.run cs).1).foldl note (q.recounted counts meter ordinal) =
            (cs.foldl note q).recounted counts meter ordinal := by
          rw [notes_run, notes_recounted]
        exact congrArg (Attempt.mk · (some e)) hnotes
    · next hsent =>
      obtain ⟨hok, hsame⟩ := hcommand
      rw [if_neg hsent, ← hsame]
      generalize p.execute c = r at hrest hok ⊢
      obtain ⟨q, _ | e⟩ := r
      · exact hrest
      · cases hok

/-! ## Counts along the way -/

/-- The pipeline has counted what it had counted at `base` and what the compilation has counted. -/
def Tallies (base : Pipeline η) (s : Progress) (p : Pipeline η) : Prop :=
  p.culling.counts = base.culling.counts.add s.culling.counts ∧
    p.meter.draws = base.meter.draws + s.draws

omit [Host η] in
/-- Before the first command of a list nothing is tallied. -/
theorem tallies_start (p : Pipeline η) (culling : Culling) :
    Tallies p { culling := { culling with counts := {} } } p :=
  ⟨(CullCounts.add_zero _).symm, (UInt32.add_zero _).symm⟩

variable {base : Pipeline η}

/-- A state write changes no tally. -/
theorem Tallies.write (h : Tallies base s p) (slot : Slot) (v : SlotValue) :
    Tallies base s (p.write slot v).state := by
  rw [write_eq]
  split <;> exact h

/-- A command is tallied by the compiler as it is by the pipeline. -/
theorem Tallies.execute (h : Tallies base s p) {c : Command} {cs : List Command}
    (hs : s.culling.Sees p.culling) (hplace : p.culling.PlaceFree p.ordinal s.ordinal (c :: cs)) :
    Tallies base (s.step c).1 (p.execute c).state := by
  cases c with
  | set slot v => exact h.write slot v
  | draw x =>
    obtain ⟨hcounts, hdraws⟩ := h
    have hverdict : p.culling.test x p.ordinal = s.culling.test x s.ordinal := hplace.test_eq hs
    have hjudge : (p.culling.judge x p.ordinal).1.counts =
        base.culling.counts.add (s.culling.judge x s.ordinal).1.counts := by
      simp only [Culling.judge, hcounts, hverdict, CullCounts.add_record]
    rw [Progress.step_draw, Pipeline.execute, draw_eq, hverdict]
    by_cases hx : s.culling.test x s.ordinal = .keep
    · rw [if_pos hx, if_pos hx]
      refine ⟨hjudge, ?_⟩
      have hdrawn : (p.meter.record x.area 1).draws = p.meter.draws + 1 := rfl
      exact (hdrawn.trans (by rw [hdraws])).trans (UInt32.add_assoc _ _ _)
    · rw [if_neg hx, if_neg hx]
      exact ⟨hjudge, hdraws⟩
  | clear | barrier => exact h

/-- Executing a list counts what compiling it counts. -/
theorem Tallies.run (cs : List Command) :
    ∀ {s : Progress} {p : Pipeline η}, Tallies base s p → s.culling.Sees p.culling →
      p.culling.PlaceFree p.ordinal s.ordinal cs →
      (each Pipeline.execute note p cs).Ends (Tallies base (s.run cs).2) fun _ => True := by
  induction cs with
  | nil => exact fun h _ _ => h
  | cons c cs ih =>
    intro s p h hs hplace
    obtain ⟨hs', hplace'⟩ := execute_follows hs hplace
    have hrest := ih (h.execute hs hplace) hs' hplace'
    rw [each_cons, andEach]
    simp only [Progress.run]
    cases hfailure : (p.execute c).failure with
    | none => exact hrest
    | some e => trivial

/-! ## What is handed on -/

/-- Executing hands commands to the buffer one by one. -/
theorem execute_hands (p : Pipeline η) (c : Command) :
    (p.execute c).Ends (fun q => ∃ ds, p.batch.acceptAll ds = ⟨q.batch, none⟩) fun _ => True := by
  have hsend : ∀ (q : Pipeline η) d,
      (q.send d).Ends (fun r => ∃ ds, q.batch.acceptAll ds = ⟨r.batch, none⟩) fun _ => True := by
    intro q d
    have hone := q.batch.acceptAll_singleton d
    rw [send, ends_map]
    generalize q.batch.accept d = r at hone ⊢
    obtain ⟨b, _ | e⟩ := r
    · exact ⟨[d], hone⟩
    · trivial
  cases c with
  | set s v =>
    rw [execute, write_eq]
    split
    · exact hsend (p.wrote s v) _
    · exact ⟨[], rfl⟩
  | draw x =>
    rw [execute, draw_eq]
    split
    · exact hsend _ _
    · exact ⟨[], rfl⟩
  | clear | barrier => exact hsend p _

/-- Commands that come through are handed to the buffer, those that are kept. -/
theorem each_execute_hands (cs : List Command) (p : Pipeline η) :
    (each execute note p cs).Ends (fun q => ∃ ds, p.batch.acceptAll ds = ⟨q.batch, none⟩)
      fun _ => True := by
  refine Ends.each (P := fun _ q => ∃ ds, p.batch.acceptAll ds = ⟨q.batch, none⟩)
    (Q := fun _ _ => True) ?_ (fun _ _ _ _ => trivial) cs p ⟨[], rfl⟩
  rintro c _ q ⟨ds, hds⟩
  refine (q.execute_hands c).imp ?_
  rintro r ⟨es, hes⟩
  exact ⟨ds ++ es, by rw [Batch.acceptAll_append hds, hes]⟩

/-! ## The whole list -/

/-- Two ways to go on from one state that come to the same: the same commands handed to the buffer
in the same order, the same slots with their counts, the same state of culling with its counts, and
the same number of draws measured. -/
structure SameWork (p q r : Pipeline η) : Prop where
  handed : ∃ ds, p.batch.acceptAll ds = ⟨q.batch, none⟩ ∧ p.batch.acceptAll ds = ⟨r.batch, none⟩
  slots : q.slots = r.slots
  culling : q.culling = r.culling
  draws : q.meter.draws = r.meter.draws

/-- A list compiled on the spot is executed like its commands. -/
theorem callAfresh_eq_execute {p : Pipeline η} {call : ListCall}
    (hplace : p.culling.PlaceFree p.ordinal 0 call.commands) :
    p.callAfresh call =
      (each execute note p call.commands).map
        (·.recounted (p.culling.counts.add (compile p.culling call.commands).counts)
          (p.meter.record (compile p.culling call.commands).covered
            (compile p.culling call.commands).draws) p.ordinal) :=
  replay_eq_execute _ _ _ call.commands
    (s := { culling := { p.culling with counts := {} } }) (Culling.Sees.rfl.counted {} _) hplace

/-- A list that is compiled on the spot, behind any cache, does the work of its commands. -/
theorem sameWork_callAfresh {p : Pipeline η} {call : ListCall} (lists : ListCache)
    (display : Display)
    (hplace : p.culling.PlaceFree p.ordinal 0 call.commands) :
    let slow := each execute note p call.commands
    let fast := (p.dressed lists display).callAfresh call
    slow.failure = fast.failure ∧ (slow.failure = none → SameWork p slow.state fast.state) := by
  intro slow fast
  have hfast : fast = (slow.map (·.recounted
      (p.culling.counts.add (compile p.culling call.commands).counts)
      (p.meter.record (compile p.culling call.commands).covered
        (compile p.culling call.commands).draws) p.ordinal)).map (·.dressed lists display) := by
    rw [← callAfresh_eq_execute hplace]
    exact p.callAfresh_dressed lists display call
  have htally := Tallies.run call.commands (tallies_start p p.culling)
    (Culling.Sees.rfl.counted {} _) hplace
  refine ⟨hfast ▸ rfl, fun hok => ?_⟩
  obtain ⟨hcounts, hdraws⟩ := htally.of_ok hok
  obtain ⟨ds, hds⟩ := (each_execute_hands call.commands p).of_ok hok
  have hculling : slow.state.culling = { slow.state.culling with
      counts := p.culling.counts.add (compile p.culling call.commands).counts } :=
    congrArg (fun counts => { slow.state.culling with counts }) hcounts
  rw [hfast]
  exact ⟨⟨ds, hds, hds⟩, rfl, hculling, hdraws⟩

end

/-! ## In the middle of a frame -/

/-- The pipeline in the middle of a frame: behind the frames `before` and the items `is`. -/
def midFrame [Host η] (s : Settings) (host : η) (before : List Arrival) (is : List Item) :
    Pipeline η :=
  ({ (ofSettings s host).run before with ordinal := 0 }.items is).state

/-- In the middle of a frame the pipeline is in step with the one without a cache. -/
theorem inStep_midFrame [Host η] (s : Settings) (host : η) (before : List Arrival) (is : List Item)
    {rs : List Request} (hrs : NoCollision rs)
    (hr : ∀ r ∈ (ofSettings s host).requests before ++
      ((ofSettings s host).run before).upstream.requests is, r ∈ rs) :
    InStep rs s.culling (midFrame s host before is)
      ({ (ofSettings s host).runAfresh before with ordinal := 0 }.itemsAfresh is).state :=
  (InStep.items (inStep_run s host before is hrs hr).atZero hrs).of_state

/-- In the middle of a frame, upstream has seen the commands of the frame so far. -/
theorem upstream_midFrame [Host η] (s : Settings) (host : η) (before : List Arrival)
    (is : List Item)
    (hrs : NoCollision ((ofSettings s host).requests before ++
      ((ofSettings s host).run before).upstream.requests is)) :
    (midFrame s host before is).upstream =
      ((ofSettings s host).run before).upstream.sees (is.flatMap Item.commands) := by
  have hrun := inStep_run s host before is hrs fun _ h => h
  rw [(inStep_midFrame s host before is hrs fun _ h => h).upstream_eq, upstream_itemsAfresh,
    hrun.1.upstream_eq]
  rfl

/-- Without a draw of a particle the place of the next one is still the first. -/
theorem ordinal_midFrame [Host η] (s : Settings) (host : η) (before : List Arrival) {is : List Item}
    (hrs : NoCollision ((ofSettings s host).requests before ++
      ((ofSettings s host).run before).upstream.requests is))
    (his : ∀ x, .command (.draw x) ∈ is → x.kind ≠ .particle) :
    (midFrame s host before is).ordinal = 0 := by
  have hnext : ∀ i ∈ is, ∀ n, i.nextOrdinal n = n := by
    intro i hi n
    match i, hi with
    | .command (.draw x), hi => exact if_neg (his x hi)
    | .command (.set _ _), _ => rfl
    | .command (.clear _ _), _ => rfl
    | .command .barrier, _ => rfl
    | .list _, _ => rfl
    | .invalidate _, _ => rfl
  rw [(inStep_midFrame s host before is hrs fun _ h => h).ordinal_eq]
  exact ordinal_itemsAfresh _ hnext

/-- A display list comes to the same as its commands sent one by one, whether it is compiled or
found in the cache. If a call of the host fails on one way, the same call fails on the other. Only
places of particles could tell the two apart: so all particles have to be kept, or the list draws
none, or no particle was drawn before it in the frame. -/
theorem list_eq_commands [Host η] (s : Settings) (host : η) (before : List Arrival) (is : List Item)
    (call : ListCall)
    (hrs : NoCollision ((ofSettings s host).requests before ++
      ((ofSettings s host).run before).upstream.requests (is ++ [.list call])))
    (hplace : 1 ≤ ((ofSettings s host).run before).culling.profile.keepRatio ∨
      (∀ x, .draw x ∈ call.commands → x.kind ≠ .particle) ∨
      (∀ x, .command (.draw x) ∈ is → x.kind ≠ .particle)) :
    let p := midFrame s host before is
    let slow := each item noteItem p (call.commands.map .command)
    let fast := p.item (.list call)
    slow.failure = fast.failure ∧ (slow.failure = none → SameWork p slow.state fast.state) := by
  intro p slow fast
  rw [Upstream.requests_append, ← List.append_assoc] at hrs
  have hbefore := hrs.mono fun r hr => List.mem_append_left _ hr
  have hstep := inStep_midFrame s host before is hrs fun r hr => List.mem_append_left _ hr
  have hupstream : p.upstream = _ := upstream_midFrame s host before is hbefore
  have hr : ⟨call, p.upstream.culling⟩ ∈ ((ofSettings s host).requests before ++
      ((ofSettings s host).run before).upstream.requests is) ++ (((ofSettings s host).run
        before).upstream.sees (is.flatMap Item.commands)).requests [.list call] := by
    rw [hupstream]
    exact List.mem_append_right _ (List.mem_append_left _ (List.mem_singleton_self _))
  obtain ⟨lists, -, hcall⟩ := call_eq p call hrs hstep.answers hr
  have hfree : p.culling.PlaceFree p.ordinal 0 call.commands := by
    rcases hplace with hratio | hlist | his
    · have hprofile := congrArg (·.culling.profile) hupstream
      rw [Upstream.sees_profile] at hprofile
      exact .inl (le_of_le_of_eq hratio (congrArg Profile.keepRatio hprofile).symm)
    · exact .inr (.inl hlist)
    · exact .inr (.inr (ordinal_midFrame s host before hbefore his))
  have hslow : slow = each execute note p call.commands := each_image Item.command call.commands p
  have hfast : fast = (p.dressed lists p.display).callAfresh call := hcall
  rw [hslow, hfast]
  exact sameWork_callAfresh lists p.display hfree

set_option maxRecDepth 10000 in
/-- A list with particles, under a profile that does not keep all of them. -/
theorem list_eq_commands_demo :
    let p := midFrame Demo.settings ({} : Scripted) [Demo.arrival 1 .white]
      [.command (.set .scissor (.rect ⟨0, 0, 9, 9⟩)), .command (.draw (Demo.triangle .entity))]
    SameWork p (each item noteItem p (Demo.list.commands.map .command)).state
      (p.item (.list Demo.list)).state :=
  (list_eq_commands Demo.settings ({} : Scripted) [Demo.arrival 1 .white]
    [.command (.set .scissor (.rect ⟨0, 0, 9, 9⟩)), .command (.draw (Demo.triangle .entity))]
    Demo.list (by decide +kernel) (.inr (.inr (by simp [Demo.triangle])))).2 (by decide +kernel)

end Pipeline

end RenderStream
