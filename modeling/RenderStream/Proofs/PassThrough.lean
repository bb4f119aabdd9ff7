import RenderStream.Proofs.Batch
import RenderStream.Proofs.Transparent
import RenderStream.Proofs.Untouched

/-!
# What is presented is the stream

Every frame that a host presents shows what the reference shows of it, with the values last written
in all of the stream so far, whatever calls failed before. Within a frame `Midway` carries the
argument: the commands on their way, added to what the host held when the frame began, show the part
of the reference that lies behind, and they leave the host with all that is wanted. Every operation
adds to both what it has to (`Advances`). Between frames `Idle` is left, in which the host may hold
anything as long as a restore is due.
-/

namespace RenderStream

open Attempt

/-- A command shown is the right one, and the host held what was last written. -/
def Agrees (a : Command × SlotMap SlotValue) (b : Command × SlotMap (Option SlotValue)) : Prop :=
  a.1 = b.1 ∧ a.2.Meets b.2

namespace Pipeline

/-- Within a frame that began with the screen at `x`: the commands `cs` are on their way, and `done`
is what is shown by them. -/
structure Midway (x : Screen) (cs : List Command) (done : Showing) (p : Pipeline Scripted) :
    Prop where
  carries : p.batch.Carries x cs
  tells : p.slots.Tells (x.slots.after cs)
  meets : (x.slots.after cs).Meets p.slots.wanted
  agrees : List.Forall₂ Agrees (x.slots.observe cs) done

/-- Within a frame that is lost: nothing of it is on the screen. -/
def Lost (x : Screen) (p : Pipeline Scripted) : Prop := p.batch.Within x

/-- Wherever a frame stands in `p`, the attempt puts some of the commands `cs` on their way and
shows `shown`, or the frame is lost. -/
def Advances (x : Screen) (p : Pipeline Scripted) (r : Attempt HostError (Pipeline Scripted))
    (cs : List Command) (shown : Showing) : Prop :=
  ∀ sent done, Midway x sent done p →
    r.Ends (fun q => ∃ more, more.Sublist cs ∧ Midway x (sent ++ more) (done ++ shown) q) (Lost x)

variable {x : Screen} {p : Pipeline Scripted}

/-! ## Commands -/

/-- A command that is no state write is put on its way and shown. -/
theorem advances_send (p : Pipeline Scripted) {c : Command} (hc : ∀ s v, c ≠ .set s v) :
    Advances x p (p.send c) [c] (p.upstream.shows c) := by
  rintro sent done ⟨hcarries, htells, hmeets, hagrees⟩
  have hafter : x.slots.after (sent ++ [c]) = x.slots.after sent := by
    rw [SlotMap.after_append, SlotMap.after_of_ne_set hc]
  have hobserve : x.slots.observe (sent ++ [c]) =
      x.slots.observe sent ++ [(c, x.slots.after sent)] := by
    rw [SlotMap.observe_append, SlotMap.observe_of_ne_set hc]
  rw [send, ends_map, Upstream.shows_of_ne_set hc]
  refine (Batch.accept_ends c hcarries).mono (fun b hb => ⟨[c], .refl _, hb, ?_, ?_, ?_⟩)
    fun b hb => hb
  · rwa [hafter]
  · rwa [hafter]
  · rw [hobserve]
    exact List.rel_append hagrees (.cons ⟨rfl, hmeets⟩ .nil)

/-- A state write is put on its way unless the host holds the value, and shows nothing. -/
theorem advances_write (p : Pipeline Scripted) (s : Slot) (v : SlotValue) :
    Advances x p (p.write s v) [.set s v] [] := by
  rintro sent done ⟨hcarries, htells, hmeets, hagrees⟩
  have hsets : ∀ d ∈ (p.slots.set s v).2.toList, ∃ t u, d = .set t u :=
    fun d hd => ⟨s, v, SlotCache.eq_of_mem_set hd⟩
  have hslots : (p.wrote s v).slots = (p.slots.set s v).1 := rfl
  have hbatch : (p.wrote s v).batch.Carries x sent := hcarries
  have hmid : (p.wrote s v).slots.Tells (x.slots.after (sent ++ (p.slots.set s v).2.toList)) ∧
      (x.slots.after (sent ++ (p.slots.set s v).2.toList)).Meets (p.wrote s v).slots.wanted ∧
      List.Forall₂ Agrees (x.slots.observe (sent ++ (p.slots.set s v).2.toList)) (done ++ []) := by
    rw [SlotMap.after_append, SlotMap.observe_append, SlotMap.observe_sets hsets, hslots,
      SlotCache.set_wanted, List.append_nil, List.append_nil]
    exact ⟨(htells.set s v).1, SlotCache.Meets.set htells hmeets s v, hagrees⟩
  rw [write_eq]
  cases hd : (p.slots.set s v).2 with
  | none =>
    rw [hd] at hmid
    exact ⟨[], List.nil_sublist _, by simpa using hbatch, hmid.1, hmid.2.1, hmid.2.2⟩
  | some d =>
    have hmem : d ∈ (p.slots.set s v).2.toList := by
      rw [hd]
      exact List.mem_singleton_self d
    obtain rfl : d = .set s v := SlotCache.eq_of_mem_set hmem
    rw [hd] at hmid
    change ((p.wrote s v).send (.set s v)).Ends _ _
    rw [send, ends_map]
    exact (Batch.accept_ends (.set s v) hbatch).mono
      (fun b hb => ⟨[.set s v], .refl _, hb, hmid.1, hmid.2.1, hmid.2.2⟩) fun b hb => hb

/-- A draw that comes through is shown when it is kept. -/
theorem advances_draw (p : Pipeline Scripted) (d : Primitive) :
    Advances x p (p.draw d) [.draw d] (p.upstream.keeps p.ordinal (.draw d)) := by
  intro sent done h
  have htest : p.upstream.culling.test d p.ordinal = p.culling.test d p.ordinal := rfl
  rw [draw_eq, Upstream.keeps, htest]
  split
  · exact advances_send _ (by simp) sent done ⟨h.carries, h.tells, h.meets, h.agrees⟩
  · exact ⟨[], List.nil_sublist _, by simpa using h.carries, by simpa using h.tells,
      by simpa using h.meets, by simpa using h.agrees⟩

/-- A command that comes through is shown as far as it is kept. -/
theorem advances_execute (p : Pipeline Scripted) (c : Command) :
    Advances x p (p.execute c) [c] (p.upstream.keeps p.ordinal c) := by
  cases c with
  | set s v => exact p.advances_write s v
  | draw d => exact p.advances_draw d
  | clear | barrier => exact p.advances_send (by simp)

/-- A command of a compiled list that comes through is shown. -/
theorem advances_replayCommand (p : Pipeline Scripted) (c : Command) :
    Advances x p (p.replayCommand c) [c] (p.upstream.shows c) := by
  cases c with
  | set s v => exact p.advances_write s v
  | draw | clear | barrier => exact p.advances_send (by simp)

/-- A frame that is lost stays lost. -/
theorem Lost.note (h : Lost x p) (c : Command) : Lost x (p.note c) := by
  cases c with
  | set | draw | clear | barrier => exact h

/-! ## Runs over commands and items -/

/-- A run advances by what its steps advance by. `shown` says what is shown of the elements that are
still to come, and every step takes its part off. -/
theorem advances_each {α : Type}
    {step : Pipeline Scripted → α → Attempt HostError (Pipeline Scripted)}
    {note : Pipeline Scripted → α → Pipeline Scripted} (commands : α → List Command)
    (shown : Pipeline Scripted → List α → Showing) (hnil : ∀ p, shown p [] = [])
    (hstep : ∀ p a as, ∃ part, Advances x p (step p a) (commands a) part ∧
      shown p (a :: as) = part ++ shown (step p a).state as)
    (hnote : ∀ a (_ : List α) p, Lost x p → Lost x (note p a)) (as : List α) :
    ∀ p, Advances x p (each step note p as) (as.flatMap commands) (shown p as) := by
  induction as with
  | nil =>
    intro p sent done h
    rw [hnil, List.append_nil]
    exact ⟨[], .refl _, by rwa [List.append_nil]⟩
  | cons a as ih =>
    intro p sent done h
    obtain ⟨part, hpart, hshown⟩ := hstep p a as
    rw [each_cons, andEach, List.flatMap_cons, hshown, ← List.append_assoc]
    have hends := hpart sent done h
    cases hfailure : (step p a).failure with
    | none =>
      obtain ⟨more, hmore, hmid⟩ := hends.of_ok hfailure
      refine (ih _ _ _ hmid).mono ?_ fun _ h => h
      rintro q ⟨rest, hrest, hq⟩
      exact ⟨more ++ rest, hmore.append hrest, by rwa [← List.append_assoc]⟩
    | some e => exact foldl_keeps (P := fun _ => Lost x) hnote as _ (hends.of_failed hfailure)

/-- What advances over commands advances over more of them. -/
theorem Advances.mono {r : Attempt HostError (Pipeline Scripted)} {cs ds : List Command}
    {shown : Showing} (h : Advances x p r cs shown) (hcs : cs.Sublist ds) :
    Advances x p r ds shown := by
  intro sent done hmid
  refine (h sent done hmid).mono ?_ fun _ h => h
  rintro q ⟨more, hmore, hq⟩
  exact ⟨more, hmore.trans hcs, hq⟩

/-- A compiled list that comes through is shown. -/
theorem advances_replay (p : Pipeline Scripted) (l : CompiledList) :
    Advances x p (p.replay l) l.commands (p.upstream.showsAll l.commands) := by
  have hrun := advances_each (x := x) (fun c => [c]) (fun p cs => p.upstream.showsAll cs)
    (fun _ => rfl)
    (fun p c cs => ⟨p.upstream.shows c, p.advances_replayCommand c, by
      rw [upstream_replayCommand]
      rfl⟩)
    (fun c _ p h => h.note c) l.commands (p.tallied l)
  rw [List.flatMap_singleton', ← replay_eq] at hrun
  exact fun sent done h => hrun sent done ⟨h.carries, h.tells, h.meets, h.agrees⟩

/-- A display list shows what its commands show, the particles counted from zero. -/
theorem advances_callAfresh (p : Pipeline Scripted) (call : ListCall) :
    Advances x p (p.callAfresh call) call.commands (p.upstream.keepsAll 0 call.commands) := by
  have hsees : p.culling.Sees p.upstream.culling := ⟨rfl, rfl, rfl, rfl⟩
  rw [CompiledList.keepsAll_compile hsees]
  exact (p.advances_replay _).mono (CompiledList.compile_sublist p.culling call.commands)

/-- An item that comes through is shown as far as its commands are kept. -/
theorem advances_itemAfresh (p : Pipeline Scripted) (i : Item) :
    Advances x p (p.itemAfresh i) i.commands (p.upstream.keepsItem p.ordinal i) := by
  cases i with
  | command c => exact p.advances_execute c
  | list call => exact p.advances_callAfresh call
  | invalidate scope =>
    rintro sent done ⟨hcarries, htells, hmeets, hagrees⟩
    refine ⟨[], .refl _, ?_⟩
    rw [List.append_nil, Upstream.keepsItem, List.append_nil]
    exact ⟨hcarries, htells.invalidate scope, hmeets, hagrees⟩

/-- What is noted of an item is not shown. -/
theorem Lost.noteItem (h : Lost x p) (i : Item) : Lost x (p.noteItem i) := by
  cases i with
  | command c => exact h.note c
  | list call =>
    exact foldl_keeps (P := fun _ => Lost x) (fun c _ p h => h.note c) call.commands p h
  | invalidate scope => exact h

/-- The items of a frame, behind what is restored. -/
theorem advances_items (is : List Item) (p : Pipeline Scripted) :
    Advances x p (each itemAfresh noteItem p is) (is.flatMap Item.commands)
      (p.upstream.keepsItems p.ordinal is) :=
  advances_each Item.commands (fun p is => p.upstream.keepsItems p.ordinal is) (fun _ => rfl)
    (fun p i is => ⟨p.upstream.keepsItem p.ordinal i, p.advances_itemAfresh i, by
      rw [upstream_itemAfresh, ordinal_itemAfresh]
      rfl⟩)
    (fun i _ p h => h.noteItem i) is p

/-! ## Whole frames -/

/-- Between frames nothing is on its way, and the host holds what was last written unless a restore
is due. -/
structure Idle (p : Pipeline Scripted) : Prop where
  taken : p.batch.host.screen.taken = []
  buffer : p.batch.buffer = #[]
  tells : p.slots.Tells p.batch.host.screen.slots
  meets : p.mustRestore = false → p.batch.host.screen.slots.Meets p.slots.wanted

/-- State writes that bring back wanted values. -/
def Restores (u : Upstream) (cs : List Command) : Prop :=
  ∀ c ∈ cs, ∃ s v, c = .set s v ∧ u.wanted.get s = some v

/-- What is presented for a frame, when the stream stood at `u` before it: behind state writes that
bring back wanted values come some of the frame's own commands, and what they show, with the values
that the host holds, is what the reference shows. -/
structure Faithful (u : Upstream) (frame : Frame) (y : Shown) : Prop where
  commands : ∃ restored own, y.commands = restored ++ own ∧ Restores u restored ∧
    own.Sublist frame.commands
  observed : List.Forall₂ Agrees y.observed (u.keepsItems 0 frame.items)

/-- The frames that the host has presented. -/
def presentedFrames (p : Pipeline Scripted) : List Shown := p.batch.host.screen.frames

/-- Pipelines in step have presented the same frames. -/
theorem InStep.presentedFrames_eq {rs : List Request} {t : Settings.Culling}
    {p q : Pipeline Scripted} (h : InStep rs t p q) : p.presentedFrames = q.presentedFrames := by
  rw [presentedFrames, h.batch_eq, presentedFrames]

/-- Between frames nothing waits in the buffer. -/
theorem Idle.carries (h : Idle p) : p.batch.Carries p.batch.host.screen [] := by
  refine ⟨[], ?_, by rw [h.buffer]; rfl⟩
  rw [← h.taken]

/-- Commands sent in a row are on their way, and the slots are left alone. -/
theorem sends_ends (ds : List Command) (p : Pipeline Scripted) (cs : List Command)
    (h : p.batch.Carries x cs) :
    (each send (fun p _ => p) p ds).Ends
      (fun q => q.batch.Carries x (cs ++ ds) ∧ q.slots = p.slots) (Lost x) := by
  refine (Ends.each (P := fun rest q => ∃ sent, sent ++ rest = cs ++ ds ∧
    q.batch.Carries x sent ∧ q.slots = p.slots) (Q := fun _ => Lost x) ?_ (fun _ _ _ h => h)
    ds p ⟨cs, rfl, h, rfl⟩).mono ?_ fun _ h => h
  · rintro d rest q ⟨sent, hsent, hcarries, hslots⟩
    rw [List.append_cons] at hsent
    rw [send, ends_map]
    exact (Batch.accept_ends d hcarries).mono (fun b hb => ⟨_, hsent, hb, hslots⟩) fun b hb => hb
  · rintro q ⟨sent, hsent, hcarries, hslots⟩
    rw [List.append_nil] at hsent
    exact ⟨hsent ▸ hcarries, hslots⟩

/-- A frame begins with what has to be restored. -/
theorem Idle.restore_ends (h : Idle p) :
    p.restore.Ends (fun q => ∃ restored, Restores p.upstream restored ∧
      Midway p.batch.host.screen restored [] q) (Lost p.batch.host.screen) := by
  rw [restore_eq]
  split
  · obtain ⟨htells, hmeets, hwrites⟩ := h.tells.restore
    have hwanted : p.restored.slots.wanted = p.slots.wanted := p.slots.restore_wanted
    have hobserve := SlotMap.observe_sets (fun d hd => (hwrites d hd).imp fun s hs => hs.imp
      fun v hv => hv.1) p.batch.host.screen.slots
    refine (sends_ends p.slots.restore.2 p.restored [] h.carries).mono ?_ fun _ h => h
    rintro q ⟨hcarries, hslots⟩
    refine ⟨p.slots.restore.2, hwrites, hcarries, ?_, ?_, ?_⟩
    · rwa [hslots]
    · rwa [hslots, hwanted]
    · rw [hobserve]
      exact .nil
  · next hrestore =>
    exact ⟨[], by simp [Restores], h.carries, h.tells, h.meets (by simpa using hrestore), .nil⟩

/-- A frame that comes through is shown as the reference shows it. -/
theorem Idle.attemptAfresh_ends (h : Idle p) (frame : Frame) :
    (p.attemptAfresh frame).Ends
      (fun q => Idle q ∧ ∃ y, Faithful p.upstream frame y ∧
        q.presentedFrames = p.presentedFrames ++ [y])
      (Lost p.batch.host.screen) := by
  have hstart : Idle { p with ordinal := 0 } := ⟨h.taken, h.buffer, h.tells, h.meets⟩
  have hrestore := hstart.restore_ends.with_state (P := fun q => q.upstream = p.upstream ∧
    q.ordinal = 0) ⟨upstream_restore _, ordinal_restore _⟩
  have hitems : ({ p with ordinal := 0 }.itemsAfresh frame.items).Ends
      (fun q => ∃ restored own : List Command, Restores p.upstream restored ∧
        own.Sublist frame.commands ∧
        Midway p.batch.host.screen (restored ++ own) (p.upstream.keepsItems 0 frame.items) q)
      (Lost p.batch.host.screen) := by
    refine hrestore.andEach ?_ fun q hq =>
      foldl_keeps (P := fun _ => Lost _) (fun i _ p h => h.noteItem i) frame.items q hq.1
    rintro q ⟨⟨restored, hrestored, hmid⟩, hupstream, hordinal⟩
    have hrun := advances_items frame.items q restored [] hmid
    rw [hupstream, hordinal] at hrun
    exact hrun.mono (fun q' ⟨own, hown, hq'⟩ => ⟨restored, own, hrestored, hown, hq'⟩) fun _ h => h
  refine hitems.andThen ?_
  rintro q ⟨restored, own, hrestored, hown, hmid⟩
  rw [ends_map]
  refine (Batch.present_ends hmid.carries).mono ?_ fun b hb => hb
  rintro b ⟨hbuffer, hscreen⟩
  have htaken : b.host.screen.taken = [] := by rw [hscreen]
  have hslots : b.host.screen.slots = p.batch.host.screen.slots.after (restored ++ own) := by
    rw [hscreen]
  refine ⟨⟨htaken, hbuffer, ?_, fun _ => ?_⟩, ⟨_, restored ++ own⟩,
    ⟨⟨restored, own, rfl, hrestored, hown⟩, hmid.agrees⟩, ?_⟩
  · exact hslots ▸ hmid.tells
  · exact hslots ▸ hmid.meets
  · rw [presentedFrames, hscreen]
    rfl

/-- The end of a frame leaves the host alone. -/
theorem Idle.conclude (h : Idle p) (frame : Frame) (presented : Bool) (time : Single) :
    Idle (p.conclude frame presented time) := ⟨h.taken, h.buffer, h.tells, h.meets⟩

/-- A frame that is dropped leaves nothing on the screen, and a restore is due. -/
theorem Lost.dropFrame (h : Lost x p) :
    Idle p.dropFrame ∧ p.dropFrame.presentedFrames = x.frames := by
  obtain ⟨slots, hscreen⟩ := Batch.discard_screen h
  have hhost : p.dropFrame.batch.host.screen = p.batch.discard.host.screen := rfl
  refine ⟨⟨?_, rfl, SlotCache.invalidate_allState_tells _ _, nofun⟩, ?_⟩
  · rw [hhost, hscreen]
  · rw [presentedFrames, hhost, hscreen]

/-- One frame. What it adds to the screen is the frame, if it came through, and nothing, if it did
not; in both cases nothing is left on its way. -/
theorem Idle.feedAfresh (h : Idle p) (a : Arrival) :
    Idle (p.feedAfresh a).state ∧ (p.attemptAfresh a.frame).Ends
      (fun _ => ∃ y, Faithful p.upstream a.frame y ∧
        (p.feedAfresh a).state.presentedFrames = p.presentedFrames ++ [y])
      (fun _ => (p.feedAfresh a).state.presentedFrames = p.presentedFrames) := by
  have hends := h.attemptAfresh_ends a.frame
  rw [Pipeline.feedAfresh, processAfresh]
  generalize p.attemptAfresh a.frame = r at hends ⊢
  obtain ⟨q, _ | e⟩ := r
  · obtain ⟨hidle, y, hy, hframes⟩ := hends
    have hkept : Idle q.keepFrame := ⟨hidle.taken, hidle.buffer, hidle.tells, hidle.meets⟩
    exact ⟨hkept.conclude a.frame true _, y, hy, hframes⟩
  · obtain ⟨hidle, hframes⟩ := Lost.dropFrame hends
    rw [settle_failed]
    split
    · exact ⟨hidle, hframes⟩
    · exact ⟨hidle.conclude a.frame false _, hframes⟩

/-- Whatever frames came and whatever calls failed, nothing is on its way between frames. -/
theorem Idle.runAfresh (h : Idle p) (as : List Arrival) : Idle (p.runAfresh as) := by
  induction as generalizing p with
  | nil => exact h
  | cons a as ih => exact ih (h.feedAfresh a).1

/-- A pipeline at its start, in front of a host that follows a script. -/
abbrev start (s : Settings) (script : Script) : Pipeline Scripted := ofSettings s { script }

/-- At the start nothing waits. -/
theorem idle_start (s : Settings) (script : Script) : Idle (start s script) := by
  refine ⟨rfl, rfl, ?_, fun _ => ?_⟩
  · intro s v h
    simp [start, ofSettings] at h
  · intro s v h
    simp [start, ofSettings] at h

/-- What a frame adds to the screen, behind any run. -/
theorem feed_ends (s : Settings) (script : Script) (before : List Arrival) (a : Arrival)
    (hrs : NoCollision ((start s script).requests (before ++ [a]))) :
    (((start s script).run before).attempt a.frame).Ends
      (fun _ => ∃ y,
        Faithful ((s.upstream.sees (Arrival.commands before)).under
          ((start s script).run before).culling.profile) a.frame y ∧
        (((start s script).run before).feed a).state.presentedFrames =
          ((start s script).run before).presentedFrames ++ [y])
      (fun _ => (((start s script).run before).feed a).state.presentedFrames =
        ((start s script).run before).presentedFrames) := by
  rw [requests_append] at hrs
  have hbefore := inStep_run s ({ script } : Scripted) before a.frame.items hrs fun r hr => by
    simpa [requests] using hr
  have hupstream := upstream_run s ({ script } : Scripted) before
    (hrs.mono fun r hr => List.mem_append_left _ hr)
  have hattempt := InStep.attempt hbefore hrs
  have hfeed := hbefore.1.feed hrs (a := a) ⟨rfl, rfl⟩ fun r hr =>
    List.mem_append_right _ (by simpa [requests] using hr)
  have hends := (((idle_start s script).runAfresh before).feedAfresh a).2
  rw [hfeed.of_state.presentedFrames_eq, hbefore.1.presentedFrames_eq, ← hupstream,
    hbefore.1.upstream_eq, hattempt.ends_const]
  exact hends

/-- A frame that came on the screen is shown as the reference shows it. -/
theorem faithful_of_presented {s : Settings} {script : Script} {before : List Arrival} {a : Arrival}
    {y : Shown} (hrs : NoCollision ((start s script).requests (before ++ [a])))
    (hy : (((start s script).run before).feed a).state.presentedFrames =
      ((start s script).run before).presentedFrames ++ [y]) :
    Faithful ((s.upstream.sees (Arrival.commands before)).under
      ((start s script).run before).culling.profile) a.frame y := by
  have hends := feed_ends s script before a hrs
  rw [hy] at hends
  cases hfailure : (((start s script).run before).attempt a.frame).failure with
  | none =>
    obtain ⟨z, hz, hframes⟩ := hends.of_ok hfailure
    obtain rfl : y = z := by simpa using hframes
    exact hz
  | some e => simpa using hends.of_failed hfailure

/-- A frame comes on the screen whole or not at all. If it does, it shows what the reference shows,
with all writes of all frames so far, whatever calls failed before and whatever the slots were left
with; if it does not, nothing of it is ever shown. -/
theorem presentedFrames_faithful (s : Settings) (script : Script) (before : List Arrival)
    (a : Arrival)
    (hrs : NoCollision ((start s script).requests (before ++ [a]))) :
    let p := (start s script).run before
    let u := (s.upstream.sees (Arrival.commands before)).under p.culling.profile
    ((p.attempt a.frame).failure = none → ∃ y, Faithful u a.frame y ∧
      (p.feed a).state.presentedFrames = p.presentedFrames ++ [y]) ∧
    (∀ e, (p.attempt a.frame).failure = some e →
      (p.feed a).state.presentedFrames = p.presentedFrames) :=
  have hends := feed_ends s script before a hrs
  ⟨fun hok => hends.of_ok hok, fun _ he => hends.of_failed he⟩

set_option maxRecDepth 10000 in
/-- A frame behind one that was dropped in the middle of its second display list. -/
theorem presentedFrames_faithful_demo :
    ∃ y, Faithful ((Demo.settings.upstream.sees (Arrival.commands [Demo.arrival 1 .white])).under
        ((start Demo.settings (Demo.refusing 2)).run [Demo.arrival 1 .white]).culling.profile)
        (Demo.frame .black) y ∧
      (((start Demo.settings (Demo.refusing 2)).run [Demo.arrival 1 .white]).feed
        (Demo.arrival 1 .black)).state.presentedFrames =
      ((start Demo.settings (Demo.refusing 2)).run [Demo.arrival 1 .white]).presentedFrames ++
        [y] :=
  (presentedFrames_faithful Demo.settings (Demo.refusing 2) [Demo.arrival 1 .white]
    (Demo.arrival 1 .black) (by decide +kernel)).1 (by decide +kernel)

end Pipeline

end RenderStream
