import RenderStream.Proofs.Course

/-!
# What the counts say

What is published counts the frames that the producer handed over and those it heard of, one for
each count that it received, and neither number is the stage's own. `Handoff.Squares` ties them to
the stage at any moment. With a thread they are what the producer knows of it (`Handoff.Counted`),
so no frame was heard of that was not served; and what was served, what waits and what the stage
broke down on were all handed over. When the two numbers meet, nothing waits and nothing was lost.
When everything that was said has been heard, the second number is the stage's own
(`Handoff.told_hearAll`).

They meet at the end of a call on which the frames are awaited. `Handoff.Heeds` is what such a call
keeps from its beginning to its end; the fallback may be turned off on the way, but not before the
wait is over.
-/

namespace RenderStream

/-! ## What a stage got through -/

def Notice.processed? {ι : Type} : Notice ι → Option ι
  | .item a none => some a
  | .item _ (some _) | .finish => none

/-- The items that a sink took without failing. -/
def Watched.processed {ι σ : Type} (w : Watched ι σ) : List ι := w.log.filterMap Notice.processed?

/-- A notice more is an item processed more, or none. -/
theorem Watched.processed_snoc {ι σ : Type} (w : Watched ι σ) (sink : σ) (notice : Notice ι) :
    (⟨sink, w.log ++ [notice]⟩ : Watched ι σ).processed =
      w.processed ++ notice.processed?.toList := by
  rw [processed, List.filterMap_append, List.filterMap_cons, List.filterMap_nil]
  cases notice.processed? <;> rfl

namespace Stage

variable {ι σ : Type} {s : Stage σ} {item : ι}

/-- Items that a stage broke down on: one, or none as long as it has not. -/
def lost (s : Stage σ) : Nat := s.breakdown.isSome.toNat

/-- A stage that is up lost nothing. -/
theorem lost_of_up (h : s.isUp = true) : s.lost = 0 := by rw [lost, (isUp_iff.1 h).1]; rfl

variable [Sink ι σ]

@[simp] theorem lost_finish (s : Stage σ) : s.finish.lost = s.lost := by
  rw [lost, breakdown_finish, lost]

/-- The item that takes a stage down is lost. -/
theorem lost_serve_of_failed (hup : s.isUp = true) (h : (s.serve item).isUp = false) :
    (s.serve item).lost = 1 := by
  cases hr : (Sink.accept item s.sink).failure with
  | none =>
    rw [serve_ok hup hr] at h
    exact absurd hup (Bool.eq_false_iff.1 h)
  | some e => exact (congrArg lost (serve_failed hup hr)).trans (lost_finish _)

/-- An item is served, or lost, or neither by a stage that is down. -/
theorem served_add_lost_serve (s : Stage σ) (item : ι) :
    (s.serve item).served + (s.serve item).lost ≤ s.served + s.lost + 1 := by
  cases hup : s.isUp with
  | false =>
    rw [serve_of_down hup]
    exact Nat.le_succ _
  | true =>
    cases hserved : (s.serve item).isUp with
    | true =>
      have hcount := served_serve hserved
      have hlost := lost_of_up hserved
      omega
    | false =>
      have hcount := served_serve_of_failed hup hserved
      have hlost := lost_serve_of_failed hup hserved
      omega

/-- The log of a sink has as many successes as its stage counts. -/
def Told (s : Stage (Watched ι σ)) : Prop := s.sink.processed.length = s.served

/-- A finished stage was told, unless it panicked. -/
theorem Told.finish {s : Stage (Watched ι σ)} (h : s.Told) : s.finish.Told := by
  rw [Stage.finish]
  split
  · exact h
  · have hlog := (s.sink.processed_snoc (Sink.finish s.sink.sink) .finish).trans (List.append_nil _)
    exact (congrArg List.length hlog).trans h

/-- Serving an item leaves it so. -/
theorem Told.serve {s : Stage (Watched ι σ)} (h : s.Told) (item : ι) : (s.serve item).Told := by
  cases hup : s.isUp with
  | false => rwa [serve_of_down hup]
  | true =>
    have hlog : (Sink.accept item s.sink).state.processed = s.sink.processed ++
        (Notice.item item (Sink.accept item s.sink).failure).processed?.toList :=
      s.sink.processed_snoc _ _
    cases hr : (Sink.accept item s.sink).failure with
    | none =>
      rw [serve_ok hup hr, Told, hlog, hr, List.length_append, h]
      rfl
    | some e =>
      rw [serve_failed hup hr]
      refine Told.finish ?_
      rw [Told, hlog, hr]
      exact (congrArg List.length (List.append_nil _)).trans h

/-- A stage that served items without breaking down served all of them. -/
theorem processed_fed {sink : σ} {items : List ι}
    (h : (fed (⟨sink, []⟩ : Watched ι σ) items).breakdown = none) :
    (fed (⟨sink, []⟩ : Watched ι σ) items).served = items.length ∧
      (fed (⟨sink, []⟩ : Watched ι σ) items).sink.processed = items ∧
      (fed (⟨sink, []⟩ : Watched ι σ) items).isUp = true := by
  have htells := tells_fed sink items
  rw [Tells, h] at htells
  obtain ⟨hfinished, hserved, hlog⟩ := htells
  refine ⟨hserved, ?_, isUp_iff.2 ⟨h, hfinished⟩⟩
  rw [Watched.processed, hlog, List.filterMap_map]
  exact List.filterMap_some

/-- A stage that does not break down on all items did not on the first of them. -/
theorem isUp_fed_of_append {sink : σ} {items more : List ι}
    (h : (fed (⟨sink, []⟩ : Watched ι σ) (items ++ more)).breakdown = none) :
    (fed (⟨sink, []⟩ : Watched ι σ) items).isUp = true := by
  by_contra hdown
  rw [fed_append, foldl_serve_of_down (Bool.eq_false_iff.2 hdown)] at h
  exact hdown (processed_fed h).2.2

end Stage

/-! ## On its way to a stage -/

namespace Outlet

variable {ι σ : Type} [Sink ι σ] {o : Outlet ι σ} {y : Stage σ}

/-- What was handed over and not served yet. -/
def pending : Outlet ι σ → List ι
  | .direct _ => []
  | .queued l => l.pending

/-- When nothing is pending, the stage is what it will be. -/
theorem LeadsTo.stage_eq (h : o.LeadsTo (some []) y) (hnone : o.pending = []) : o.stage = y := by
  cases h with
  | direct => rfl
  | queued _ _ outcome =>
    rw [List.append_nil, show Lane.pending _ = [] from hnone] at outcome
    exact outcome

/-- Hanging up moves no stage to another thread. -/
theorem isQueued_hangUp (o : Outlet ι σ) : o.hangUp.isQueued = o.isQueued := by cases o <;> rfl

end Outlet

namespace Handoff

variable {γ α : Type}

/-! ## Counts and stage -/

/-- What is published squares with what the producer knows and with the stage. -/
structure Squares (c : Completions) (counts : PacingCounts) (o : Outlet Frame (Watched Frame γ)) :
    Prop where
  told : o.stage.Told
  given : o.stage.served + o.stage.lost + o.pending.length ≤ counts.submitted
  /-- A frame is published when it gets into the queue, and again when it is heard of. -/
  queued : o.isQueued = true → counts.submitted = c.submitted ∧ counts.completed = c.completed
  /-- A stage without a thread of its own is heard of at once. -/
  direct : o.isQueued = false → counts.completed = o.stage.served ∧
    counts.submitted = counts.completed + o.stage.lost ∧ c.channel = []

namespace Squares

variable {c : Completions} {counts : PacingCounts} {o o' : Outlet Frame (Watched Frame γ)}

/-- When the numbers meet, all is served. -/
theorem of_meet (h : Squares c counts o) (heard : counts.completed ≤ o.stage.served)
    (hmeet : counts.submitted ≤ counts.completed) :
    counts.completed = counts.submitted ∧ o.stage.served = counts.submitted ∧
      o.stage.breakdown = none ∧ o.pending = [] := by
  have hgiven := h.given
  have hlost : o.stage.lost = 0 := by omega
  have hpending : o.pending.length = 0 := by omega
  refine ⟨by omega, by omega, ?_, List.length_eq_zero_iff.1 hpending⟩
  rw [Stage.lost] at hlost
  cases hb : o.stage.breakdown with
  | none => rfl
  | some => simp [hb] at hlost

/-- A count that is received is published as one frame, and it is the next one. -/
theorem hear {lane : Lane Frame (Watched Frame γ)} {done : Nat} {rest : List Nat}
    (h : Squares c counts (.queued lane)) (hc : Counted c lane)
    (channel : c.channel = done :: rest) :
    Squares (c.receive done) counts.complete (.queued lane) := by
  obtain ⟨hsubmitted, hcompleted⟩ := h.queued rfl
  refine ⟨h.told, h.given, fun _ => ⟨hsubmitted, ?_⟩, nofun⟩
  exact (congrArg (· + 1) hcompleted).trans (hc.tells.eq_of_channel channel).1.symm

/-- A frame that gets into the queue is published. -/
theorem taken {lane : Lane Frame (Watched Frame γ)} {queue : Queue Frame} {frame : Frame}
    {counts' : PacingCounts} (h : Squares c counts (.queued lane))
    (hsubmitted : counts'.submitted = counts.submitted + 1)
    (hcompleted : counts'.completed = counts.completed)
    (htaken : lane.queue.offer frame = (queue, .taken)) :
    Squares c.submit counts' (.queued { lane with queue }) := by
  obtain ⟨-, -, rfl⟩ := Queue.offer_eq_taken htaken
  obtain ⟨hsame, hheard⟩ := h.queued rfl
  refine ⟨h.told, ?_, fun _ => ⟨hsubmitted.trans (congrArg (· + 1) hsame), hcompleted.trans hheard⟩,
    nofun⟩
  have hgiven := h.given
  rw [hsubmitted]
  simp only [Outlet.stage, Outlet.pending, Lane.pending, List.length_append, List.length_cons,
    List.length_nil] at hgiven ⊢
  omega

variable [Sink Frame γ]

/-- A thread takes nothing with it, and loses no more than one item. -/
theorem act (h : Squares c counts o) (hact : o.act = some o') :
    Squares (c.send o.word) counts o' := by
  cases o with
  | direct => cases hact
  | queued l =>
    have hthread : (Outlet.queued l).isQueued ≠ false := Bool.noConfusion
    obtain ⟨l', hl', rfl⟩ := Option.map_eq_some_iff.1 hact
    obtain ⟨told, given, queued, -⟩ := h
    cases Lane.act_cases hl' with
    | @serve item hand =>
      refine ⟨told.serve item, ?_, queued, fun ho => absurd ho hthread⟩
      have hserve := l.stage.served_add_lost_serve item
      simp only [Outlet.stage, Outlet.pending, Lane.pending, hand, Option.toList_some,
        Option.toList_none, List.length_append, List.length_cons, List.length_nil] at given ⊢
      omega
    | exitDown | exitEnded =>
      refine ⟨told.finish, ?_, queued, fun ho => absurd ho hthread⟩
      simp only [Outlet.stage, Lane.exit, Stage.served_finish, Stage.lost_finish]
      exact given
    | take hand _ _ items =>
      refine ⟨told, ?_, queued, fun ho => absurd ho hthread⟩
      simp only [Outlet.stage, Outlet.pending, Lane.pending, hand, items, Option.toList_some,
        Option.toList_none, List.length_append, List.length_cons, List.length_nil] at given ⊢
      omega

/-- The producer leaves nothing behind that was not handed over. -/
theorem hangUp (h : Squares c counts o) : Squares c counts o.hangUp := by
  cases o with
  | direct s =>
    obtain ⟨told, given, -, direct⟩ := h
    refine ⟨told.finish, ?_, fun hq => absurd hq Bool.false_ne_true, fun ho => ?_⟩ <;>
      simp only [Outlet.hangUp, Outlet.stage, Stage.served_finish, Stage.lost_finish]
    · exact given
    · exact direct ho
  | queued l => exact ⟨h.told, h.given, h.queued, fun hq => absurd hq.symm Bool.false_ne_true⟩

end Squares

/-! ## Awaited frames -/

section
variable {h h' : Handoff (Watched Frame γ) α}

/-- The producer, on a call with a frame, is not done before it has heard of every frame. -/
def Heeds (h : Handoff γ α) : Prop :=
  match h.phase with
  | .pushing _ _ => h.fallback.active = true
  | .awaiting | .free (.error _) => True
  | .settling | .free (.ok ()) => h.counts.submitted ≤ h.counts.completed
  | .mixing _ => False

/-- A delivery does not turn the fallback off. -/
theorem active_deliver {f : Fallback} (h : f.active = true) (limit : Nat) (stalled : Bool) :
    (f.deliver limit stalled).active = true := by
  cases stalled <;> simp [Fallback.deliver, h]

/-- A frame that gets into the queue is awaited whenever the fallback is on then. -/
theorem heeds_pushed {d : Delivery} (hactive : (h.pushed d).fallback.active = true) :
    (h.pushed d).Heeds := by
  have hphase : (h.pushed d).phase = .awaiting := if_pos hactive
  rw [Heeds, hphase]
  trivial

/-- A delivery counts no packet. -/
theorem pushed_audioPackets (h : Handoff γ α) (d : Delivery) :
    (h.pushed d).counts.audioPackets = h.counts.audioPackets :=
  (apply_ite PacingCounts.audioPackets _ _ _).trans (ite_self _)

/-- A delivery of a frame leads to no packet. -/
theorem onAudio_pushed (h : Handoff γ α) (d : Delivery) : onAudio (h.pushed d).phase = false := by
  rcases pushed_phase h d with hphase | hphase <;> rw [hphase] <;> rfl

/-- A wait ends when every frame has been heard of. -/
theorem heeds_awaited {lane : Lane Frame (Watched Frame γ)} {fallback : Fallback}
    (hsquares : Squares h.completions h.counts h.graphics) (graphics : h.graphics = .queued lane)
    (none_left : h.completions.submitted ≤ h.completions.completed) :
    ({ h with fallback, phase := .settling } : Handoff (Watched Frame γ) α).Heeds := by
  obtain ⟨hsubmitted, hcompleted⟩ := hsquares.queued (graphics ▸ rfl)
  change h.counts.submitted ≤ h.counts.completed
  omega

/-- The fallback goes on just when a wait begins. -/
theorem Act.heeds_or_active (hact : h.Act h')
    (hsquares : Squares h.completions h.counts h.graphics)
    (hactive : h'.fallback.active = true) : h'.Heeds ∨ h.fallback.active = true := by
  cases hact with
  | pushes => exact .inl (heeds_pushed hactive)
  | awaited _ _ graphics none_left => exact .inl (heeds_awaited hsquares graphics none_left)
  | frameRefused | waits | hears | abandoned | settles | packetRefused | mixes =>
    exact .inr hactive

/-- Once a frame is to be awaited, it is awaited or refused. -/
theorem Heeds.act (hh : h.Heeds) (hsquares : Squares h.completions h.counts h.graphics)
    (hact : h.Act h') : h'.Heeds := by
  cases hact with
  | frameRefused | abandoned | packetRefused => trivial
  | waits phase =>
    rw [Heeds, phase] at hh
    exact hh
  | pushes delivery phase =>
    rw [Heeds, phase] at hh
    exact heeds_pushed (active_deliver hh _ _)
  | @hears _ done _ phase =>
    have hsame : (h.hear done).phase = h.phase := rfl
    rw [Heeds, hsame]
    rcases phase with phase | phase <;> rw [phase]
    · trivial
    · rw [Heeds, phase] at hh
      exact Nat.le_succ_of_le hh
  | awaited _ _ graphics none_left => exact heeds_awaited hsquares graphics none_left
  | settles phase =>
    rw [Heeds, phase] at hh
    exact hh
  | mixes phase =>
    rw [Heeds, phase] at hh
    exact hh.elim

end

/-! ## Honest counts -/

/-- What holds of the counts at every moment, after so many packets. -/
structure Honest (threaded : Bool) (packets : Nat) (e : Errand)
    (h : Handoff (Watched Frame γ) (Watched AudioPacket α)) : Prop where
  kind : h.graphics.isQueued = threaded
  frames : Squares h.completions h.counts h.graphics
  /-- A packet counts once it is handed over. -/
  packets : h.counts.audioPackets + (onAudio h.phase).toNat = packets
  heeds : ∀ f, e = .call (.frame f) → h.fallback.active = true → h.Heeds

variable [Sink Frame γ] [Sink AudioPacket α] {threaded : Bool} {packets : Nat}
  {ahead : Bool} {y : Stage (Watched Frame γ)} {z : Stage (Watched AudioPacket α)} {e : Errand}
  {h h' : Handoff (Watched Frame γ) (Watched AudioPacket α)}

omit [Sink Frame γ] [Sink AudioPacket α] in
/-- At the start all counts are honest. -/
theorem honest_ofSettings (t : Settings.Threading) (processors : Nat) (g : γ) (a : α) :
    (ofSettings t processors (⟨g, []⟩ : Watched Frame γ)
      (⟨a, []⟩ : Watched AudioPacket α)).Honest t.asyncGraphics 0 .idle where
  kind := by
    cases ht : t.asyncGraphics <;> simp [ofSettings, Outlet.start, Outlet.isQueued, ht]
  frames := by
    cases ht : t.asyncGraphics <;> simp only [ofSettings, Outlet.start, ht]
    · exact ⟨rfl, Nat.le_refl _, fun hq => absurd hq Bool.false_ne_true, fun _ => ⟨rfl, rfl, rfl⟩⟩
    · exact ⟨rfl, Nat.le_refl _, fun _ => ⟨rfl, rfl⟩, fun hq => absurd hq.symm Bool.false_ne_true⟩
  packets := rfl
  heeds _ hidle := by cases hidle

omit [Sink Frame γ] [Sink AudioPacket α] in
/-- No frame was heard of that was not served. -/
theorem Honest.heard (hh : h.Honest threaded packets e)
    (hcounted : ∀ lane, h.graphics = .queued lane → Counted h.completions lane) :
    h.counts.completed ≤ h.graphics.stage.served := by
  cases hg : h.graphics with
  | direct stage =>
    have hcompleted := (hh.frames.direct (hg ▸ rfl)).1
    rw [hg] at hcompleted
    exact Nat.le_of_eq hcompleted
  | queued lane =>
    rw [(hh.frames.queued (hg ▸ rfl)).2]
    exact (hcounted lane hg).tells.heard

omit [Sink Frame γ] [Sink AudioPacket α] in
/-- No frame was heard of that the sink has not got through, or that was not handed over. -/
theorem Honest.completed_le (hh : h.Honest threaded packets e)
    (hcounted : ∀ lane, h.graphics = .queued lane → Counted h.completions lane) :
    h.counts.completed ≤ h.graphics.stage.sink.processed.length ∧
      h.counts.completed ≤ h.counts.submitted := by
  have hheard := hh.heard hcounted
  have htold := hh.frames.told
  have hgiven := hh.frames.given
  rw [Stage.Told] at htold
  omega

/-! ### Calls -/

omit [Sink AudioPacket α] in
/-- A stage without a thread of its own serves a frame in the call, loses it in the call or is down
already. -/
theorem Squares.serveFrame {s : Stage (Watched Frame γ)} (hg : h.graphics = .direct s)
    (hs : Squares h.completions h.counts h.graphics) (f : Frame) :
    Squares (h.serveFrame s f).completions (h.serveFrame s f).counts (h.serveFrame s f).graphics ∧
      (h.serveFrame s f).counts.audioPackets = h.counts.audioPackets ∧
      onAudio (h.serveFrame s f).phase = false ∧ (h.serveFrame s f).Heeds := by
  obtain ⟨hcompleted, hsubmitted, hchannel⟩ := hs.direct (by rw [hg]; rfl)
  have htold := hs.told
  rw [hg] at hcompleted hsubmitted htold
  simp only [Outlet.stage] at hcompleted hsubmitted htold
  rw [Handoff.serveFrame]
  split
  · next hup =>
    rw [Stage.lost_of_up hup] at hsubmitted
    dsimp only
    cases hserved : (s.serve f).isUp with
    | true =>
      have hcount := Stage.served_serve hserved
      have hlost := Stage.lost_of_up hserved
      refine ⟨⟨htold.serve f, ?_, fun hq => absurd hq Bool.false_ne_true,
        fun _ => ⟨?_, ?_, hchannel⟩⟩, rfl, rfl, ?_⟩ <;>
        simp only [if_pos, give, Outlet.stage, Outlet.pending, PacingCounts.submit,
          PacingCounts.complete, Heeds, List.length_nil] <;> omega
    | false =>
      have hcount := Stage.served_serve_of_failed hup hserved
      have hlost := Stage.lost_serve_of_failed hup hserved
      refine ⟨⟨htold.serve f, ?_, fun hq => absurd hq Bool.false_ne_true,
        fun _ => ⟨?_, ?_, hchannel⟩⟩, rfl, rfl, trivial⟩ <;>
        simp only [Bool.false_eq_true, if_false, give, Outlet.stage, Outlet.pending,
          PacingCounts.submit, List.length_nil] <;> omega
  · exact ⟨hs, rfl, rfl, trivial⟩

omit [Sink AudioPacket α] in
/-- Handing a frame in keeps the counts honest. -/
theorem Honest.handFrame (hh : h.Honest threaded packets .idle) (hfree : onAudio h.phase = false)
    (frame f : Frame) : (h.handFrame f).Honest threaded packets (.call (.frame frame)) := by
  obtain ⟨kind, frames, hpackets, -⟩ := hh
  rw [hfree] at hpackets
  cases hg : h.graphics with
  | queued lane =>
    rw [handFrame_queued hg]
    exact ⟨kind, frames, hpackets, fun _ _ hactive => hactive⟩
  | direct stage =>
    have hcall : h.handFrame f = h.serveFrame stage f := by simp only [Handoff.handFrame, hg]
    obtain ⟨hframes, haudio, hphase, hheeds⟩ := frames.serveFrame hg f
    refine ⟨(isQueued_handFrame h f).1.trans kind, hcall ▸ hframes, ?_, fun _ _ _ => hcall ▸ hheeds⟩
    rw [hcall, haudio, hphase]
    exact hpackets

/-- A call counts its packet; a frame that is refused at once counts nowhere. -/
theorem Honest.begin (hh : h.Honest threaded packets .idle) (hfree : onAudio h.phase = false)
    (call : Call) :
    (h.begin call).Honest threaded (packets + (Call.packets [call]).length) (.call call) := by
  cases call with
  | frame f =>
    obtain ⟨workers, hcall, -⟩ := beginFrame_eq h f
    have hh' : ({ h with workers } : Handoff _ _).Honest threaded packets .idle :=
      ⟨hh.kind, hh.frames, hh.packets, fun _ hidle => by cases hidle⟩
    rw [Handoff.begin, hcall]
    exact hh'.handFrame hfree f _
  | audio p =>
    obtain ⟨kind, frames, hpackets, -⟩ := hh
    rw [hfree] at hpackets
    cases ha : h.audio with
    | queued lane =>
      rw [Handoff.begin, beginAudio_queued ha]
      exact ⟨kind, frames, congrArg (· + 1) hpackets, fun _ hcall => by cases hcall⟩
    | direct stage =>
      rw [Handoff.begin, beginAudio_direct ha]
      exact ⟨kind, ⟨frames.told, frames.given, frames.queued, frames.direct⟩,
        congrArg (· + 1) hpackets, fun _ hcall => by cases hcall⟩

/-! ### Turns -/

/-- A move of the producer on its call, while the audio stage takes every packet. -/
theorem Honest.act (hh : h.Honest threaded packets e) (hs : h.Stands ahead y z e)
    (hz : z.isUp = true) (hact : h.Act h') : h'.Honest threaded packets e := by
  have hheeds : ∀ f, e = .call (.frame f) → h'.fallback.active = true → h'.Heeds :=
    fun f hf hactive => (hact.heeds_or_active hh.frames hactive).elim id
      fun hactive => (hh.heeds f hf hactive).act hh.frames hact
  obtain ⟨kind, frames, hpackets, -⟩ := hh
  cases hact with
  | frameRefused phase | waits phase | abandoned phase | awaited _ phase | settles phase =>
    rw [phase] at hpackets
    exact ⟨kind, frames, hpackets, hheeds⟩
  | @hears lane done rest _ graphics channel =>
    refine ⟨kind, ?_, hpackets, hheeds⟩
    have hgraphics : (h.hear done).graphics = .queued lane := graphics
    rw [graphics] at frames
    rw [hgraphics]
    exact frames.hear (hs.counted lane graphics) channel
  | pushes delivery phase graphics taken =>
    rw [phase] at hpackets
    rw [graphics] at kind frames
    refine ⟨kind, ?_, ?_, hheeds⟩
    · exact frames.taken (pushed_submitted _ delivery) (pushed_completed _ delivery) taken
    · rw [pushed_audioPackets, onAudio_pushed]
      exact hpackets
  | packetRefused phase audio gone =>
    have hallows := hs.allows
    have haudio := hs.audio
    rw [phase] at hallows haudio
    cases hallows
    rw [audio] at haudio
    exact absurd (haudio.isUp_of_gone gone) (by simp [hz])
  | mixes phase audio taken =>
    rw [phase] at hpackets
    exact ⟨kind, ⟨frames.told, frames.given, frames.queued, frames.direct⟩, hpackets, hheeds⟩

/-- A move of any thread. -/
theorem Honest.turn (hh : h.Honest threaded packets e) (hs : h.Stands ahead y z e)
    (hz : z.isUp = true) {t : Turn} (hturn : h.turn t = some h') :
    h'.Honest threaded packets e := by
  cases t with
  | producer late => exact hh.act hs hz (act_cases hturn)
  | graphics =>
    obtain ⟨o, ho, rfl⟩ := Option.map_eq_some_iff.1 hturn
    exact ⟨(Outlet.isQueued_act ho).trans hh.kind, hh.frames.act ho, hh.packets, hh.heeds⟩
  | audio =>
    obtain ⟨o, ho, rfl⟩ := Option.map_eq_some_iff.1 hturn
    exact ⟨hh.kind, hh.frames, hh.packets, hh.heeds⟩

/-- The threads leave the call where it is. -/
theorem Heeds.turn (hheeds : h.Heeds) (hsquares : Squares h.completions h.counts h.graphics)
    {t : Turn}
    (hturn : h.turn t = some h') : h'.Heeds := by
  cases t with
  | producer late => exact hheeds.act hsquares (act_cases hturn)
  | graphics =>
    obtain ⟨o, ho, rfl⟩ := Option.map_eq_some_iff.1 hturn
    exact hheeds
  | audio =>
    obtain ⟨o, ho, rfl⟩ := Option.map_eq_some_iff.1 hturn
    exact hheeds

/-! ### Shutdown -/

omit [Sink Frame γ] [Sink AudioPacket α] in
/-- The producer that has received every count knows of every frame, and has published each. -/
theorem told_hearAll {n : Nat} (htells : h.completions.Tells n)
    (hsame : h.counts.completed = h.completions.completed) :
    h.hearAll.counts = { h.counts with completed := n } := by
  rw [hearAll]
  generalize hchannel : h.completions.channel = channel
  induction channel generalizing h with
  | nil => rw [← htells.eq_of_nil hchannel, ← hsame, List.foldl_nil]
  | cons done rest ih =>
    have hnext : (h.hear done).counts.completed = (h.hear done).completions.completed :=
      (congrArg (· + 1) hsame).trans (htells.eq_of_channel hchannel).1.symm
    exact ih (htells.receive hchannel) hnext (congrArg List.tail hchannel)

/-- Shutdown hears of every frame that was served. -/
theorem Honest.shutdown (hh : h.Honest threaded packets e) (hs : h.Stands ahead y z e) :
    h.shutdown.2.pacing =
      { h.counts with completed := h.shutdown.1.graphics.stage.served, fallback := false } := by
  obtain ⟨completions, counts, hheard⟩ := hearAll_keeps
    ({ h with
      graphics := h.graphics.close
      completions := h.completions.send h.graphics.words } : Handoff _ _)
  have hcounts := congrArg Handoff.counts hheard
  rw [Handoff.shutdown, hheard]
  change { counts with fallback := false } =
    { h.counts with completed := h.graphics.close.stage.served, fallback := false }
  suffices hpublished : counts = { h.counts with completed := h.graphics.close.stage.served } by
    rw [hpublished]
  refine hcounts.symm.trans ?_
  cases hg : h.graphics with
  | queued lane =>
    have htells := tells_words (hs.counted lane hg).tells lane.pending
    have hserved : (Outlet.queued lane).close.stage.served =
        (lane.pending.foldl Stage.serve lane.stage).served := by
      rw [Outlet.close, Outlet.stage, Outlet.Lane.close_stage, Stage.served_finish]
    rw [hserved]
    exact told_hearAll htells (hh.frames.queued (hg ▸ rfl)).2
  | direct stage =>
    obtain ⟨hcompleted, -, hchannel⟩ := hh.frames.direct (hg ▸ rfl)
    rw [hg] at hcompleted
    have hserved : (Outlet.direct stage : Outlet Frame _).close.stage.served = stage.served :=
      Stage.served_finish stage
    rw [hearAll, Outlet.words, Completions.send_nil, hchannel, hserved, List.foldl_nil]
    exact hcompleted ▸ rfl

/-- A stage without a thread of its own that is down refuses every frame, and nothing comes of
it. -/
theorem begin_of_down (hg : h.graphics.isQueued = false)
    (hdown : h.graphics.stage.isUp = false) (f : Frame) :
    (h.begin (.frame f)).result? = some (.error .graphicsStopped) ∧
      (h.begin (.frame f)).pacing = h.pacing ∧ (h.begin (.frame f)).graphics = h.graphics := by
  obtain ⟨workers, hcall, -⟩ := beginFrame_eq h f
  cases hstage : h.graphics with
  | queued lane => exact absurd (hstage ▸ hg) nofun
  | direct stage =>
    rw [hstage] at hdown
    have hdown : stage.isUp = false := hdown
    have hrefused : ({ h with workers } : Handoff _ _).handFrame (f.handed h.tagsAhead) =
        ({ h with workers } : Handoff _ _).give (.error .graphicsStopped) := by
      simp [Handoff.handFrame, hstage, Handoff.serveFrame, hdown]
    rw [Handoff.begin, hcall, hrefused]
    exact ⟨rfl, rfl, hstage⟩

end Handoff

namespace Course

variable {γ α : Type} [Sink Frame γ] [Sink AudioPacket α] {threaded ahead : Bool} {g : γ} {a : α}
  {calls : List Call} {c d : Course (Watched Frame γ) (Watched AudioPacket α)}

/-- The counts are honest all along a course. -/
def Honest (threaded : Bool) (c : Course (Watched Frame γ) (Watched AudioPacket α)) : Prop :=
  c.handoff.Honest threaded (Call.packets c.begun).length c.errand

/-- Every move keeps the counts honest. -/
theorem Honest.step (hh : c.Honest threaded) (hc : c.Inv ahead ⟨g, []⟩ ⟨a, []⟩ calls)
    (hsteady : (Stage.fed (⟨a, []⟩ : Watched AudioPacket α) (Call.packets calls)).breakdown = none)
    (hstep : c.Step d) : d.Honest threaded := by
  have hup : (Stage.fed (⟨a, []⟩ : Watched AudioPacket α) (Call.packets c.begun)).isUp = true := by
    rw [← hc.calls_eq, Call.packets_append] at hsteady
    exact Stage.isUp_fed_of_append hsteady
  have hstands := hc.stands
  rw [Honest] at hh
  cases hstep with
  | @begin call rest idle todo =>
    rw [idle] at hh hstands
    obtain ⟨r, hphase⟩ := hstands.allows.exists_free fun _ hidle => by cases hidle
    have hbegin := hh.begin (by rw [hphase]; rfl) call
    rw [begun_eq (by rw [idle]; rfl)] at hbegin
    rw [Honest, begun, Call.packets_append, List.length_append]
    exact hbegin
  | turn hturn => exact hh.turn hstands hup hturn
  | @answer call result errand phase =>
    rw [Honest, begun_answer errand result]
    exact ⟨hh.kind, hh.frames, hh.packets, fun _ hidle => by cases hidle⟩
  | leaveGraphics idle todo =>
    rw [begun_eq (by rw [idle]; rfl)] at hh
    rw [Honest, begun_eq rfl]
    exact ⟨(Outlet.isQueued_hangUp _).trans hh.kind, hh.frames.hangUp, hh.packets,
      fun _ hjoin => by cases hjoin⟩
  | @hear lane done rest errand graphics gone channel =>
    refine ⟨hh.kind, ?_, hh.packets, fun _ hcall => by cases errand.symm.trans hcall⟩
    have hframes := hh.frames
    have hgraphics : (c.handoff.hear done).graphics = .queued lane := graphics
    rw [graphics] at hframes
    rw [hgraphics]
    exact hframes.hear (hstands.counted lane graphics) channel
  | leaveAudio errand | finish errand =>
    rw [begun_eq (by rw [errand]; rfl)] at hh
    rw [Honest, begun_eq rfl]
    exact ⟨hh.kind, hh.frames, hh.packets, fun _ hjoin => by cases hjoin⟩

/-- Until it is answered, a call with a frame that is to be awaited goes on so. -/
def Held (c d : Course (Watched Frame γ) (Watched AudioPacket α)) : Prop :=
  c.answers.length ≤ d.answers.length ∧
    (d.answers = c.answers → d.errand = c.errand ∧ d.handoff.Heeds)

/-- A move of any thread leaves a call that is not answered where it is. -/
theorem Held.step {b : Course (Watched Frame γ) (Watched AudioPacket α)} {f : Frame}
    (hb : c.Held b) (hc : c.errand = .call (.frame f)) (hhonest : b.Honest threaded)
    (hstep : b.Step d) : c.Held d := by
  obtain ⟨hlength, hheld⟩ := hb
  have hcall : b.answers = c.answers → b.errand = .call (.frame f) :=
    fun hanswers => (hheld hanswers).1.trans hc
  cases hstep with
  | begin idle | leaveGraphics idle =>
    refine ⟨hlength, fun hanswers => ?_⟩
    exact absurd (idle.symm.trans (hcall hanswers)) nofun
  | turn hturn =>
    exact ⟨hlength, fun hanswers =>
      ⟨(hheld hanswers).1, (hheld hanswers).2.turn hhonest.frames hturn⟩⟩
  | answer =>
    refine ⟨by simp; omega, fun hanswers => ?_⟩
    have hmore := congrArg List.length hanswers
    rw [List.length_append, List.length_singleton] at hmore
    omega
  | hear errand | leaveAudio errand | finish errand =>
    refine ⟨hlength, fun hanswers => ?_⟩
    exact absurd (errand.symm.trans (hcall hanswers)) nofun

/-- A schedule is a stretch of a course. -/
theorem reaches_run {h : Handoff (Watched Frame γ) (Watched AudioPacket α)} {schedule : List Turn}
    (hrun : c.handoff.run schedule = some h) :
    Relation.ReflTransGen Step c { c with handoff := h } := by
  induction schedule generalizing c with
  | nil =>
    obtain rfl : c.handoff = h := Option.some.inj hrun
    exact .refl
  | cons t rest ih =>
    obtain ⟨b, hturn, hrest⟩ := Option.bind_eq_some_iff.1 (List.foldlM_cons.symm.trans hrun)
    exact .head (.turn hturn) (ih (c := { c with handoff := b }) hrest)

/-- A call with a schedule of the threads under which it returns is a stretch of a course. -/
theorem reaches_call {h : Handoff (Watched Frame γ) (Watched AudioPacket α)} {call : Call}
    {rest : List Call} {schedule : List Turn} {result : Except PacingError Unit}
    (idle : c.errand = .idle) (todo : c.todo = call :: rest)
    (hrun : (c.handoff.begin call).run schedule = some h) (hphase : h.phase = .free result) :
    Relation.ReflTransGen Step c
      { handoff := h, todo := rest, answers := c.answers ++ [(call, result)] } :=
  .head (.begin idle todo) ((reaches_run hrun).tail (.answer rfl hphase))

/-- The counts stay honest. -/
theorem Honest.reaches (hh : c.Honest threaded) (hc : c.Inv ahead ⟨g, []⟩ ⟨a, []⟩ calls)
    (hsteady : (Stage.fed (⟨a, []⟩ : Watched AudioPacket α) (Call.packets calls)).breakdown = none)
    (hd : Relation.ReflTransGen Step c d) : d.Honest threaded := by
  induction hd with
  | refl => exact hh
  | tail hb hstep ih => exact ih.step (hc.reaches hb) hsteady hstep

/-- A call with a frame that is to be awaited goes on so until it is answered. -/
theorem Honest.held {f : Frame} (hh : c.Honest threaded) (hc : c.Inv ahead ⟨g, []⟩ ⟨a, []⟩ calls)
    (hsteady : (Stage.fed (⟨a, []⟩ : Watched AudioPacket α) (Call.packets calls)).breakdown = none)
    (errand : c.errand = .call (.frame f)) (hactive : c.handoff.fallback.active = true)
    (hd : Relation.ReflTransGen Step c d) : c.Held d := by
  induction hd with
  | refl => exact ⟨Nat.le_refl _, fun _ => ⟨rfl, hh.heeds f errand hactive⟩⟩
  | tail hb hstep ih => exact ih.step errand (hh.reaches hc hsteady hb) hstep

/-- When the counts meet at the end of a call with a frame, the sink has got every frame so far. -/
theorem Honest.all_processed {f : Frame} (hh : c.Honest threaded)
    (hc : c.Inv ahead ⟨g, []⟩ ⟨a, []⟩ calls) (errand : c.errand = .call (.frame f))
    (hphase : c.handoff.phase = .free (.ok ())) (hheeds : c.handoff.Heeds) :
    c.handoff.graphics.stage.sink.processed = Call.frames ahead c.begun ∧
      c.handoff.counts.submitted = (Call.frames ahead c.begun).length ∧
      c.handoff.counts.completed = (Call.frames ahead c.begun).length := by
  rw [Handoff.Heeds, hphase] at hheeds
  obtain ⟨hmeet, hserved, hbreakdown, hpending⟩ :=
    hh.frames.of_meet (hh.heard hc.stands.counted) hheeds
  have hleads := hc.stands.graphics
  rw [errand, hphase] at hleads
  rw [hleads.stage_eq hpending] at hserved hbreakdown ⊢
  obtain ⟨hlength, hprocessed, -⟩ := Stage.processed_fed hbreakdown
  exact ⟨hprocessed, hserved.symm.trans hlength, hmeet.trans (hserved.symm.trans hlength)⟩

/-- The report of a shutdown agrees with the counts in it. -/
theorem Honest.report (hh : c.Honest threaded) (hc : c.Inv ahead ⟨g, []⟩ ⟨a, []⟩ calls)
    (hcalm : (Stage.fed g (Call.frames ahead calls)).panicked = false)
    (hsteady : (Stage.fed (⟨a, []⟩ : Watched AudioPacket α) (Call.packets calls)).breakdown = none)
    (hover : c.Over) :
    c.handoff.shutdown.2.pacing.completed = c.handoff.shutdown.2.frames ∧
      c.handoff.shutdown.2.pacing.audioPackets = c.handoff.shutdown.2.packets := by
  obtain ⟨hgraphics, -, hframes, -, haudio⟩ := hc.shutdown hover
  have hpublished := Handoff.Honest.shutdown hh hc.stands
  rw [hpublished, hgraphics, hframes, haudio]
  constructor
  · rw [← Stage.unwatched_fed] at hcalm
    have hquiet : (Stage.fed (⟨g, []⟩ : Watched Frame γ)
        (Call.frames ahead calls)).finish.panicked = false := by
      rw [Stage.panicked, Stage.breakdown_finish]
      exact hcalm
    rw [Stage.account, hquiet]
    rfl
  · obtain ⟨r, hphase⟩ := hc.stands.allows.exists_free hover.2
    have hcount := hh.packets
    rw [hphase, hc.begun_of_over hover] at hcount
    have haccount :
        (Stage.fed (⟨a, []⟩ : Watched AudioPacket α) (Call.packets calls)).finish.account =
        (Call.packets calls).length := by
      rw [Stage.account, Stage.panicked, Stage.breakdown_finish, hsteady, Stage.served_finish]
      exact (Stage.processed_fed hsteady).1
    rw [haccount]
    exact hcount

/-- At the end of a course the producer has heard of everything itself: the report of a shutdown has
its counts. -/
theorem Honest.report_of_done (hh : c.Honest threaded) (hc : c.Inv ahead ⟨g, []⟩ ⟨a, []⟩ calls)
    (hdone : c.errand = .done) :
    c.handoff.shutdown.2.pacing = { c.handoff.pacing with fallback := false } := by
  obtain ⟨hgraphics, -, -⟩ := hc.shutdown (hc.over_of_done hdone)
  have hstage := (hc.stages_of_done hdone).1
  have hheard : c.handoff.counts.completed = c.handoff.graphics.stage.served := by
    cases hg : c.handoff.graphics with
    | direct stage =>
      have hcompleted := (hh.frames.direct (hg ▸ rfl)).1
      rwa [hg] at hcompleted
    | queued lane =>
      have hchannel := hc.heard (.inr hdone) (hg ▸ rfl)
      rw [(hh.frames.queued (hg ▸ rfl)).2]
      exact (hc.stands.counted lane hg).tells.eq_of_nil hchannel
  rw [Handoff.Honest.shutdown hh hc.stands, hgraphics, ← hstage, ← hheard]
  rfl

/-- The counts tell the truth, however the threads are scheduled, as long as no sink panics. At
every moment the producer has heard of no more frames than the sink has got through, nor of more
than it handed over. A stage without a thread of its own is heard of at once; the frame that it
breaks down on is the only one handed over and not heard of, and what comes later is refused and
changes nothing. A call on which frames are awaited at some moment does not succeed before the sink
has got through every frame so far and the producer has heard of it. The report of a shutdown agrees
with the counts in it, and at the end of a course these are the counts that the producer has come to
by hearing of one frame after the other. -/
theorem counts_tell (t : Settings.Threading) (processors : Nat) (g : γ) (a : α) (calls : List Call)
    (hcalm : (Stage.fed g (Call.frames t.tagsAhead calls)).panicked = false)
    (hsteady : (Stage.fed a (Call.packets calls)).breakdown = none) :
    let start : Course (Watched Frame γ) (Watched AudioPacket α) :=
      { handoff := .ofSettings t processors ⟨g, []⟩ ⟨a, []⟩, todo := calls }
    ∀ c, Relation.ReflTransGen Step start c →
      let counts := c.handoff.pacing
      let stage := c.handoff.graphics.stage
      let report := c.handoff.shutdown.2
      (counts.completed ≤ stage.sink.processed.length ∧ counts.completed ≤ counts.submitted) ∧
      (t.asyncGraphics = false →
        counts.submitted = counts.completed + stage.breakdown.isSome.toNat ∧
        (stage.breakdown.isSome = true → ∀ f,
          (c.handoff.begin (.frame f)).result? = some (.error .graphicsStopped) ∧
          (c.handoff.begin (.frame f)).pacing = counts ∧
          (c.handoff.begin (.frame f)).graphics = c.handoff.graphics)) ∧
      (∀ f d, c.errand = .call (.frame f) → counts.fallback = true →
        Relation.ReflTransGen Step c d → d.answers = c.answers →
        d.handoff.result? = some (.ok ()) →
        d.handoff.graphics.stage.sink.processed = Call.frames t.tagsAhead d.begun ∧
        d.handoff.pacing.submitted = (Call.frames t.tagsAhead d.begun).length ∧
        d.handoff.pacing.completed = (Call.frames t.tagsAhead d.begun).length) ∧
      (c.Over →
        report.pacing.completed = report.frames ∧
        report.pacing.audioPackets = report.packets) ∧
      (c.errand = .done → report.pacing = { counts with fallback := false }) := by
  intro start c hc counts stage report
  have hsteady : (Stage.fed (⟨a, []⟩ : Watched AudioPacket α)
      (Call.packets calls)).breakdown = none := by
    rwa [← Stage.unwatched_fed] at hsteady
  have hstart := inv_start t processors (⟨g, []⟩ : Watched Frame γ)
    (⟨a, []⟩ : Watched AudioPacket α) calls
  have hinv := hstart.reaches hc
  have hbegin : start.Honest t.asyncGraphics := Handoff.honest_ofSettings t processors g a
  have hhonest := hbegin.reaches hstart hsteady hc
  refine ⟨hhonest.completed_le hinv.stands.counted, fun hinline => ?_,
    fun f d errand hactive hd hanswers hok => ?_, hhonest.report hinv hcalm hsteady,
    hhonest.report_of_done hinv⟩
  · have hkind := hhonest.kind.trans hinline
    refine ⟨(hhonest.frames.direct hkind).2.1, fun hbroken => ?_⟩
    refine Handoff.begin_of_down hkind (Bool.eq_false_iff.2 fun hup => ?_)
    rw [(Stage.isUp_iff.1 hup).1] at hbroken
    exact absurd hbroken nofun
  · obtain ⟨herrand, hheeds⟩ := (hhonest.held hinv hsteady errand hactive hd).2 hanswers
    have hphase : d.handoff.phase = .free (.ok ()) := by
      rw [Handoff.result?] at hok
      split at hok
      · next r hr => rw [hr, Option.some.inj hok]
      · exact absurd hok nofun
    exact (hhonest.reaches hinv hsteady hd).all_processed (hinv.reaches hd) (herrand.trans errand)
      hphase hheeds

/-- Two stalls in a row, on a queue for one frame, turn the fallback on. The frame of the second one
is awaited, and the sink has got every frame when the call ends. -/
theorem counts_tell_demo :
    let t : Settings.Threading := { graphicsDepth := 1, stallLimit := 2 }
    let frames : List Frame := [{ index := 0 }, { index := 2 }, { index := 3 }]
    let start : Course (Watched Frame Demo.Picky) (Watched AudioPacket Silence) :=
      { handoff := .ofSettings t 4 ⟨{ bad := 1 }, []⟩ ⟨{}, []⟩, todo := frames.map .frame }
    ∃ c d, Relation.ReflTransGen Step start c ∧ c.handoff.pacing.stalls = 2 ∧
      c.handoff.pacing.fallback = true ∧
      Relation.ReflTransGen Step c d ∧ d.handoff.result? = some (.ok ()) ∧
      d.handoff.graphics.stage.sink.processed = frames ∧ d.handoff.pacing.submitted = 3 ∧
      d.handoff.pacing.completed = 3 := by
  intro t frames start
  -- The first frame finds room; the others wait until the thread takes the one before them.
  obtain ⟨h₁, hrun₁, hphase₁⟩ : ∃ h, (start.handoff.begin (.frame { index := 0 })).run
      [.producer false, .producer false] = some h ∧ h.phase = .free (.ok ()) := ⟨_, rfl, rfl⟩
  obtain ⟨h₂, hrun₂, hphase₂⟩ : ∃ h, (h₁.begin (.frame { index := 2 })).run
      [.producer false, .graphics, .producer true, .producer false] = some h ∧
        h.phase = .free (.ok ()) := by
    cases hrun₁
    exact ⟨_, rfl, rfl⟩
  obtain ⟨h₃, hrun₃, hstalls, hactive⟩ : ∃ h, (h₂.begin (.frame { index := 3 })).run
      [.producer false, .graphics, .graphics, .producer true] = some h ∧
        h.pacing.stalls = 2 ∧ h.pacing.fallback = true := by
    cases hrun₁
    cases hrun₂
    exact ⟨_, rfl, rfl, rfl⟩
  obtain ⟨h₄, hrun₄, hok⟩ : ∃ h, h₃.run
      [.producer false, .graphics, .graphics, .producer false, .graphics, .producer false,
        .producer false, .producer false] = some h ∧ h.result? = some (.ok ()) := by
    cases hrun₁
    cases hrun₂
    cases hrun₃
    exact ⟨_, rfl, rfl⟩
  let answers : List (Call × Except PacingError Unit) :=
    [(.frame { index := 0 }, .ok ()), (.frame { index := 2 }, .ok ())]
  have hanswered : Relation.ReflTransGen Step start
      { handoff := h₂, todo := [.frame { index := 3 }], answers } :=
    (reaches_call rfl rfl hrun₁ hphase₁).trans (reaches_call rfl rfl hrun₂ hphase₂)
  have hc : Relation.ReflTransGen Step start
      { handoff := h₃, todo := [], errand := .call (.frame { index := 3 }), answers } :=
    hanswered.trans (.head (.begin rfl rfl) (reaches_run hrun₃))
  have hd := reaches_run (c := ⟨h₃, [], .call (.frame { index := 3 }), answers⟩) hrun₄
  obtain ⟨-, -, hawaited, -⟩ := counts_tell t 4 ({ bad := 1 } : Demo.Picky) ({} : Silence)
    (frames.map .frame) (by decide) (by decide) _ hc
  exact ⟨_, _, hc, hstalls, hactive, hd, hok, hawaited _ _ rfl hactive hd rfl hok⟩

end Course

end RenderStream
