import RenderStream.Proofs.Handoff

/-!
# No wait and no walk without an end

On a call somebody can always move: a producer in front of a full queue waits for a thread that has
items to take, and one that awaits its frames waits for a thread that has not served them yet
(`Handoff.Stands.exists_turn`). And no call takes more than a bounded number of moves, since each of
them lessens what is left to do (`Handoff.Stands.work_turn`): a frame that gets into the queue costs
three moves in addition, to take it, to serve it and to hear of it, which the producer pays for when
it begins to offer the frame.
-/

namespace RenderStream

namespace Handoff

variable {γ α : Type} {h h' : Handoff γ α} [Sink Frame γ] [Sink AudioPacket α] {e : Errand}
  {ahead : Bool} {y : Stage γ} {z : Stage α}

/-! ## No thread waits for ever -/

/-- When the graphics stage can act, there is a turn. -/
theorem turn_graphics {lane lane' : Lane Frame γ} (hg : h.graphics = .queued lane)
    (hact : lane.act = some lane') : ∃ t h', h.turn t = some h' :=
  ⟨.graphics, _, by rw [turn, hg, Outlet.act, hact]; rfl⟩

/-- When the audio stage can act, there is a turn. -/
theorem turn_audio {lane lane' : Lane AudioPacket α} (ha : h.audio = .queued lane)
    (hact : lane.act = some lane') : ∃ t h', h.turn t = some h' :=
  ⟨.audio, _, by rw [turn, ha, Outlet.act, hact]; rfl⟩

/-- When the producer can act, there is a turn. -/
theorem turn_producer (hact : (h.act false).isSome = true) : ∃ t h', h.turn t = some h' :=
  ⟨.producer false, (h.act false).get hact, (Option.some_get hact).symm⟩

/-- A stage on its own thread has a lane. -/
theorem exists_queued {ι σ : Type} {o : Outlet ι σ} (h : o.isQueued = true) :
    ∃ lane, o = .queued lane := by
  cases o with
  | direct => exact absurd h nofun
  | queued lane => exact ⟨lane, rfl⟩

omit [Sink AudioPacket α] in
/-- A stage that has not served everything yet and has not ended has something to do. -/
theorem Counted.exists_act {c : Completions} {l : Lane Frame γ} (hc : Counted c l)
    (here : l.isGone = false) (hleft : l.stage.served < c.submitted) :
    ∃ l', l.act = some l' := by
  refine Lane.exists_act here ?_
  cases hup : l.stage.isUp with
  | false => exact .inr (.inl rfl)
  | true =>
    cases hhand : l.hand with
    | some item => exact .inl rfl
    | none =>
      refine .inr (.inr (.inl fun hitems => ?_))
      have hall := hc.all hup
      rw [Lane.pending, hhand, hitems] at hall
      exact Nat.ne_of_lt hleft hall

/-- On a call one of the threads can move: the producer, or the thread that it waits for. -/
theorem Stands.exists_turn (hs : h.Stands ahead y z e) (hfree : ∀ r, h.phase ≠ .free r) :
    ∃ t h', h.turn t = some h' := by
  cases hphase : h.phase with
  | free r => exact absurd hphase (hfree r)
  | pushing frame waited =>
    obtain ⟨lane, hg⟩ := exists_queued (hs.graphicsThread (hphase ▸ rfl))
    cases hoffer : lane.queue.offer frame with
    | mk queue offer =>
      cases offer with
      | refused | taken => exact turn_producer (by simp [Handoff.act, hphase, hg, hoffer])
      | full =>
        obtain ⟨lane', hlane⟩ := Lane.exists_act_of_full hoffer
        exact turn_graphics hg hlane
  | awaiting =>
    obtain ⟨lane, hg⟩ := exists_queued (hs.graphicsThread (hphase ▸ rfl))
    by_cases hleft : h.completions.completed < h.completions.submitted
    · cases hchannel : h.completions.channel with
      | cons done rest => exact turn_producer (by simp [Handoff.act, hphase, hg, hleft, hchannel])
      | nil =>
        cases hgone : lane.isGone with
        | true => exact turn_producer (by simp [Handoff.act, hphase, hg, hleft, hchannel, hgone])
        | false =>
          -- The producer has heard of all that was served, and that is not all yet.
          have hcounted := hs.counted lane hg
          rw [hcounted.tells.eq_of_nil hchannel] at hleft
          obtain ⟨lane', hlane⟩ := hcounted.exists_act hgone hleft
          exact turn_graphics hg hlane
    · exact turn_producer (by simp [Handoff.act, hphase, hg, hleft])
  | settling =>
    obtain ⟨lane, hg⟩ := exists_queued (hs.graphicsThread (hphase ▸ rfl))
    refine turn_producer ?_
    cases hchannel : h.completions.channel <;> simp [Handoff.act, hphase, hg, hchannel]
  | mixing packet =>
    obtain ⟨lane, ha⟩ := exists_queued (hs.audioThread (hphase ▸ rfl))
    cases hoffer : lane.queue.offer packet with
    | mk queue offer =>
      cases offer with
      | refused | taken => exact turn_producer (by simp [Handoff.act, hphase, ha, hoffer])
      | full =>
        obtain ⟨lane', hlane⟩ := Lane.exists_act_of_full hoffer
        exact turn_audio ha hlane

/-! ## No thread moves for ever -/

/-- Moves that the producer has left on its call at most, and what a frame that gets into the queue
costs in addition. -/
def weight : Phase → Nat
  | .free _ => 0
  | .settling => 1
  | .awaiting => 2
  | .mixing _ => 3
  | .pushing _ true => 6
  | .pushing _ false => 7

/-- Moves that all threads have left at most until the next call. -/
def work (h : Handoff γ α) : Nat :=
  weight h.phase + h.graphics.work + h.audio.work +
    (h.completions.submitted - h.completions.completed)

/-- A producer that is pushing has some moves before it. -/
theorem le_weight_pushing {phase : Phase} {frame : Frame} {waited : Bool}
    (h : phase = .pushing frame waited) : 6 ≤ weight phase := by
  cases waited <;> simp [h, weight]

omit [Sink Frame γ] [Sink AudioPacket α] in
/-- Behind a push the producer has few moves before it. -/
theorem weight_pushed (h : Handoff γ α) (d : Delivery) : weight (h.pushed d).phase ≤ 2 := by
  rcases pushed_phase h d with hphase | hphase <;> rw [hphase] <;> decide

omit [Sink Frame γ] [Sink AudioPacket α] in
/-- An item that is taken is work for the stage. -/
theorem work_taken {ι σ : Type} {l : Lane ι σ} {item : ι} {queue : Queue ι}
    (h : l.queue.offer item = (queue, .taken)) :
    ({ l with queue } : Lane ι σ).work = l.work + 2 := by
  obtain ⟨-, -, rfl⟩ := Queue.offer_eq_taken h
  simp only [Lane.work, List.length_append, List.length_singleton]
  omega

omit [Sink Frame γ] [Sink AudioPacket α] in
/-- A count that is heard is one of those that the producer waits for. -/
theorem Counted.work_hear {h : Handoff γ α} {l : Lane Frame γ} {done : Nat} {rest : List Nat}
    (hc : Counted h.completions l) (channel : h.completions.channel = done :: rest) :
    done = h.completions.completed + 1 ∧ done ≤ h.completions.submitted := by
  obtain ⟨hdone, hle, -⟩ := hc.tells.eq_of_channel channel
  have hgiven := hc.given
  exact ⟨hdone, by omega⟩

/-- Every move of the producer lessens what is left to do. -/
theorem Stands.work_act (hs : h.Stands ahead y z e) (hact : h.Act h') : h'.work < h.work := by
  cases hact with
  | frameRefused phase =>
    have hweight := le_weight_pushing phase
    rw [work, give]
    change 0 + h.graphics.work + h.audio.work + _ < weight h.phase + _ + _ + _
    dsimp only
    omega
  | waits phase graphics =>
    simp only [work, weight, phase]
    omega
  | @pushes frame waited lane queue delivery phase graphics taken =>
    have hweight := le_weight_pushing phase
    have hpushed := weight_pushed { h with graphics := .queued { lane with queue } } delivery
    have hgraphics : Outlet.work (.queued { lane with queue }) = h.graphics.work + 2 := by
      rw [graphics]
      exact work_taken taken
    rw [work, work]
    change _ + Outlet.work (.queued { lane with queue }) + h.audio.work +
      (h.completions.submitted + 1 - h.completions.completed) < _
    omega
  | @hears lane done rest phase graphics channel =>
    obtain ⟨hdone, hle⟩ := (hs.counted lane graphics).work_hear channel
    rw [work, work]
    change weight h.phase + h.graphics.work + h.audio.work + (h.completions.submitted - done) < _
    omega
  | abandoned phase graphics gone =>
    simp only [work, give, weight, phase]
    omega
  | awaited late phase graphics =>
    simp only [work, weight, phase]
    omega
  | settles phase graphics =>
    simp only [work, give, weight, phase]
    omega
  | packetRefused phase audio gone =>
    simp only [work, give, weight, phase]
    omega
  | mixes phase audio taken =>
    simp only [work, give, weight, phase, PacingCounts.audio, audio, Outlet.work, work_taken taken]
    omega

/-- Every move of a thread lessens what is left to do. -/
theorem Stands.work_turn (hs : h.Stands ahead y z e) {t : Turn} (hturn : h.turn t = some h') :
    h'.work < h.work := by
  cases t with
  | producer late => exact hs.work_act (act_cases hturn)
  | graphics =>
    obtain ⟨o, ho, rfl⟩ := Option.map_eq_some_iff.1 hturn
    have := Outlet.work_act ho
    simp only [work, Completions.send]
    omega
  | audio =>
    obtain ⟨o, ho, rfl⟩ := Option.map_eq_some_iff.1 hturn
    have := Outlet.work_act ho
    simp only [work]
    omega

omit [Sink AudioPacket α] in
/-- Handing a frame in makes a bounded amount of work. -/
theorem work_handFrame (h : Handoff γ α) (f : Frame) : (h.handFrame f).work ≤ h.work + 7 := by
  cases hg : h.graphics with
  | queued lane =>
    rw [handFrame_queued hg]
    simp only [work, weight]
    omega
  | direct stage =>
    obtain ⟨counts, result, hcall, -⟩ := handFrame_direct hg f
    rw [hcall]
    simp only [work, give, weight, hg, Outlet.work]
    omega

omit [Sink Frame γ] in
/-- Handing a packet in makes a bounded amount of work. -/
theorem work_beginAudio (h : Handoff γ α) (p : AudioPacket) :
    (h.beginAudio p).work ≤ h.work + 7 := by
  cases ha : h.audio with
  | queued lane =>
    rw [beginAudio_queued ha]
    simp only [work, weight]
    omega
  | direct stage =>
    rw [beginAudio_direct ha]
    simp only [work, give, weight, PacingCounts.audio, Outlet.work]
    omega

/-- A call adds a bounded number of moves. -/
theorem work_begin (h : Handoff γ α) (call : Call) : (h.begin call).work ≤ h.work + 7 := by
  cases call with
  | frame f =>
    obtain ⟨workers, hcall, -⟩ := beginFrame_eq h f
    rw [begin, hcall]
    exact work_handFrame { h with workers } _
  | audio p => exact work_beginAudio h p

end Handoff

end RenderStream
