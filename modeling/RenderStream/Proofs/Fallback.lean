import RenderStream.Proofs.Handoff

/-!
# How long the fallback lasts

The fallback keeps two counters, and one frame may reset and advance both: its delivery speaks of
the queue, its wait of the stage. `Fallback.Turn` lists all that a frame can do to them. They are
counts of the last frames of the history (`Fallback.Reads`), which turns them into a rule on it:
`Fallback.active_follows` says on which frame the fallback begins and on which it ends, and speaks
of no counter.

A stall ends a run of calm frames, but the frame that stalled may be the first of the next run, the
frame on which the fallback began included. Without that exception the rule is false
(`Fallback.ends_before_smooth_run`).

A call that hands a frame over and returns well is one observation of the fallback
(`Handoff.fallback_of_call`).
-/

namespace RenderStream

namespace Fallback

/-! ## One frame -/

/-- The waits of a producer with one frame. -/
structure Waits where
  /-- The queue took it late. -/
  stalled : Bool
  /-- It was served late, if it was awaited. -/
  late : Bool

/-- What a frame can do to the fallback. -/
inductive Turn (limit : Nat) (f : Fallback) (w : Waits) : Fallback → Prop
  | flows (off : f.active = false) (smooth : w.stalled = false) :
    Turn limit f w { f with stalls := 0 }
  | strains (off : f.active = false) (stalled : w.stalled = true) (few : f.stalls + 1 < limit) :
    Turn limit f w { f with stalls := f.stalls + 1, calm := 0 }
  | begins (off : f.active = false) (stalled : w.stalled = true) (many : limit ≤ f.stalls + 1) :
    Turn limit f w
      { stalls := f.stalls + 1, active := true, calm := if w.late then 0 else 1 }
  | stumbles (on : f.active = true) (stalled : w.stalled = true) :
    Turn limit f w
      { stalls := f.stalls + 1, active := true, calm := if w.late then 0 else 1 }
  | lags (on : f.active = true) (smooth : w.stalled = false) (late : w.late = true) :
    Turn limit f w { stalls := 0, active := true, calm := 0 }
  | rests (on : f.active = true) (smooth : w.stalled = false) (timely : w.late = false)
    (few : f.calm + 1 < recovery) :
    Turn limit f w { stalls := 0, active := true, calm := f.calm + 1 }
  | ends (on : f.active = true) (smooth : w.stalled = false) (timely : w.late = false)
    (many : recovery ≤ f.calm + 1) : Turn limit f w {}

variable {limit : Nat} {f f' : Fallback} {w : Waits}

/-- The wait of a frame that stalled starts a run of calm frames, or leaves none. -/
theorem await_of_stalled (h : f.calm = 0) (late : Bool) :
    f.await late = { f with calm := if late then 0 else 1 } := by
  cases late <;> simp [await, recovery, h]

/-- A timely wait is a calm frame, and enough of them end the fallback. -/
theorem await_timely (f : Fallback) :
    f.await false =
      if recovery ≤ f.calm + 1 then {} else { f with calm := f.calm + 1 } := rfl

/-- Every frame is one of the turns. -/
theorem observe_turn (hlimit : 0 < limit) (f : Fallback) (w : Waits) :
    f.Turn limit w (f.observe limit w.stalled w.late) := by
  obtain ⟨stalls, active, calm⟩ := f
  obtain ⟨stalled, late⟩ := w
  cases active with
  | false =>
    cases stalled with
    | false =>
      have hf : observe limit false late ⟨stalls, false, calm⟩ = ⟨0, false, calm⟩ := by
        simp [observe, deliver, Nat.not_le.2 hlimit]
      exact hf ▸ .flows rfl rfl
    | true =>
      by_cases hmany : limit ≤ stalls + 1
      · have hf : observe limit true late ⟨stalls, false, calm⟩ =
            await late ⟨stalls + 1, true, 0⟩ := by
          simp [observe, deliver, hmany]
        exact (hf.trans (await_of_stalled rfl late)) ▸ .begins rfl rfl hmany
      · have hf : observe limit true late ⟨stalls, false, calm⟩ = ⟨stalls + 1, false, 0⟩ := by
          simp [observe, deliver, hmany]
        exact hf ▸ .strains rfl rfl (Nat.not_le.1 hmany)
  | true =>
    cases stalled with
    | true =>
      have hf : observe limit true late ⟨stalls, true, calm⟩ =
          await late ⟨stalls + 1, true, 0⟩ := by
        simp [observe, deliver]
      exact (hf.trans (await_of_stalled rfl late)) ▸ .stumbles rfl rfl
    | false =>
      have hf : observe limit false late ⟨stalls, true, calm⟩ = await late ⟨0, true, calm⟩ := by
        simp [observe, deliver]
      refine hf ▸ ?_
      cases late with
      | true => exact .lags rfl rfl rfl
      | false =>
        rw [await_timely]
        split
        · next hmany => exact .ends rfl rfl rfl hmany
        · next hfew => exact .rests rfl rfl rfl (Nat.not_le.1 hfew)

/-! ## Histories -/

/-- The fallback behind the first `n` frames of a sequence. -/
def behind (limit : Nat) (ws : Nat → Waits) : Nat → Fallback
  | 0 => {}
  | n + 1 => (behind limit ws n).observe limit (ws n).stalled (ws n).late

/-- Something held of the last `m` of the first `n` frames. -/
def Lately (p : Nat → Prop) (m n : Nat) : Prop := m ≤ n ∧ ∀ k < n, n ≤ k + m → p k

/-- The producer awaited a frame: the fallback was on before it or behind it. -/
def Awaited (active : Nat → Bool) (k : Nat) : Prop := active k = true ∨ active (k + 1) = true

/-- The last `m` of the first `n` frames were awaited and served in time, and none but the first of
them had stalled. -/
structure Calm (ws : Nat → Waits) (active : Nat → Bool) (m n : Nat) : Prop where
  timely : Lately (fun k => Awaited active k ∧ (ws k).late = false) m n
  smooth : Lately (fun k => (ws k).stalled = false) (m - 1) n

/-- When the fallback begins and ends: frame `n` of a history, without a word on counters. -/
structure Follows (limit : Nat) (ws : Nat → Waits) (active : Nat → Bool) (n : Nat) : Prop where
  /-- It begins on the frame that completes a run of stalls, all since it ended last. -/
  begins : active n = false → (active (n + 1) = true ↔
    Lately (fun k => active k = false ∧ (ws k).stalled = true) limit (n + 1))
  ends : active n = true → (active (n + 1) = false ↔ Calm ws active recovery (n + 1))

section
variable {p : Nat → Prop} {ws : Nat → Waits} {active : Nat → Bool} {c m n : Nat}

/-- Of the last no frames everything holds. -/
theorem lately_zero (p : Nat → Prop) (n : Nat) : Lately p 0 n :=
  ⟨Nat.zero_le n, fun _ hk hn => absurd hk (Nat.not_lt.2 hn)⟩

/-- Of one frame more it holds when it holds of the last one and of those before it. -/
theorem lately_succ_iff : Lately p (m + 1) (n + 1) ↔ Lately p m n ∧ p n := by
  constructor
  · rintro ⟨hm, h⟩
    refine ⟨⟨Nat.le_of_succ_le_succ hm, fun k hk hn => ?_⟩, h n (Nat.lt_succ_self n) (by omega)⟩
    exact h k (Nat.lt_succ_of_lt hk) (by omega)
  · rintro ⟨⟨hm, h⟩, hp⟩
    refine ⟨Nat.succ_le_succ hm, fun k hk hn => ?_⟩
    rcases Nat.lt_succ_iff_lt_or_eq.1 hk with hk | rfl
    · exact h k hk (by omega)
    · exact hp

/-- A run that is not gone on with starts anew. -/
theorem lately_iff_of_not (hp : ¬p n) (m : Nat) : Lately p m (n + 1) ↔ m ≤ 0 := by
  cases m with
  | zero => simp [lately_zero]
  | succ m => simp [lately_succ_iff, hp]

/-- A run that is gone on with is longer by one. -/
theorem lately_iff_of (hp : p n) (h : ∀ m, Lately p m n ↔ m ≤ c) (m : Nat) :
    Lately p m (n + 1) ↔ m ≤ c + 1 := by
  cases m with
  | zero => simp [lately_zero]
  | succ m => simp [lately_succ_iff, hp, h]

/-- The last no frames were calm. -/
theorem calm_zero (ws : Nat → Waits) (active : Nat → Bool) (n : Nat) : Calm ws active 0 n :=
  ⟨lately_zero _ n, lately_zero _ n⟩

/-- A frame that stalled can only be the first of a calm run. -/
theorem calm_succ_iff_of_stalled (hstalled : (ws n).stalled = true) :
    Calm ws active (m + 1) (n + 1) ↔ m = 0 ∧ Awaited active n ∧ (ws n).late = false := by
  constructor
  · rintro ⟨htimely, hsmooth⟩
    refine ⟨?_, (lately_succ_iff.1 htimely).2⟩
    cases m with
    | zero => rfl
    | succ m =>
      have hn := (lately_succ_iff.1 hsmooth).2
      rw [hstalled] at hn
      cases hn
  · rintro ⟨rfl, hn⟩
    exact ⟨lately_succ_iff.2 ⟨lately_zero _ n, hn⟩, lately_zero _ _⟩

/-- Behind a frame that did not stall one frame more is calm when it was awaited and in time. -/
theorem calm_succ_iff_of_smooth (hsmooth : (ws n).stalled = false) :
    Calm ws active (m + 1) (n + 1) ↔
      Calm ws active m n ∧ Awaited active n ∧ (ws n).late = false := by
  constructor
  · rintro ⟨htimely, hrun⟩
    obtain ⟨hbefore, hn⟩ := lately_succ_iff.1 htimely
    refine ⟨⟨hbefore, ?_⟩, hn⟩
    cases m with
    | zero => exact lately_zero _ n
    | succ m => exact (lately_succ_iff.1 hrun).1
  · rintro ⟨⟨hbefore, hrun⟩, hn⟩
    refine ⟨lately_succ_iff.2 ⟨hbefore, hn⟩, ?_⟩
    cases m with
    | zero => exact lately_zero _ _
    | succ m => exact lately_succ_iff.2 ⟨hrun, hsmooth⟩

/-- What the counters say of a history: each counts the last frames of its kind, the stalls as long
as the fallback is off and the calm frames while it is on. -/
structure Reads (ws : Nat → Waits) (active : Nat → Bool) (n : Nat) (f : Fallback) : Prop where
  active_eq : active n = f.active
  stalls_iff : f.active = false →
    ∀ m, Lately (fun k => active k = false ∧ (ws k).stalled = true) m n ↔ m ≤ f.stalls
  calm_iff : f.active = true → ∀ m, Calm ws active m n ↔ m ≤ f.calm

variable {limit : Nat} {f f' : Fallback}

/-- Before the first frame the fallback reads nothing off. -/
theorem Reads.start (hactive : active 0 = false) : Reads ws active 0 {} := by
  refine ⟨hactive, fun _ m => ⟨fun h => h.1, fun h => ?_⟩, nofun⟩
  obtain rfl := Nat.le_zero.1 h
  exact lately_zero _ 0

/-- The run that a frame which stalled begins: the frame itself, if it was served in time. -/
theorem calm_iff_of_stalled (hstalled : (ws n).stalled = true) (hawaited : Awaited active n)
    (m : Nat) : Calm ws active m (n + 1) ↔ m ≤ if (ws n).late then 0 else 1 := by
  cases m with
  | zero => simp [calm_zero]
  | succ m =>
    cases hlate : (ws n).late <;> simp [calm_succ_iff_of_stalled hstalled, hawaited, hlate]

/-- Every turn keeps the counters right. -/
theorem Reads.turn (h : Reads ws active n f) (hturn : f.Turn limit (ws n) f')
    (hactive : active (n + 1) = f'.active) : Reads ws active (n + 1) f' := by
  obtain ⟨hbefore, hstalls, hcalm⟩ := h
  cases hturn with
  | flows off smooth =>
    exact ⟨hactive, fun _ => lately_iff_of_not (by simp [smooth]),
      fun on => absurd (off.symm.trans on) nofun⟩
  | strains off stalled =>
    exact ⟨hactive, fun _ => lately_iff_of ⟨hbefore.trans off, stalled⟩ (hstalls off),
      fun on => absurd (off.symm.trans on) nofun⟩
  | begins off stalled =>
    exact ⟨hactive, nofun, fun _ => calm_iff_of_stalled stalled (.inr hactive)⟩
  | stumbles on stalled =>
    exact ⟨hactive, nofun, fun _ => calm_iff_of_stalled stalled (.inr hactive)⟩
  | lags on smooth late =>
    refine ⟨hactive, nofun, fun _ m => ?_⟩
    cases m with
    | zero => simp [calm_zero]
    | succ m => simp [calm_succ_iff_of_smooth smooth, late]
  | rests on smooth timely =>
    refine ⟨hactive, nofun, fun _ m => ?_⟩
    have hawaited : Awaited active n := .inr hactive
    cases m with
    | zero => simp [calm_zero]
    | succ m => simp [calm_succ_iff_of_smooth smooth, hawaited, timely, hcalm on]
  | ends on => exact ⟨hactive, fun _ => lately_iff_of_not (by simp [hbefore, on]), nofun⟩

/-- Right counters make the fallback begin and end by the rule. -/
theorem Reads.follows (h : Reads ws active n f) (hlimit : 0 < limit)
    (hturn : f.Turn limit (ws n) f') (hactive : active (n + 1) = f'.active) :
    Follows limit ws active n := by
  obtain ⟨hbefore, hstalls, hcalm⟩ := h
  obtain ⟨l, rfl⟩ : ∃ l, limit = l + 1 := ⟨limit - 1, by omega⟩
  refine ⟨fun hoff => ?_, fun hon => ?_⟩
  · have off := hbefore.symm.trans hoff
    rw [lately_succ_iff, hstalls off, hactive]
    cases hturn with
    | flows _ smooth => simp [off, smooth]
    | strains _ stalled few => exact iff_of_false (by simp [off]) fun h => by omega
    | begins _ stalled many => simp [hoff, stalled]; omega
    | stumbles on | lags on | rests on | ends on => exact absurd (off.symm.trans on) nofun
  · have on := hbefore.symm.trans hon
    have hawaited : Awaited active n := .inl hon
    rw [hactive, show recovery = 119 + 1 from rfl]
    cases hturn with
    | flows off | strains off | begins off => exact absurd (off.symm.trans on) nofun
    | stumbles _ stalled => simp [calm_succ_iff_of_stalled stalled]
    | lags _ smooth late => simp [calm_succ_iff_of_smooth smooth, late]
    | rests _ smooth timely few =>
      rw [calm_succ_iff_of_smooth smooth, hcalm on]
      simp only [recovery] at few
      simp only [reduceCtorEq, false_iff]
      omega
    | ends _ smooth timely many =>
      rw [calm_succ_iff_of_smooth smooth, hcalm on]
      simp only [recovery] at many
      exact iff_of_true rfl ⟨by omega, hawaited, timely⟩

end

/-- Behind every sequence of waits the fallback is read off the waits. -/
theorem behind_reads {limit : Nat} (hlimit : 0 < limit) (ws : Nat → Waits) (n : Nat) :
    Reads ws (fun k => (behind limit ws k).active) n (behind limit ws n) := by
  induction n with
  | zero => exact .start rfl
  | succ n ih => exact ih.turn (observe_turn hlimit _ (ws n)) rfl

/-! ## The rule -/

namespace Demo

/-- A stall on the first frame, and no wait that is too long after it. -/
def hiccup : Nat → Waits := fun n => { stalled := n == 0, late := false }

/-- Behind the hiccup every frame is awaited until enough were calm. -/
theorem hiccup_awaited {k : Nat} (hk : k < recovery) :
    Awaited (fun k => (behind 1 hiccup k).active) k := by
  have hall : ∀ k < recovery, (behind 1 hiccup k).active = true ∨
      (behind 1 hiccup (k + 1)).active = true := by decide
  exact hall k hk

end Demo

variable {limit : Nat} (ws : Nat → Waits) (n : Nat)

/-- The exact rule for the fallback, on every history of waits: it begins on the frame that
completes a run of stalls, and ends on the frame that completes a run of calm ones. -/
theorem active_follows (hlimit : 0 < limit) :
    (behind limit ws 0).active = false ∧
      Follows limit ws (fun k => (behind limit ws k).active) n :=
  ⟨rfl, (behind_reads hlimit ws n).follows hlimit (observe_turn hlimit _ (ws n)) rfl⟩

/-- The fallback that begins on the first frame ends on the last of as many frames as end it, that
first one counted. -/
theorem active_follows_demo :
    0 < 1 ∧ (behind 1 Demo.hiccup 0).active = false ∧ (behind 1 Demo.hiccup 119).active = true ∧
      (behind 1 Demo.hiccup 120).active = false := by
  have hon : (behind 1 Demo.hiccup 119).active = true := by decide +kernel
  obtain ⟨hstart, hrule⟩ := active_follows Demo.hiccup 119 (Nat.one_pos)
  refine ⟨Nat.one_pos, hstart, hon, (hrule.ends hon).2 ⟨?_, ?_⟩⟩
  · exact ⟨Nat.le_refl _, fun k hk _ => ⟨Demo.hiccup_awaited hk, rfl⟩⟩
  · refine ⟨by decide, fun k _ hk => ?_⟩
    have hpos : k ≠ 0 := by
      simp only [recovery] at hk
      omega
    simp [Demo.hiccup, hpos]

/-- A run of frames without a single stall is not what ends the fallback. -/
theorem ends_before_smooth_run :
    ¬∀ (limit : Nat) (ws : Nat → Waits) (n : Nat), 0 < limit → (behind limit ws n).active = true →
      ((behind limit ws (n + 1)).active = false ↔
        Lately (fun k => Awaited (fun k => (behind limit ws k).active) k ∧
          (ws k).stalled = false ∧ (ws k).late = false) recovery (n + 1)) := by
  intro h
  have hend := (h 1 Demo.hiccup 119 Nat.one_pos (by decide +kernel)).1 (by decide +kernel)
  have hfirst := (hend.2 0 (by decide) (by decide)).2.1
  exact absurd hfirst (by decide)

end Fallback

/-! ## A call with a frame -/

namespace Handoff

variable {γ α : Type} {h h' : Handoff γ α} {limit : Nat} {f : Fallback}

/-- The moments of a call with a frame, as the fallback goes through them. -/
inductive Midway (limit : Nat) (f : Fallback) : Phase → Fallback → Prop where
  | offers {frame : Frame} {waited : Bool} : Midway limit f (.pushing frame waited) f
  | awaits {stalled : Bool} (on : (f.deliver limit stalled).active = true) :
    Midway limit f .awaiting (f.deliver limit stalled)
  | settles {w : Fallback.Waits} : Midway limit f .settling (f.observe limit w.stalled w.late)
  | handed {w : Fallback.Waits} :
    Midway limit f (.free (.ok ())) (f.observe limit w.stalled w.late)
  | refused {cause : PacingError} {g : Fallback} : Midway limit f (.free (.error cause)) g

/-- A delivery, with the wait that may follow it. -/
theorem midway_pushed (hlimit : h.stallLimit = limit) (d : Delivery) :
    Midway limit h.fallback (h.pushed d).phase (h.pushed d).fallback := by
  have hfallback : (h.pushed d).fallback = h.fallback.deliver limit d.isStall := by
    rw [← hlimit]
    rfl
  have hphase : (h.pushed d).phase =
      if (h.fallback.deliver limit d.isStall).active then .awaiting else .settling := by
    rw [← hlimit]
    rfl
  rw [hfallback, hphase]
  cases hon : (h.fallback.deliver limit d.isStall).active with
  | true => exact .awaits hon
  | false =>
    have hobserve : h.fallback.deliver limit d.isStall =
        h.fallback.observe limit d.isStall false := by
      simp [Fallback.observe, hon]
    rw [hobserve]
    exact .settles (w := ⟨d.isStall, false⟩)

/-- An act of the producer goes on with the frame in the way of the fallback. -/
theorem Midway.act (hm : Midway limit f h.phase h.fallback) (hlimit : h.stallLimit = limit)
    (hact : h.Act h') : Midway limit f h'.phase h'.fallback ∧ h'.stallLimit = limit := by
  cases hact with
  | frameRefused | abandoned | packetRefused => exact ⟨.refused, hlimit⟩
  | waits phase =>
    rw [phase] at hm
    cases hm
    exact ⟨.offers, hlimit⟩
  | @pushes _ _ lane queue delivery phase =>
    rw [phase] at hm
    generalize hf : h.fallback = fallback at hm
    cases hm
    subst hf
    exact ⟨midway_pushed (h := { h with graphics := .queued { lane with queue } }) hlimit delivery,
      hlimit⟩
  | hears => exact ⟨hm, hlimit⟩
  | awaited late phase =>
    rw [phase] at hm
    generalize hf : h.fallback = fallback at hm
    cases hm with
    | @awaits stalled on =>
      have hobserve : (f.deliver limit stalled).await late = f.observe limit stalled late := by
        simp [Fallback.observe, on]
      refine ⟨?_, hlimit⟩
      dsimp only
      rw [hobserve]
      exact .settles (w := ⟨stalled, late⟩)
  | settles phase =>
    rw [phase] at hm
    refine ⟨?_, hlimit⟩
    change Midway limit f (.free (.ok ())) h.fallback
    generalize h.fallback = fallback at hm
    cases hm
    exact .handed
  | mixes phase =>
    rw [phase] at hm
    cases hm

variable [Sink Frame γ] [Sink AudioPacket α]

/-- A run of the handoff within a frame goes on with it in the way of the fallback. -/
theorem Midway.run {schedule : List Turn} (hm : Midway limit f h.phase h.fallback)
    (hlimit : h.stallLimit = limit) (hrun : h.run schedule = some h') :
    Midway limit f h'.phase h'.fallback := by
  induction schedule generalizing h with
  | nil =>
    obtain rfl : h = h' := Option.some.inj hrun
    exact hm
  | cons t rest ih =>
    obtain ⟨h₁, hturn, hrest⟩ := Option.bind_eq_some_iff.1 ((List.foldlM_cons ..).symm.trans hrun)
    have hnext : Midway limit f h₁.phase h₁.fallback ∧ h₁.stallLimit = limit := by
      cases t with
      | producer late => exact hm.act hlimit (act_cases hturn)
      | graphics | audio =>
        -- The threads leave the call where it is.
        obtain ⟨o, -, rfl⟩ := Option.map_eq_some_iff.1 hturn
        exact ⟨hm, hlimit⟩
    exact ih hnext.1 hnext.2 hrest

/-- A call that hands a frame over to a thread and returns well is one observation of the fallback,
whatever the threads do meanwhile. -/
theorem fallback_of_call (hthread : h.graphics.isQueued = true) {frame : Frame}
    {schedule : List Turn} (hrun : (h.beginFrame frame).run schedule = some h')
    (hresult : h'.result? = some (.ok ())) :
    ∃ w : Fallback.Waits, h'.fallback = h.fallback.observe h.stallLimit w.stalled w.late := by
  obtain ⟨workers, hcall, -⟩ := beginFrame_eq h frame
  obtain ⟨lane, hlane⟩ : ∃ lane, h.graphics = .queued lane := by
    cases hg : h.graphics with
    | direct => rw [hg] at hthread; cases hthread
    | queued lane => exact ⟨lane, rfl⟩
  rw [hcall, handFrame_queued (h := { h with workers }) hlane] at hrun
  have hm := Midway.run (f := h.fallback) .offers rfl hrun
  have hphase : h'.phase = .free (.ok ()) := by
    rw [result?] at hresult
    split at hresult
    · next r hr => rw [hr, Option.some.inj hresult]
    · cases hresult
  rw [hphase] at hm
  generalize hf : h'.fallback = fallback at hm
  cases hm with
  | @handed w => exact ⟨w, rfl⟩

end Handoff

end RenderStream
