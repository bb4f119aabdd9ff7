import RenderStream.Proofs.Adaptation
import RenderStream.Proofs.Ending
import RenderStream.Proofs.SceneTable

/-!
# Levels, profile and generation

The levels are the state of four ladders, and the profile is what was made of them when they last
changed. It is held by quality control, by culling and on display. `Pipeline.InForce` says that the
three copies are one and the same, and the one that belongs to the levels: a frame either leaves the
levels alone, and with them the profile, or it makes the next generation (`Governor.Stamped`), and
its end hands that on to all three at once (`InForce.feed`).
-/

namespace RenderStream

/-! ## One observation -/

namespace Governor

/-- The profile is what is made of the levels in the present generation. -/
def Stamped (g : Governor) : Prop := g.profile = .ofLevels g.levels g.generation

/-- At the start the profile is that of the levels. -/
theorem stamped_start (q : Settings.Quality) (os : List Settings.SceneOverride) :
    (ofSettings q os).Stamped := rfl

variable {g : Governor} (s : Sample) (scene : Option String)

/-- The levels are read off the ladders alone. -/
theorem refresh_levels (g : Governor) (l : Levels) : (g.refresh l).levels = g.levels := by
  rw [levels, levels, refresh_axes]

/-- Levels follow what is observed. -/
theorem observe_levels (g : Governor) : (g.observe s scene).levels = (g.moved s scene).levels := by
  rw [observe_eq, refresh_levels]

/-- What is observed leaves the forced levels of scenes. -/
theorem observe_scenes (g : Governor) : (g.observe s scene).scenes = g.scenes := by
  rw [observe_eq, refresh_scenes]
  rfl

/-- All that an observation does to the profile: nothing, if the levels stay, and the next
generation, if they do not. -/
theorem observe_profile (g : Governor) :
    ((g.observe s scene).levels = g.levels ∧ (g.observe s scene).profile = g.profile ∧
        (g.observe s scene).generation = g.generation) ∨
      ((g.observe s scene).levels ≠ g.levels ∧
        (g.observe s scene).profile =
          .ofLevels (g.observe s scene).levels (g.generation + 1) ∧
        (g.observe s scene).generation = g.generation + 1) := by
  rw [observe_levels, observe_eq, refresh]
  by_cases h : (g.moved s scene).levels = g.levels
  · rw [if_pos h]
    exact .inl ⟨h, rfl, rfl⟩
  · rw [if_neg h]
    exact .inr ⟨h, rfl, rfl⟩

/-- What is observed leaves the profile that of the levels. -/
theorem Stamped.observe (h : g.Stamped) : (g.observe s scene).Stamped := by
  rcases g.observe_profile s scene with
    ⟨hlevels, hprofile, hgeneration⟩ | ⟨-, hprofile, hgeneration⟩
  · rw [Stamped, hlevels, hprofile, hgeneration]
    exact h
  · rw [Stamped, hprofile, hgeneration]

/-- One generation more for levels that changed, however many of them did. -/
theorem observe_generation (g : Governor) :
    (g.observe s scene).generation =
      g.generation + if (g.observe s scene).levels = g.levels then 0 else 1 := by
  rcases g.observe_profile s scene with ⟨hlevels, -, hgeneration⟩ | ⟨hlevels, -, hgeneration⟩
  · rw [if_pos hlevels, hgeneration, Nat.add_zero]
  · rw [if_neg hlevels, hgeneration]

/-- Profiles of two generations are never the same one. -/
theorem Stamped.observe_profile_iff (h : g.Stamped) :
    (g.observe s scene).profile = g.profile ↔ (g.observe s scene).levels = g.levels := by
  rcases g.observe_profile s scene with ⟨hlevels, hprofile, -⟩ | ⟨hlevels, hprofile, -⟩
  · exact ⟨fun _ => hlevels, fun _ => hprofile⟩
  · refine ⟨fun hsame => ?_, fun hsame => absurd hsame hlevels⟩
    have hgeneration := congrArg Profile.generation ((hprofile.symm.trans hsame).trans h)
    exact absurd hgeneration (Nat.succ_ne_self _)

/-- A scene forces levels when it has some. -/
theorem observe_forcing (g : Governor) :
    (g.observe s scene).forcing = if (g.scenes.resolve scene).isSome then scene else none := by
  rw [observe_eq, refresh]
  split <;> rfl

/-- An override is in force when the scene has one. -/
theorem observe_forcing_iff (g : Governor) (forced : String) :
    (g.observe s scene).forcing = some forced ↔
      scene = some forced ∧ (g.scenes.get? forced).isSome := by
  rw [observe_forcing]
  cases scene with
  | none => simp [SceneTable.resolve]
  | some known =>
    rw [SceneTable.resolve, Option.bind_some]
    by_cases h : (g.scenes.get? known).isSome
    · rw [if_pos h]
      refine ⟨fun heq => ⟨heq, ?_⟩, fun ⟨heq, _⟩ => heq⟩
      rwa [← Option.some.inj heq]
    · rw [if_neg h]
      refine ⟨nofun, fun ⟨heq, hforced⟩ => absurd ?_ h⟩
      rwa [Option.some.inj heq]

end Governor

/-! ## One frame -/

namespace Pipeline

variable {η : Type}

/-- The profile that belongs to the levels is in force everywhere, and the levels are on display. -/
structure InForce (p : Pipeline η) : Prop where
  stamped : p.governor.Stamped
  culling : p.culling.profile = p.governor.profile
  display : p.display.profile = p.governor.profile
  levels : p.display.record.levels = p.governor.levels

/-- What a frame does to quality: it is observed, and what comes of it is put in force everywhere at
once. -/
structure Adapts (p q : Pipeline η) (a : Arrival) : Prop where
  governor : ∃ overdraw, q.governor = p.governor.observe (a.sample overdraw) a.frame.scene
  culling : q.culling.profile = q.governor.profile
  display : q.display.profile = q.governor.profile
  levels : q.display.record.levels = q.governor.levels

/-- The end of a frame that did not touch quality up to there. -/
theorem adapts_conclude {p q : Pipeline η} (a : Arrival) (presented : Bool)
    (hgovernor : q.governor = p.governor) :
    Adapts p (q.conclude a.frame presented a.time) a := by
  refine ⟨⟨q.meter.fill.overdraw, ?_⟩, rfl, rfl, rfl⟩
  rw [← hgovernor]
  rfl

/-- A pipeline that adapted puts the profile of its levels in force. -/
theorem Adapts.inForce {p q : Pipeline η} {a : Arrival} (h : Adapts p q a)
    (hstamped : p.governor.Stamped) : InForce q := by
  obtain ⟨overdraw, hgovernor⟩ := h.governor
  refine ⟨?_, h.culling, h.display, h.levels⟩
  rw [hgovernor]
  exact hstamped.observe _ _

variable [Host η] {p : Pipeline η}

/-- A frame adapts quality, unless it stops the pipeline; then it leaves quality alone. -/
theorem feed_adapts (p : Pipeline η) (a : Arrival) :
    ((p.feed a).failure = none ∧ Adapts p (p.feed a).state a) ∨
      ((p.feed a).failure ≠ none ∧ (p.feed a).state.governor = p.governor ∧
        (p.feed a).state.culling.profile = p.culling.profile ∧
        (p.feed a).state.display = p.display) := by
  have hgovernor : ∀ q : Pipeline η, q.standing = p.standing → q.governor = p.governor :=
    fun _ h => congrArg (fun x : Ledger × Profile => x.1.governor) h
  have hending := p.feed_ending a
  generalize p.feed a = r at hending ⊢
  cases hending with
  | presented q hstanding _ =>
    have hkept : q.keepFrame.governor = p.governor := hgovernor q hstanding
    exact .inl ⟨rfl, adapts_conclude a true hkept⟩
  | dropped q e hstanding _ _ =>
    have hdropped : q.dropFrame.governor = p.governor := hgovernor q hstanding
    exact .inl ⟨rfl, adapts_conclude a false hdropped⟩
  | fatal q e hstanding _ _ =>
    have hdisplay : q.display = p.display :=
      congrArg (fun x : Ledger × Profile => x.1.display) hstanding
    exact .inr ⟨nofun, hgovernor q hstanding, congrArg Prod.snd hstanding, hdisplay⟩

/-- Behind every frame the profile of the levels is in force. -/
theorem InForce.feed (h : InForce p) (a : Arrival) : InForce (p.feed a).state := by
  rcases p.feed_adapts a with ⟨-, hadapts⟩ | ⟨-, hgovernor, hprofile, hdisplay⟩
  · exact hadapts.inForce h.stamped
  · refine ⟨hgovernor ▸ h.stamped, ?_, ?_, ?_⟩
    · rw [hprofile, hgovernor]
      exact h.culling
    · rw [hdisplay, hgovernor]
      exact h.display
    · rw [hdisplay, hgovernor]
      exact h.levels

/-! ## Runs -/

/-- On how many frames of a sequence the levels change. -/
def changes (p : Pipeline η) : List Arrival → Nat
  | [] => 0
  | a :: as =>
    (if (p.feed a).state.governor.levels = p.governor.levels then 0 else 1) +
      (p.feed a).state.changes as

/-- At the start the profile of the levels is in force. -/
theorem inForce_start (s : Settings) (host : η) : InForce (ofSettings s host) :=
  ⟨Governor.stamped_start s.quality s.overrides, rfl, rfl, rfl⟩

/-- Behind every run the profile of the levels is in force. -/
theorem InForce.run (h : InForce p) (as : List Arrival) : InForce (p.run as) :=
  Attempt.foldl_keeps (P := fun _ q => InForce q) (fun a _ _ hq => hq.feed a) as p h

/-- A frame makes a new generation just when it changes the levels. -/
theorem feed_generation (p : Pipeline η) (a : Arrival) :
    (p.feed a).state.governor.generation = p.governor.generation +
      if (p.feed a).state.governor.levels = p.governor.levels then 0 else 1 := by
  rcases p.feed_adapts a with ⟨-, hadapts⟩ | ⟨-, hgovernor, -, -⟩
  · obtain ⟨overdraw, hgovernor⟩ := hadapts.governor
    rw [hgovernor]
    exact p.governor.observe_generation _ _
  · rw [hgovernor, if_pos rfl]
    rfl

/-- The generation counts the frames on which the levels changed. -/
theorem run_generation (as : List Arrival) : ∀ p : Pipeline η,
    (p.run as).governor.generation = p.governor.generation + p.changes as := by
  induction as with
  | nil => exact fun p => rfl
  | cons a as ih =>
    intro p
    have hrest : (p.run (a :: as)).governor.generation = _ := ih (p.feed a).state
    rw [hrest, feed_generation, changes, Nat.add_assoc]

/-- A frame leaves the forced levels of scenes. -/
theorem feed_scenes (p : Pipeline η) (a : Arrival) :
    (p.feed a).state.governor.scenes = p.governor.scenes := by
  rcases p.feed_adapts a with ⟨-, hadapts⟩ | ⟨-, hgovernor, -, -⟩
  · obtain ⟨overdraw, hgovernor⟩ := hadapts.governor
    rw [hgovernor, Governor.observe_scenes]
  · rw [hgovernor]

/-- The overrides stay those of the settings. -/
theorem run_scenes (as : List Arrival) (p : Pipeline η) :
    (p.run as).governor.scenes = p.governor.scenes :=
  Attempt.foldl_keeps (P := fun _ q => q.governor.scenes = p.governor.scenes)
    (fun a _ q hq => (q.feed_scenes a).trans hq) as p rfl

/-- The last frame of a run is fed behind those before it. -/
theorem run_concat (p : Pipeline η) (as : List Arrival) (a : Arrival) :
    p.run (as ++ [a]) = ((p.run as).feed a).state := List.foldl_append

/-- Behind every frame, whatever came before and whatever the host refused, quality control, culling
and the display have the same profile: the one that belongs to the levels, stamped with the number
of frames that changed them. The record shows these levels. The profile is still the one of the
frame before exactly when no level changed. An override is in force exactly when the scene of the
frame has one. -/
theorem profile_in_force (s : Settings) (host : η) (before : List Arrival) (a : Arrival) :
    let p := (ofSettings s host).run before
    let q := (p.feed a).state
    let profile := Profile.ofLevels q.governor.levels ((ofSettings s host).changes (before ++ [a]))
    q.governor.profile = profile ∧ q.culling.profile = profile ∧ q.display.profile = profile ∧
    q.display.record.levels = q.governor.levels ∧
    (q.governor.profile = p.governor.profile ↔ q.governor.levels = p.governor.levels) ∧
    ((p.feed a).failure = none → ∀ scene, q.governor.forcing = some scene ↔
      a.frame.scene = some scene ∧ ∃ o ∈ s.overrides, o.scene = scene) := by
  intro p q profile
  have hp : InForce p := (inForce_start s host).run before
  have hq : InForce q := hp.feed a
  have hgeneration := run_generation (before ++ [a]) (ofSettings s host)
  rw [run_concat] at hgeneration
  have hcount : q.governor.generation = (ofSettings s host).changes (before ++ [a]) :=
    hgeneration.trans (Nat.zero_add _)
  have hprofile : q.governor.profile = profile := by
    have hstamped : q.governor.profile = .ofLevels q.governor.levels q.governor.generation :=
      hq.stamped
    rw [hstamped, hcount]
  refine ⟨hprofile, hq.culling.trans hprofile, hq.display.trans hprofile, hq.levels, ?_, ?_⟩
  · rcases p.feed_adapts a with ⟨-, hadapts⟩ | ⟨-, hgovernor, -, -⟩
    · obtain ⟨overdraw, hgovernor⟩ := hadapts.governor
      change q.governor = _ at hgovernor
      rw [hgovernor]
      exact hp.stamped.observe_profile_iff _ _
    · change q.governor = _ at hgovernor
      rw [hgovernor]
      exact ⟨fun _ => rfl, fun _ => rfl⟩
  · intro hok scene
    rcases p.feed_adapts a with ⟨-, hadapts⟩ | ⟨hfatal, -⟩
    · obtain ⟨overdraw, hgovernor⟩ := hadapts.governor
      change q.governor = _ at hgovernor
      have hscenes : p.governor.scenes = .ofOverrides s.overrides :=
        run_scenes before (ofSettings s host)
      rw [hgovernor, Governor.observe_forcing_iff, hscenes, SceneTable.get?_ofOverrides_isSome]
    · exact absurd hok hfatal

end Pipeline

namespace Demo

/-- Settings that force a level in one scene. -/
def staged : Settings := { settings with overrides := [{ scene := "menu", particles := some 0 }] }

/-- The frame, in that scene. -/
def menu : Arrival := ⟨1, { frame .black with scene := some "menu" }⟩

end Demo

namespace Pipeline

set_option maxRecDepth 10000 in
/-- A frame under load that is dropped, then one in a scene with an override: both change levels. -/
theorem profile_in_force_demo :
    let start := ofSettings Demo.staged ({ script := Demo.refusing 2 } : Scripted)
    let p := start.run [Demo.arrival 1 .white]
    let q := (p.feed Demo.menu).state
    let changes := start.changes [Demo.arrival 1 .white, Demo.menu]
    changes = 2 ∧ q.culling.profile = .ofLevels q.governor.levels changes ∧
      q.governor.profile ≠ p.governor.profile ∧ q.governor.forcing = some "menu" :=
  have h := profile_in_force Demo.staged ({ script := Demo.refusing 2 } : Scripted)
    [Demo.arrival 1 .white] Demo.menu
  ⟨by decide +kernel, h.2.1, fun hsame => absurd (h.2.2.2.2.1.1 hsame) (by decide +kernel),
    (h.2.2.2.2.2 (by decide +kernel) "menu").2 ⟨rfl, _, List.mem_singleton_self _, rfl⟩⟩

end Pipeline

end RenderStream
