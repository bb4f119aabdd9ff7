import RenderStream.Quality.Governor

/-!
# What reaches which axis

Overdraw is a signal of fog alone. Two governors that see the same frames, overdraw apart, keep the
same levels on the other axes (`Abreast`), and what culling reads of a profile is decided by these
levels (`Current`). The profile itself may differ, in its fog and in its generation.
-/

namespace RenderStream

/-- Samples that differ in the overdraw at most. -/
structure Sample.Abreast (s t : Sample) : Prop where
  entities : s.entities = t.entities
  particles : s.particles = t.particles
  time : s.time = t.time

namespace Governor

/-- Governors that differ at most in the fog and in what they remember. -/
structure Abreast (g h : Governor) : Prop where
  quality : g.quality = h.quality
  scenes : g.scenes = h.scenes
  axes : ∀ a, a ≠ .fog → g.axes.get a = h.axes.get a

/-- What culling reads of the profile is what the levels call for. -/
structure Current (g : Governor) : Prop where
  keepRatio : g.profile.keepRatio = Profile.keepRatioAt g.levels.particles
  cullDistance : g.profile.cullDistance = Profile.cullDistanceAt g.levels.detail

/-- The governor behind a frame, before the profile is brought up to the levels. -/
def moved (g : Governor) (s : Sample) (scene : Option String) : Governor :=
  { g with
    window := g.window.push s
    axes := g.stepAxes s (g.scenes.resolve scene)
    forcing := if (g.scenes.resolve scene).isSome then scene else none }

/-- What is observed moves the levels, and then the profile is that of the levels. -/
theorem observe_eq (g : Governor) (s : Sample) (scene : Option String) :
    g.observe s scene = (g.moved s scene).refresh g.levels := rfl

variable {g h : Governor} {s t : Sample}

/-! ## Levels -/

/-- The level of particles is that of its axis, up to the best one. -/
theorem levels_particles (g : Governor) :
    g.levels.particles = min (g.axes.get .particles).level Axis.particles.top := rfl

/-- The level of detail is that of its axis, up to the best one. -/
theorem levels_detail (g : Governor) :
    g.levels.detail = min (g.axes.get .detail).level Axis.detail.top := rfl

/-- At the start the profile is that of the levels. -/
theorem current_start (q : Settings.Quality) (os : List Settings.SceneOverride) :
    (ofSettings q os).Current := ⟨rfl, rfl⟩

/-- A profile that is brought up to the levels is current, and one that is left alone was so before.
-/
theorem Current.observe (hg : g.Current) (s : Sample) (scene : Option String) :
    (g.observe s scene).Current := by
  rw [observe_eq, refresh]
  split
  · next hlevels =>
    have hsame : (g.moved s scene).profile = g.profile := rfl
    refine ⟨?_, ?_⟩
    · rw [hlevels, hsame, hg.keepRatio]
    · rw [hlevels, hsame, hg.cullDistance]
  · exact ⟨rfl, rfl⟩

/-! ## Two governors -/

/-- The pressure on every axis but fog does not depend on the overdraw. -/
theorem pressure_eq (q : Settings.Quality) (hs : s.Abreast t) {a : Axis} (ha : a ≠ .fog) :
    pressure q s a = pressure q t a := by
  have hsignal : signal q s a = signal q t a := by
    cases a with
    | fog => exact absurd rfl ha
    | particles => rw [signal, signal, hs.particles]
    | shadows | detail => rw [signal, signal, hs.entities]
  rw [pressure, pressure, hs.time, hsignal]

/-- Governors abreast step alike on every axis but fog. -/
theorem Abreast.stepAxes (hg : g.Abreast h) (hs : s.Abreast t) (forced : Option Levels) {a : Axis}
    (ha : a ≠ .fog) : (g.stepAxes s forced).get a = (h.stepAxes t forced).get a := by
  cases forced with
  | none =>
    rw [Governor.stepAxes, Governor.stepAxes, PerAxis.get_map, PerAxis.get_map, hg.axes a ha,
      hg.quality, pressure_eq h.quality hs ha]
  | some forced =>
    rw [Governor.stepAxes, Governor.stepAxes, PerAxis.get_map, PerAxis.get_map, hg.axes a ha]

/-- Bringing the profile up to the levels changes nothing else that matters here. -/
theorem Abreast.refresh (hg : g.Abreast h) (l m : Levels) :
    (g.refresh l).Abreast (h.refresh m) := by
  rw [Governor.refresh, Governor.refresh]
  split <;> split <;> exact ⟨hg.quality, hg.scenes, hg.axes⟩

/-- What is observed abreast keeps governors abreast. -/
theorem Abreast.observe (hg : g.Abreast h) (hs : s.Abreast t) (scene : Option String) :
    (g.observe s scene).Abreast (h.observe t scene) := by
  have hmoved : (g.moved s scene).Abreast (h.moved t scene) := by
    refine ⟨hg.quality, hg.scenes, fun a ha => ?_⟩
    have hstep := hg.stepAxes hs (h.scenes.resolve scene) ha
    rw [← hg.scenes] at hstep
    rw [moved, moved, ← hg.scenes]
    exact hstep
  exact hmoved.refresh g.levels h.levels

/-- Current profiles of two such governors cull alike. -/
theorem Abreast.keepRatio_eq (hg : g.Abreast h) (hcurrent : g.Current) (hcurrent' : h.Current) :
    g.profile.keepRatio = h.profile.keepRatio := by
  rw [hcurrent.keepRatio, hcurrent'.keepRatio, levels_particles, levels_particles,
    hg.axes .particles (by decide)]

/-- Governors abreast cull at the same distance. -/
theorem Abreast.cullDistance_eq (hg : g.Abreast h) (hcurrent : g.Current) (hcurrent' : h.Current) :
    g.profile.cullDistance = h.profile.cullDistance := by
  rw [hcurrent.cullDistance, hcurrent'.cullDistance, levels_detail, levels_detail,
    hg.axes .detail (by decide)]

end Governor

end RenderStream
