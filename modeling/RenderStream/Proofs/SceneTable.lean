import Mathlib.Data.List.Induction
import RenderStream.Quality.SceneTable

/-!
# What a table of overrides knows

A table that was made of a list of overrides answers for a scene as the last override for it says
(`get?_ofOverrides`), and no level it answers with is beyond the best (`resolve_le_top`).
-/

namespace RenderStream

/-- A scene that was not taken out of a list is found as before. -/
theorem lookup_filter_ne {α : Type} {scene added : String} (h : added ≠ scene)
    (entries : List (String × α)) :
    (entries.filter (·.1 != added)).lookup scene = entries.lookup scene := by
  induction entries with
  | nil => rfl
  | cons e rest ih =>
    obtain ⟨name, value⟩ := e
    by_cases hname : name = added
    · have hne : (scene == added) = false := by simp [Ne.symm h]
      subst hname
      simp [List.lookup_cons, ih, hne]
    · simp [hname, List.lookup_cons, ih]

namespace Levels

/-- Clamped levels are on their axes. -/
theorem clamped_get_le (l : Levels) (a : Axis) : l.clamped.get a ≤ a.top := by
  cases a with
  | particles => exact Nat.min_le_right _ _
  | shadows =>
    simp only [clamped, get, Axis.top]
    split <;> decide
  | fog =>
    simp only [clamped, get, Axis.top]
    split <;> decide
  | detail => exact Nat.min_le_right _ _

end Levels

namespace SceneTable

/-- A scene that is added forces its levels, and the others keep theirs. -/
theorem get?_insert (t : SceneTable) (added : String) (l : Levels) (scene : String) :
    (t.insert added l).get? scene = if added = scene then some l.clamped else t.get? scene := by
  by_cases h : added = scene
  · simp [insert, get?, h]
  · have hne : (scene == added) = false := by simp [Ne.symm h]
    rw [get?, insert, List.lookup_cons, hne, if_neg h]
    exact lookup_filter_ne h t.entries

/-- The last override for a scene is in force. -/
theorem get?_ofOverrides (os : List Settings.SceneOverride) (scene : String) :
    (ofOverrides os).get? scene =
      (os.reverse.find? (·.scene == scene)).map Settings.SceneOverride.levels := by
  induction os using List.reverseRecOn with
  | nil => rfl
  | append_singleton os o ih =>
    have hlast : ofOverrides (os ++ [o]) = (ofOverrides os).insert o.scene o.levels :=
      List.foldl_append
    have hclamped : o.levels.clamped = o.levels := Levels.clamped_clamped _
    rw [hlast, get?_insert, ih, List.reverse_concat, List.find?_cons]
    by_cases h : o.scene = scene
    · simp [h, hclamped]
    · simp [h, beq_eq_false_iff_ne.2 h]

/-- The table knows the scenes of the overrides it was made of. -/
theorem get?_ofOverrides_isSome (os : List Settings.SceneOverride) (scene : String) :
    ((ofOverrides os).get? scene).isSome ↔ ∃ o ∈ os, o.scene = scene := by
  simp [get?_ofOverrides, List.find?_isSome]

/-- A forced level is one of its axis. -/
theorem resolve_le_top {os : List Settings.SceneOverride} {scene : Option String} {forced : Levels}
    (h : (ofOverrides os).resolve scene = some forced) (a : Axis) : forced.get a ≤ a.top := by
  obtain ⟨name, -, hname⟩ := Option.bind_eq_some_iff.1 h
  rw [get?_ofOverrides] at hname
  obtain ⟨o, -, rfl⟩ := Option.map_eq_some_iff.1 hname
  exact Levels.clamped_get_le _ a

end SceneTable

end RenderStream
