import RenderStream.Proofs.SceneTable

/-!
# Two ways to look up forced levels

Settings answer for a scene as the first override that names it says, and the table that governs
quality as the last one does (`forced?_eq`, `resolve_ofOverrides`). Repair changes no levels that an
override forces (`SceneOverride.levels_repaired`), so it makes no difference to either of them. What
is left is a matter of the first and the last override for the scene alone.
-/

namespace RenderStream

namespace Settings

/-- Repair does what reading the levels does anyway. -/
theorem SceneOverride.levels_repaired (o : SceneOverride) : o.repaired.levels = o.levels := by
  have hmin (level : Option UInt8) (top : UInt8) :
      min (((level.map (min · top)).map UInt8.toNat).getD top.toNat) top.toNat =
        min ((level.map UInt8.toNat).getD top.toNat) top.toNat := by
    cases level with
    | none => rfl
    | some n =>
      simp only [Option.map_some, Option.getD_some, UInt8.min_def, UInt8.le_iff_toNat_le]
      split <;> omega
  have hparticles := hmin o.particles 3
  have hdetail := hmin o.detail 2
  simp only [levels, repaired, Levels.clamped, Levels.mk.injEq]
  exact ⟨hparticles, trivial, trivial, hdetail⟩

/-- The overrides for a scene, in their order. -/
def naming (s : Settings) (scene : String) : List SceneOverride :=
  s.overrides.filter (·.scene == scene)

/-- The levels forced by settings are those of the first override that names the scene. -/
theorem forced?_eq (s : Settings) (scene : String) :
    s.forced? scene = (s.naming scene).head?.map SceneOverride.levels := by
  rw [forced?, naming, List.head?_filter]

/-- The levels forced by a table are those of the last override that names the scene. -/
theorem resolve_ofOverrides (s : Settings) (scene : String) :
    (SceneTable.ofOverrides s.overrides).resolve (some scene) =
      (s.naming scene).getLast?.map SceneOverride.levels := by
  rw [SceneTable.resolve, Option.bind_some, SceneTable.get?_ofOverrides, naming,
    List.getLast?_eq_head?_reverse, ← List.filter_reverse, List.head?_filter]

/-- Repair names the same scenes. -/
theorem naming_repaired (s : Settings) (scene : String) :
    s.repaired.naming scene = (s.naming scene).map SceneOverride.repaired :=
  List.filter_map

/-- The levels of some override do not change with its repair. -/
theorem levels_map_repaired (o : Option SceneOverride) :
    (o.map SceneOverride.repaired).map SceneOverride.levels = o.map SceneOverride.levels := by
  rw [Option.map_map]
  exact congrArg (o.map ·) (funext SceneOverride.levels_repaired)

/-- Settings and the table made of their overrides know the same scenes, whether they were repaired
or not, and they force the same levels just where the first and the last override for a scene do. -/
theorem forced?_eq_resolve_iff (s : Settings) (scene : String) :
    let table := SceneTable.ofOverrides s.overrides
    s.repaired.forced? scene = s.forced? scene ∧
      (SceneTable.ofOverrides s.repaired.overrides).resolve (some scene) =
        table.resolve (some scene) ∧
      (s.forced? scene).isSome = (table.resolve (some scene)).isSome ∧
      (s.forced? scene = table.resolve (some scene) ↔
        ∀ first last, (s.naming scene).head? = some first → (s.naming scene).getLast? = some last →
          first.levels = last.levels) := by
  intro table
  have hresolve : table.resolve (some scene) = _ := resolve_ofOverrides s scene
  refine ⟨?_, ?_, ?_⟩
  · rw [forced?_eq, forced?_eq, naming_repaired, List.head?_map, levels_map_repaired]
  · rw [hresolve, resolve_ofOverrides, naming_repaired, List.getLast?_map, levels_map_repaired]
  · rw [forced?_eq, hresolve]
    cases s.naming scene with
    | nil => simp
    | cons o rest =>
      obtain ⟨last, hlast⟩ : ∃ last, (o :: rest).getLast? = some last :=
        ⟨_, List.getLast?_eq_some_getLast (List.cons_ne_nil o rest)⟩
      simp [hlast]

/-- A scene that is named twice, with other levels the second time. -/
theorem lookups_part : ¬∀ (s : Settings) (scene : String),
    s.forced? scene = (SceneTable.ofOverrides s.overrides).resolve (some scene) := by
  intro h
  have hboth := h { overrides := [{ scene := "boss", particles := some 0 },
    { scene := "boss", particles := some 2 }] } "boss"
  exact absurd hboth (by decide)

end Settings

end RenderStream
