import RenderStream.Settings

/-!
# Forced levels by scene

A table of scenes and the levels forced in them. A later entry for a scene replaces an earlier one.
-/

namespace RenderStream

/-- Levels by scene, each scene once. -/
structure SceneTable where
  entries : List (String × Levels) := []
deriving DecidableEq

namespace SceneTable

def get? (t : SceneTable) (scene : String) : Option Levels := t.entries.lookup scene

/-- The levels forced while a scene is shown, if one is known. -/
def resolve (t : SceneTable) (scene : Option String) : Option Levels := scene.bind t.get?

/-- The table with an entry; no level goes beyond the best. -/
def insert (t : SceneTable) (scene : String) (l : Levels) : SceneTable :=
  ⟨(scene, l.clamped) :: t.entries.filter (·.1 != scene)⟩

def ofOverrides (os : List Settings.SceneOverride) : SceneTable :=
  os.foldl (fun t o => t.insert o.scene o.levels) {}

def size (t : SceneTable) : Nat := t.entries.length

end SceneTable

end RenderStream
