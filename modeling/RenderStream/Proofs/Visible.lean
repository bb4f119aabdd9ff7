import RenderStream.Proofs.Culling
import RenderStream.Proofs.Rounding

/-!
# What can be seen is kept

The tests that ask whether a primitive can be seen compare rounded numbers, so each of them must err
on one side only. The box around finite vertices is exact (`Primitive.bounds_encloses`), and a
tolerance moves the sides of the scissor outward or not at all (`lt_of_lt_sub`, `lt_of_add_lt`).
Hence a primitive is found outside the scissor only when all its vertices lie beyond one side of it
(`Culling.beyond_of_outside`), and a box that meets the scissor never is. The best profile adds no
test that can fail (`lossyVerdict_best`).
-/

namespace RenderStream

/-! ## Widened sides -/

section
variable {x y t : Single}

/-- A sum with what is no number is none. -/
theorem isNaN_add_of_isNaN (hx : x.isNaN = true) (t : Single) : (x + t).isNaN = true := by
  have hnan : (Binary.nan : Single).isNaN = true := by decide
  change (Binary.add x t).isNaN = true
  rw [Binary.add, hx, Bool.true_or, if_pos rfl]
  exact hnan

/-- What lies before a side that was moved back lies before the side. -/
theorem lt_of_lt_sub (ht : t.isFinite = true) (hpos : 0 ≤ t.key) (h : y < x - t) : y < x := by
  have hx : x.isNaN = false := by
    refine Bool.eq_false_iff.2 fun hnan => ?_
    obtain ⟨-, hnumber, -⟩ := Binary.lt_iff.1 h
    exact absurd (isNaN_add_of_isNaN hnan t.neg) (Bool.eq_false_iff.1 hnumber)
  exact Binary.lt_of_lt_of_le h (Binary.sub_le_self hx ht hpos)

/-- What lies behind a side that was moved on lies behind the side. -/
theorem lt_of_add_lt (ht : t.isFinite = true) (hpos : 0 ≤ t.key) (h : x + t < y) : x < y := by
  have hx : x.isNaN = false := by
    refine Bool.eq_false_iff.2 fun hnan => ?_
    obtain ⟨hnumber, -, -⟩ := Binary.lt_iff.1 h
    exact absurd (isNaN_add_of_isNaN hnan t) (Bool.eq_false_iff.1 hnumber)
  exact Binary.lt_of_le_of_lt (Binary.le_add_self hx ht hpos) h

end

/-! ## Tolerances -/

/-- A clamped float lies between its bounds, whatever it was. -/
theorem clampFloat_between {lo hi d : Single} (h : lo ≤ hi) (hd : lo ≤ d ∧ d ≤ hi) (x : Single) :
    lo ≤ Settings.clampFloat lo hi d x ∧ Settings.clampFloat lo hi d x ≤ hi := by
  unfold Settings.clampFloat
  split
  · exact hd
  · next hx => exact Binary.clamp_between h (Bool.eq_false_iff.2 hx)

/-- What is not below zero has a key that is not negative. -/
theorem key_nonneg {x : Single} (h : 0 ≤ x) : 0 ≤ x.key := by
  have hzero : (0 : Single).key = 0 := by decide
  rw [← hzero]
  exact (Binary.le_iff.1 h).2.2

/-- Tolerances that were repaired take nothing away. -/
theorem Settings.Culling.repaired_tolerances (s : Settings.Culling) :
    0 ≤ s.repaired.areaEpsilon ∧ s.repaired.scissorTolerance.isFinite = true ∧
      0 ≤ s.repaired.scissorTolerance.key := by
  let d : Settings.Culling := {}
  have hunit : (0 : Single) ≤ 1 := by decide
  have hwide : (0 : Single) ≤ 64 := by decide
  have harea : (0 : Single) ≤ d.areaEpsilon ∧ d.areaEpsilon ≤ (1 : Single) := by decide
  have hscissor : (0 : Single) ≤ d.scissorTolerance ∧ d.scissorTolerance ≤ (64 : Single) := by
    decide
  have hepsilon := clampFloat_between hunit harea s.areaEpsilon
  have htolerance := clampFloat_between hwide hscissor s.scissorTolerance
  refine ⟨hepsilon.1, ?_, key_nonneg htolerance.1⟩
  exact Binary.isFinite_of_between (by decide) (by decide) htolerance.1 htolerance.2

/-! ## Boxes -/

/-- A member of a list that is related to all members, as the least one is. -/
structure Extreme {α : Type} (R : α → α → Prop) (m : α) (xs : List α) : Prop where
  mem : m ∈ xs
  rel : ∀ x ∈ xs, R m x

namespace Extreme

/-- A value is extreme among itself. -/
theorem singleton {α : Type} {R : α → α → Prop} {x : α} (h : R x x) : Extreme R x [x] := by
  refine ⟨List.mem_singleton_self x, fun y hy => ?_⟩
  rwa [List.mem_singleton.1 hy]

/-- One more member: the better of it and the member so far. -/
theorem snoc {α : Type} {R : α → α → Prop} {m n x : α} {xs : List α} (h : Extreme R m xs)
    (htrans : ∀ {a b c}, R a b → R b c → R a c) (hm : R n m) (hx : R n x)
    (hcases : n = m ∨ n = x) : Extreme R n (xs ++ [x]) := by
  constructor
  · rcases hcases with rfl | rfl
    · exact List.mem_append_left _ h.mem
    · exact List.mem_append_right _ (List.mem_singleton_self _)
  · intro y hy
    rcases List.mem_append.1 hy with hy | hy
    · exact htrans hm (h.rel y hy)
    · rwa [List.mem_singleton.1 hy]

variable {f : Format} {m x : Binary f} {xs : List (Binary f)}

/-- The minimum with one value more is the least of all. -/
theorem min (h : Extreme (· ≤ ·) m xs) (hx : x.isNaN = false) :
    Extreme (· ≤ ·) (m.min x) (xs ++ [x]) := by
  obtain ⟨hm, -, -⟩ := Binary.le_iff.1 (h.rel m h.mem)
  obtain ⟨hleft, hright, hcases⟩ := Binary.min_cases hm hx
  exact h.snoc Binary.le_trans hleft hright hcases

/-- The maximum with one value more is the greatest of all. -/
theorem max (h : Extreme (· ≥ ·) m xs) (hx : x.isNaN = false) :
    Extreme (· ≥ ·) (m.max x) (xs ++ [x]) := by
  obtain ⟨hm, -, -⟩ := Binary.le_iff.1 (h.rel m h.mem)
  obtain ⟨hleft, hright, hcases⟩ := Binary.max_cases hm hx
  exact h.snoc (fun hab hbc => Binary.le_trans hbc hab) hleft hright hcases

end Extreme

/-- A position on the screen. -/
def Vertex.IsPlaced (v : Vertex) : Prop := v.x.isFinite = true ∧ v.y.isFinite = true

namespace Bounds

variable {b : Bounds} {vs ws : List Vertex} {r : Rect}

/-- The least box that holds all vertices. -/
structure Encloses (b : Bounds) (vs : List Vertex) : Prop where
  minX : Extreme (· ≤ ·) b.minX (vs.map (·.x))
  minY : Extreme (· ≤ ·) b.minY (vs.map (·.y))
  maxX : Extreme (· ≥ ·) b.maxX (vs.map (·.x))
  maxY : Extreme (· ≥ ·) b.maxY (vs.map (·.y))

/-- The box and the rectangle, taken with its edges, touch or overlap in both directions. -/
structure Meets (b : Bounds) (r : Rect) : Prop where
  left : r.x0 ≤ b.maxX
  right : b.minX ≤ r.x1
  top : r.y0 ≤ b.maxY
  bottom : b.minY ≤ r.y1

/-- The bounds of one vertex enclose it. -/
theorem encloses_singleton {v : Vertex} (hv : v.IsPlaced) :
    Encloses ⟨v.x, v.y, v.x, v.y⟩ [v] := by
  have hx := Binary.le_refl (Binary.isNaN_of_isFinite hv.1)
  have hy := Binary.le_refl (Binary.isNaN_of_isFinite hv.2)
  exact ⟨.singleton hx, .singleton hy, .singleton hx, .singleton hy⟩

/-- Bounds that grow by a vertex enclose it too. -/
theorem Encloses.snoc {w : Vertex} (h : b.Encloses vs) (hw : w.IsPlaced) :
    (b.grow w).Encloses (vs ++ [w]) := by
  have hx := Binary.isNaN_of_isFinite hw.1
  have hy := Binary.isNaN_of_isFinite hw.2
  constructor <;> simp only [List.map_append, List.map_cons, List.map_nil]
  · exact h.minX.min hx
  · exact h.minY.min hy
  · exact h.maxX.max hx
  · exact h.maxY.max hy

/-- Bounds that grow by vertices enclose them too. -/
theorem Encloses.append (h : b.Encloses vs) (hws : ∀ w ∈ ws, w.IsPlaced) :
    (ws.foldl Bounds.grow b).Encloses (vs ++ ws) := by
  induction ws generalizing b vs with
  | nil => rwa [List.append_nil]
  | cons w ws ih =>
    have hgrown := h.snoc (hws w List.mem_cons_self)
    have hrest := ih hgrown fun w' hw' => hws w' (List.mem_cons_of_mem _ hw')
    rwa [List.append_assoc] at hrest

end Bounds

namespace Primitive

variable {p : Primitive} {r : Rect}

/-- All vertices lie beyond the same side of a rectangle, and none on it. -/
def Beyond (p : Primitive) (r : Rect) : Prop :=
  (∀ v ∈ p.vertices, v.x < r.x0) ∨ (∀ v ∈ p.vertices, r.x1 < v.x) ∨
    (∀ v ∈ p.vertices, v.y < r.y0) ∨ (∀ v ∈ p.vertices, r.y1 < v.y)

/-- The box of a primitive is the least one around its vertices. -/
theorem bounds_encloses (hne : p.vertices ≠ []) (hplaced : ∀ v ∈ p.vertices, v.IsPlaced) :
    p.bounds.Encloses p.vertices := by
  unfold bounds
  cases hvertices : p.vertices with
  | nil => exact absurd hvertices hne
  | cons v vs =>
    rw [hvertices] at hplaced
    have hfirst := Bounds.encloses_singleton (hplaced v List.mem_cons_self)
    exact hfirst.append fun w hw => hplaced w (List.mem_cons_of_mem v hw)

/-- Vertices beyond one side have no box that meets the rectangle. -/
theorem Beyond.not_meets (h : p.Beyond r) {b : Bounds} (hb : b.Encloses p.vertices) :
    ¬b.Meets r := by
  intro hmeets
  rcases h with hbeyond | hbeyond | hbeyond | hbeyond
  · obtain ⟨v, hv, hx⟩ := List.mem_map.1 hb.maxX.mem
    exact Binary.not_le_of_lt (hbeyond v hv) (hx ▸ hmeets.left)
  · obtain ⟨v, hv, hx⟩ := List.mem_map.1 hb.minX.mem
    exact Binary.not_le_of_lt (hbeyond v hv) (hx ▸ hmeets.right)
  · obtain ⟨v, hv, hy⟩ := List.mem_map.1 hb.maxY.mem
    exact Binary.not_le_of_lt (hbeyond v hv) (hy ▸ hmeets.top)
  · obtain ⟨v, hv, hy⟩ := List.mem_map.1 hb.minY.mem
    exact Binary.not_le_of_lt (hbeyond v hv) (hy ▸ hmeets.bottom)

/-- A box beyond a widened side has all its vertices beyond the side. -/
theorem beyond_of_bounds {t : Single} (ht : t.isFinite = true) (hpos : 0 ≤ t.key)
    (hplaced : ∀ v ∈ p.vertices, v.IsPlaced) (hne : p.vertices ≠ [])
    (h : p.bounds.beyond (r.expand t) = true) : p.Beyond r := by
  have hbox := bounds_encloses hne hplaced
  simp only [Bounds.beyond, Bool.or_eq_true, decide_eq_true_eq] at h
  rcases h with ((hside | hside) | hside) | hside
  · refine .inl fun v hv => ?_
    have hv := hbox.maxX.rel v.x (List.mem_map_of_mem hv)
    exact Binary.lt_of_le_of_lt hv (lt_of_lt_sub ht hpos hside)
  · refine .inr (.inl fun v hv => ?_)
    have hv := hbox.minX.rel v.x (List.mem_map_of_mem hv)
    exact Binary.lt_of_lt_of_le (lt_of_add_lt ht hpos hside) hv
  · refine .inr (.inr (.inl fun v hv => ?_))
    have hv := hbox.maxY.rel v.y (List.mem_map_of_mem hv)
    exact Binary.lt_of_le_of_lt hv (lt_of_lt_sub ht hpos hside)
  · refine .inr (.inr (.inr fun v hv => ?_))
    have hv := hbox.minY.rel v.y (List.mem_map_of_mem hv)
    exact Binary.lt_of_lt_of_le (lt_of_add_lt ht hpos hside) hv

/-! ## Areas -/

/-- Without vertices there is no area. -/
theorem signedArea_nil (hnil : p.vertices = []) : p.signedArea = 0 := by
  rw [signedArea, hnil]
  exact if_pos (by decide)

/-- An area above a tolerance has a sign, and with it the primitive has a winding. -/
theorem winding_of_area {e : Single} (he : 0 ≤ e) (h : e < p.signedArea.abs) :
    p.winding = some p.facing := by
  unfold winding facing
  split
  · rfl
  · next hnot =>
    obtain ⟨hzero, hkey⟩ : (0 : Single).isNaN = false ∧ (0 : Single).key = 0 := by decide
    have hnegative : p.signedArea < 0 := by
      obtain ⟨-, hnumber, habs⟩ := Binary.lt_iff.1 h
      rw [Binary.isNaN_abs] at hnumber
      obtain ⟨-, -, hle⟩ := Binary.le_iff.1 (Binary.le_of_not_lt hzero hnumber hnot)
      rw [Binary.key_abs, ← Binary.natAbs_key] at habs
      have hepsilon := key_nonneg he
      refine Binary.lt_iff.2 ⟨hnumber, hzero, ?_⟩
      omega
    rw [if_pos hnegative]

end Primitive

namespace Culling

/-! ## Verdicts -/

variable {c : Culling} {s : Settings.Culling} {p : Primitive} {ordinal : UInt32} {g : Nat}

/-- At the best quality nothing is left out for quality. -/
theorem lossyVerdict_best (p : Primitive) (ordinal : UInt32) (g : Nat) :
    lossyVerdict (.ofLevels .best g) p ordinal = .keep := by
  have hdistance : ¬(Profile.ofLevels .best g).cullDistance < p.nearestDepth :=
    Binary.not_infinity_lt _
  unfold lossyVerdict
  cases p.kind with
  | world => rfl
  | entity => exact if_neg hdistance
  | particle => exact if_pos (keepOnStride_best ordinal 0)

/-- The plain tests pass when there is an area, no scissor to be outside of, and a face drawn. -/
theorem plainVerdict?_eq_none (harea : ¬p.signedArea.abs ≤ c.tolerances.areaEpsilon)
    (hinside : ∀ r, c.view.scissor = some r →
      ¬p.bounds.beyond (r.expand c.tolerances.scissorTolerance) = true)
    (hface : ¬c.view.rejects p.facing = true) : c.plainVerdict? p = none := by
  have hscissor : ¬(c.view.scissor.any fun r =>
      p.bounds.beyond (r.expand c.tolerances.scissorTolerance)) = true := by
    cases hr : c.view.scissor with
    | none => exact Bool.false_ne_true
    | some r => exact hinside r hr
  unfold plainVerdict?
  rw [if_neg harea, if_neg hscissor, if_neg hface]

/-- What a verdict of the scissor test rests on. -/
theorem outside_of_test (h : c.test p ordinal = .outsideScissor) :
    ¬p.signedArea.abs ≤ c.tolerances.areaEpsilon ∧ ∃ r, c.view.scissor = some r ∧
      p.bounds.beyond (r.expand c.tolerances.scissorTolerance) = true := by
  rw [test_eq] at h
  unfold plainVerdict? at h
  split at h
  · cases h
  · next harea =>
    refine ⟨harea, ?_⟩
    split at h
    · next houtside => exact (Option.any_eq_true _ _).1 houtside
    · split at h
      · cases h
      · rw [Option.getD_none] at h
        rcases lossyVerdict_cases c.profile p ordinal with hlossy | hlossy | hlossy
        all_goals
          rw [hlossy] at h
          cases h

/-- What lies outside the scissor has all its vertices beyond one side of it. -/
theorem beyond_of_outside (ht : c.tolerances = s.repaired)
    (hplaced : ∀ v ∈ p.vertices, v.IsPlaced) (h : c.test p ordinal = .outsideScissor) :
    p.vertices ≠ [] ∧ ∃ r, c.view.scissor = some r ∧ p.Beyond r := by
  obtain ⟨hepsilon, hfinite, hpos⟩ := s.repaired_tolerances
  obtain ⟨harea, r, hscissor, hbeyond⟩ := outside_of_test h
  rw [ht] at harea hbeyond
  have hne : p.vertices ≠ [] := by
    intro hnil
    rw [Primitive.signedArea_nil hnil] at harea
    exact harea (Binary.le_trans (by decide) hepsilon)
  exact ⟨hne, r, hscissor, Primitive.beyond_of_bounds hfinite hpos hplaced hne hbeyond⟩

/-- With repaired tolerances and vertices at finite places, a primitive is kept at the best quality
if its area is above the tolerance, the box around its vertices meets the scissor itself, and the
faces of its winding are drawn; and at any quality what is found outside the scissor has all its
vertices beyond the same side of the scissor itself. -/
theorem visible_kept (ht : c.tolerances = s.repaired) (hplaced : ∀ v ∈ p.vertices, v.IsPlaced) :
    (c.profile = .ofLevels .best g → c.tolerances.areaEpsilon < p.signedArea.abs →
      (∀ r, c.view.scissor = some r → ∃ b : Bounds, b.Encloses p.vertices ∧ b.Meets r) →
      (∀ w, p.winding = some w → c.view.rejects w = false) →
      c.test p ordinal = .keep) ∧
    (c.test p ordinal = .outsideScissor →
      p.vertices ≠ [] ∧ ∃ r, c.view.scissor = some r ∧ p.Beyond r) := by
  refine ⟨fun hbest harea hmeets hfaces => ?_, beyond_of_outside ht hplaced⟩
  obtain ⟨hepsilon, hfinite, hpos⟩ := s.repaired_tolerances
  rw [← ht] at hepsilon hfinite hpos
  have hface := hfaces p.facing (Primitive.winding_of_area hepsilon harea)
  have hplain : c.plainVerdict? p = none := by
    refine plainVerdict?_eq_none (Binary.not_le_of_lt harea) (fun r hr hbeyond => ?_)
      (Bool.eq_false_iff.1 hface)
    obtain ⟨b, hbox, hmeet⟩ := hmeets r hr
    obtain ⟨v, hv, -⟩ := List.mem_map.1 hbox.minX.mem
    have houtside := Primitive.beyond_of_bounds hfinite hpos hplaced (List.ne_nil_of_mem hv) hbeyond
    exact houtside.not_meets hbox hmeet
  rw [test_eq, hplain, Option.getD_none, hbest, lossyVerdict_best]

/-- Culling of back faces under a scissor. -/
def Demo.under (scissor : Rect) : Culling :=
  { tolerances := ({} : Settings.Culling).repaired
    view := { scissor := some scissor, mode := .back } }

/-- A particle that is a triangle. -/
def Demo.corner : Primitive where
  vertices := [{ x := 0, y := 0, depth := 1 }, { x := 4, y := 0, depth := 1 },
    { x := 0, y := 4, depth := 1 }]
  kind := .particle

/-- A corner is kept under a scissor that it touches, and left out under one that lies beside it. -/
theorem visible_kept_demo :
    (Demo.under ⟨4, 0, 8, 4⟩).test Demo.corner 5 = .keep ∧
      (Demo.under ⟨16, 0, 20, 4⟩).test Demo.corner 5 = .outsideScissor ∧
      ∃ r, (Demo.under ⟨16, 0, 20, 4⟩).view.scissor = some r ∧ Demo.corner.Beyond r := by
  have hplaced : ∀ v ∈ Demo.corner.vertices, v.IsPlaced := by
    unfold Vertex.IsPlaced
    decide +kernel
  have hwinding : Demo.corner.winding = some .counterClockwise := by decide +kernel
  have houtside : (Demo.under ⟨16, 0, 20, 4⟩).test Demo.corner 5 = .outsideScissor := by
    decide +kernel
  refine ⟨?_, houtside, ((visible_kept (s := {}) (g := 0) rfl hplaced).2 houtside).2⟩
  refine (visible_kept (s := {}) (g := 0) rfl hplaced).1 rfl (by decide +kernel) ?_ ?_
  · intro r hr
    cases hr
    refine ⟨_, Primitive.bounds_encloses (List.cons_ne_nil _ _) hplaced, ?_⟩
    constructor <;> decide +kernel
  · intro w hw
    rw [hwinding] at hw
    cases hw
    rfl

end Culling

end RenderStream
