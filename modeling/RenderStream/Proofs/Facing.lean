import RenderStream.Proofs.Exact
import RenderStream.Proofs.Visible

/-!
# Faces turned away

A primitive has a winding if its signed area has a sign. Culling takes whatever is not positive for
clockwise (`Primitive.facing_eq`), so the two agree on every area with a sign, and a face can be
rejected without a winding only if its area is not a number, or if it is zero and the tolerance lets
zeros pass (`Culling.winding_of_passed`). Neither happens to vertices at finite places under
repaired tolerances: the products of coordinates stay far from the end of the 64-bit range, and so
do sums of any number of them, because a sum that is large enough rounds every further term away
(`Binary.Within.add_sweep`).
-/

namespace RenderStream

/-! ## Bounded numbers -/

namespace Binary

variable {f : Format} {x y : Binary f} {a b n : Nat}

/-- A finite number that is not further from zero than so many smallest positive ones. -/
def Within (n : Nat) (x : Binary f) : Prop := x.isFinite = true ∧ f.units x.magnitude ≤ n

/-- Rounding does not lead beyond a number that fits. -/
theorem within_of_nearest (hx : x.magnitude ≤ f.nearest n 1) (h : f.Fits n) : x.Within n := by
  obtain ⟨hunits, hfinite⟩ := h.exact
  refine ⟨isFinite_iff.2 (Nat.lt_of_le_of_lt hx hfinite), ?_⟩
  have hle := (Format.units_le_iff (Nat.le_of_lt (Nat.lt_of_le_of_lt hx hfinite))
    (Nat.le_of_lt hfinite)).2 hx
  rwa [hunits] at hle

/-- The size of the value is the number of smallest units. -/
theorem natAbs_exact (x : Binary f) : x.exact.natAbs = f.units x.magnitude := by
  rw [exact_eq_signed, natAbs_signed]

/-- A finite sum is the exact sum rounded. -/
theorem magnitude_add (hx : x.isFinite = true) (hy : y.isFinite = true) :
    (x + y).magnitude = f.nearest (x.exact + y.exact).natAbs 1 := by
  rw [← natAbs_key, (key_add hx hy).2, rounded, natAbs_signed]

namespace Within

/-- The opposite is within the same bound. -/
theorem neg (hx : x.Within a) : x.neg.Within a :=
  ⟨isFinite_neg hx.1, by rw [magnitude_neg]; exact hx.2⟩

/-- A sum is no greater than the sum of the bounds rounded. -/
theorem add_le (hx : x.Within a) (hy : y.Within b) :
    (x + y).magnitude ≤ f.nearest (a + b) 1 := by
  rw [magnitude_add hx.1 hy.1]
  refine Format.nearest_mono ?_ Nat.one_pos
  refine Nat.le_trans (Int.natAbs_add_le _ _) ?_
  rw [natAbs_exact, natAbs_exact]
  exact Nat.add_le_add hx.2 hy.2

/-- A sum is within the sum of the bounds, when that fits. -/
theorem add (hx : x.Within a) (hy : y.Within b) (h : f.Fits (a + b)) : (x + y).Within (a + b) :=
  within_of_nearest (hx.add_le hy) h

/-- A product is within the product of the bounds, when that fits. -/
theorem mul (hx : x.Within a) (hy : y.Within b) (hn : a * b ≤ n * 2 ^ f.scale) (h : f.Fits n) :
    (x * y).Within n := by
  have hproduct : x * y = round (x.negative != y.negative)
      (f.units x.magnitude * f.units y.magnitude) (2 ^ f.scale) := by
    change Binary.mul x y = _
    simp only [Binary.mul, isNaN_of_isFinite hx.1, isNaN_of_isFinite hy.1,
      isInfinite_eq_false hx.1, isInfinite_eq_false hy.1, Bool.or_self, Bool.false_eq_true,
      if_false, Nat.one_shiftLeft]
  refine within_of_nearest ?_ h
  rw [hproduct, round, magnitude_build (nearest_lt f _ _),
    ← Format.nearest_mul_self n (Nat.two_pow_pos f.scale)]
  exact Format.nearest_mono (Nat.le_trans (Nat.mul_le_mul hx.2 hy.2) hn) (Nat.two_pow_pos _)

end Within

end Binary

/-! ## Areas -/

section
variable {x y : Double}

/-- A finite 32-bit float is below `2 ^ 128`. -/
theorem within_widen {x : Single} (hx : x.isFinite = true) : x.widen.Within (2 ^ 1202) := by
  have hinfinity : Format.single.units Format.single.infinity = 2 ^ 277 := by decide +kernel
  have hle := (Format.units_le_iff (Nat.le_of_lt (Binary.isFinite_iff.1 hx)) (Nat.le_refl _)).2
    (Nat.le_of_lt (Binary.isFinite_iff.1 hx))
  obtain ⟨hfinite, -, hunits⟩ := Binary.widen_exact hx
  refine ⟨hfinite, ?_⟩
  rw [hunits]
  rw [hinfinity] at hle
  calc Format.single.units x.magnitude * 2 ^ Format.refinement
    _ ≤ 2 ^ 277 * 2 ^ Format.refinement := Nat.mul_le_mul_right _ hle
    _ = 2 ^ 1202 := by decide +kernel

/-- Powers of two up to a great one fit a double. -/
theorem fits_two_pow {e : Nat} (he : e ≤ 1400) : Format.double.Fits (2 ^ e) := by
  have hexponent : 1400 + 3 ≤ 2 ^ Format.double.exponent := by decide
  have hone : 1 < 2 ^ (Format.double.fraction + 1) := by decide
  have hfits := Format.fits_mul_pow (f := .double) (k := 1) hone (by omega : e + 3 ≤ _)
  rwa [Nat.one_mul] at hfits

/-- A sum of two floats within a power of two is within the next one. -/
theorem Binary.Within.double {d e : Nat} (hx : x.Within (2 ^ e)) (hy : y.Within (2 ^ e))
    (hd : d = e + 1) (hle : d ≤ 1400) : (x + y).Within (2 ^ d) := by
  have hfits := fits_two_pow hle
  subst hd
  rw [Nat.pow_succ, Nat.mul_two] at hfits ⊢
  exact hx.add hy hfits

/-- The term of an edge between placed vertices is far from infinity. -/
theorem within_sweep {v w : Vertex} (hv : v.IsPlaced) (hw : w.IsPlaced) :
    (Primitive.sweep v w).Within (2 ^ 1331) := by
  have hproduct {x y : Single} (hx : x.isFinite = true) (hy : y.isFinite = true) :
      (x.widen * y.widen).Within (2 ^ 1330) :=
    (within_widen hx).mul (within_widen hy) (by decide +kernel) (fits_two_pow (by decide))
  exact (hproduct hv.1 hw.2).double (hproduct hw.1 hv.2).neg rfl (by decide)

/-- Far enough from zero, a term is too small to be seen: the bound of a sum stays as it is. -/
theorem Binary.Within.add_sweep (hx : x.Within (2 ^ 1385)) (hy : y.Within (2 ^ 1331)) :
    (x + y).Within (2 ^ 1385) := by
  have hround : Format.double.nearest (2 ^ 1385 + 2 ^ 1331) 1 =
      Format.double.nearest (2 ^ 1385) 1 := by decide +kernel
  refine Binary.within_of_nearest ?_ (fits_two_pow (by decide))
  rw [← hround]
  exact hx.add_le hy

/-- So is the sum of all terms. -/
theorem within_foldl_sweep (es : List (Vertex × Vertex)) : ∀ {x : Double}, x.Within (2 ^ 1385) →
    (∀ e ∈ es, e.1.IsPlaced ∧ e.2.IsPlaced) →
    (es.foldl (fun sum e => sum + Primitive.sweep e.1 e.2) x).Within (2 ^ 1385) := by
  induction es with
  | nil => exact fun hx _ => hx
  | cons e es ih =>
    intro x hx hplaced
    obtain ⟨he, hes⟩ := List.forall_mem_cons.1 hplaced
    exact ih (hx.add_sweep (within_sweep he.1 he.2)) hes

end

namespace Primitive

variable {p : Primitive}

/-- Vertices at finite places have an area that is a number, however many they are. -/
theorem isNaN_signedArea (hplaced : ∀ v ∈ p.vertices, v.IsPlaced) :
    p.signedArea.isNaN = false := by
  -- An edge runs between two of the vertices.
  have hedges : ∀ e ∈ p.outline, e.1.IsPlaced ∧ e.2.IsPlaced := by
    rintro ⟨v, w⟩ he
    obtain ⟨hv, hw⟩ := List.of_mem_zip he
    refine ⟨hplaced v hv, hplaced w ?_⟩
    rcases List.mem_append.1 hw with hw | hw
    · exact List.mem_of_mem_tail hw
    · exact List.mem_of_mem_take hw
  have hzero : (0 : Double).Within (2 ^ 1385) := by
    unfold Binary.Within
    decide +kernel
  have hhalf : (0.5 : Double).Within (2 ^ 1073) := by
    unfold Binary.Within
    decide +kernel
  have htwice := within_foldl_sweep p.outline hzero hedges
  have harea := htwice.mul hhalf (n := 2 ^ 1384) (by decide +kernel) (fits_two_pow (by decide))
  unfold signedArea
  split
  · decide
  · exact (Binary.key_narrow harea.1).1

/-- Without a winding a face counts as clockwise. -/
theorem facing_eq (p : Primitive) : p.facing = p.winding.getD .clockwise := by
  unfold facing winding
  split
  · rfl
  · split <;> rfl

end Primitive

namespace Culling

variable {c : Culling} {p : Primitive} {ordinal : UInt32}

/-- A face is turned away if it is neither too small nor outside the scissor, and the mode rejects
its winding; what has none is taken for clockwise. -/
theorem test_eq_backFacing_iff : c.test p ordinal = .backFacing ↔
    ¬p.signedArea.abs ≤ c.tolerances.areaEpsilon ∧
      (∀ r, c.view.scissor = some r →
        p.bounds.beyond (r.expand c.tolerances.scissorTolerance) = false) ∧
      c.view.rejects (p.winding.getD .clockwise) = true := by
  have hscissor : (∀ r, c.view.scissor = some r →
      p.bounds.beyond (r.expand c.tolerances.scissorTolerance) = false) ↔
        ¬(c.view.scissor.any fun r =>
          p.bounds.beyond (r.expand c.tolerances.scissorTolerance)) = true := by
    cases c.view.scissor <;> simp
  have hlossy : lossyVerdict c.profile p ordinal ≠ .backFacing := by
    rcases lossyVerdict_cases c.profile p ordinal with hlossy | hlossy | hlossy <;>
      simp [hlossy]
  rw [test_eq, plainVerdict?, ← p.facing_eq, hscissor]
  split
  · next harea => simp [harea]
  · next harea =>
    split
    · next houtside => simp [houtside]
    · next hinside =>
      split
      · next hface => exact iff_of_true rfl ⟨harea, hinside, hface⟩
      · next hface => simp [hface, hlossy]

/-- What passes the area test has a winding, unless its area is not a number or the tolerance lets
zeros pass. -/
theorem winding_of_passed (hepsilon : 0 ≤ c.tolerances.areaEpsilon)
    (hnumber : p.signedArea.isNaN = false) (h : ¬p.signedArea.abs ≤ c.tolerances.areaEpsilon) :
    p.winding = some p.facing := by
  refine Primitive.winding_of_area hepsilon (Binary.lt_of_not_le ?_ ?_ h)
  · exact (Binary.le_iff.1 hepsilon).2.1
  · rwa [Binary.isNaN_abs]

/-- Which faces culling turns away. With a winding it is that winding which the mode rejects.
Without one the face counts as clockwise, and then its area is not a number or the tolerance lets
zeros pass. Under repaired tolerances and with vertices at finite places neither is the case, so
that no face is turned away but for a winding of its own. -/
theorem faces_rejected (c : Culling) (p : Primitive) (ordinal : UInt32) :
    (c.test p ordinal = .backFacing ↔
      ¬p.signedArea.abs ≤ c.tolerances.areaEpsilon ∧
        (∀ r, c.view.scissor = some r →
          p.bounds.beyond (r.expand c.tolerances.scissorTolerance) = false) ∧
        c.view.rejects (p.winding.getD .clockwise) = true) ∧
      (c.test p ordinal = .backFacing → p.winding = none →
        c.view.rejects .clockwise = true ∧
          (p.signedArea.isNaN = true ∨ ¬0 ≤ c.tolerances.areaEpsilon)) ∧
      (∀ s : Settings.Culling, c.tolerances = s.repaired → (∀ v ∈ p.vertices, v.IsPlaced) →
        c.test p ordinal = .backFacing → ∃ w, p.winding = some w ∧ c.view.rejects w = true) := by
  refine ⟨test_eq_backFacing_iff, fun h hnone => ?_, fun s ht hplaced h => ?_⟩
  · obtain ⟨harea, -, hface⟩ := test_eq_backFacing_iff.1 h
    rw [hnone] at hface
    refine ⟨hface, ?_⟩
    by_contra hsound
    obtain ⟨hnumber, hepsilon⟩ := not_or.1 hsound
    have hwinding := winding_of_passed (not_not.1 hepsilon) (Bool.eq_false_iff.2 hnumber) harea
    rw [hnone] at hwinding
    cases hwinding
  · obtain ⟨harea, -, hface⟩ := test_eq_backFacing_iff.1 h
    rw [← p.facing_eq] at hface
    have hepsilon := s.repaired_tolerances.1
    rw [← ht] at hepsilon
    exact ⟨p.facing, winding_of_passed hepsilon (Primitive.isNaN_signedArea hplaced) harea, hface⟩

/-- Culling of back faces, as it starts. -/
def Demo.backFaces : Culling :=
  { tolerances := ({} : Settings.Culling).repaired, view := { mode := .back } }

/-- A triangle that runs clockwise. -/
def Demo.reversed : Primitive :=
  { vertices := [{ x := 0, y := 0, depth := 1 }, { x := 0, y := 4, depth := 1 },
      { x := 4, y := 0, depth := 1 }] }

/-- A triangle with a corner that is nowhere. -/
def Demo.unplaced : Primitive :=
  { vertices := [{ x := 0, y := 0, depth := 1 }, { x := .nan, y := 0, depth := 1 },
      { x := 0, y := 4, depth := 1 }] }

/-- A reversed triangle is turned away by its winding, and one with an unplaced vertex without
one. -/
theorem faces_rejected_demo :
    (Demo.backFaces.test Demo.reversed 0 = .backFacing ∧
      ∃ w, Demo.reversed.winding = some w ∧ Demo.backFaces.view.rejects w = true) ∧
      (Demo.backFaces.test Demo.unplaced 0 = .backFacing ∧ Demo.unplaced.winding = none ∧
        (Demo.unplaced.signedArea.isNaN = true ∨ ¬0 ≤ Demo.backFaces.tolerances.areaEpsilon)) := by
  have hplaced : ∀ v ∈ Demo.reversed.vertices, v.IsPlaced := by
    unfold Vertex.IsPlaced
    decide +kernel
  have hreversed : Demo.backFaces.test Demo.reversed 0 = .backFacing := by decide +kernel
  have hunplaced : Demo.backFaces.test Demo.unplaced 0 = .backFacing := by decide +kernel
  have hnone : Demo.unplaced.winding = none := by decide +kernel
  exact ⟨⟨hreversed, (faces_rejected _ _ 0).2.2 {} rfl hplaced hreversed⟩,
    hunplaced, hnone, ((faces_rejected _ _ 0).2.1 hunplaced hnone).2⟩

/-- A face may be turned away that has no winding at all. -/
theorem rejected_without_winding :
    ¬∀ (c : Culling) (p : Primitive) (ordinal : UInt32),
      c.view.mode = .back ∨ c.view.mode = .front → c.test p ordinal = .backFacing →
        ∃ w, p.winding = some w ∧ c.view.rejects w = true := by
  intro h
  obtain ⟨w, hw, -⟩ := h Demo.backFaces Demo.unplaced 0 (.inl rfl) (by decide +kernel)
  have hnone : Demo.unplaced.winding = none := by decide +kernel
  rw [hnone] at hw
  cases hw

end Culling

end RenderStream
