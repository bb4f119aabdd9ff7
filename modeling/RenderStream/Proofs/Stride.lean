import RenderStream.Proofs.Culling
import RenderStream.Proofs.Rounding

/-!
# Particles on the stride

The stride is computed in 64 bits, where nothing of it is rounded: a float that is worth a whole
count of smallest positive numbers (`Binary.Worth`) stays one under sums, products and floors, as
long as the result fits the significand. So for a ratio `p / 2 ^ k` the test is the one on natural
numbers (`keepOnStride_iff`). The ratios of the profiles are multiples of a quarter, and what a
smaller one keeps a larger one keeps too (`keepOnStride_mono`).
-/

namespace RenderStream

/-! ## Exact arithmetic -/

namespace Binary

variable {f : Format} {x y : Binary f} {a b n den : Nat}

/-- A finite float without a sign that is worth `n` smallest positive numbers. -/
structure Worth (x : Binary f) (n : Nat) : Prop where
  finite : x.isFinite = true
  positive : x.negative = false
  units_eq : f.units x.magnitude = n

/-- What it is to be worth a number of units. -/
theorem worth_iff : x.Worth n ↔ x.isFinite = true ∧ x.negative = false ∧ f.units x.magnitude = n :=
  ⟨fun h => ⟨h.finite, h.positive, h.units_eq⟩, fun ⟨hfinite, hpositive, hunits⟩ =>
    ⟨hfinite, hpositive, hunits⟩⟩

instance (x : Binary f) (n : Nat) : Decidable (x.Worth n) := decidable_of_iff' _ worth_iff

/-- What is worth a number of units has that value. -/
theorem Worth.exact_eq (h : x.Worth n) : x.exact = n := by
  rw [exact_eq_signed, h.positive, h.units_eq]
  rfl

/-- What is worth something is ordered by its pattern. -/
theorem Worth.key_eq (h : x.Worth n) : x.key = x.magnitude := by
  rw [key_eq_signed, h.positive]
  rfl

/-- What is worth something is a number. -/
theorem Worth.isNaN_eq (h : x.Worth n) : x.isNaN = false := isNaN_of_isFinite h.finite

/-- What is worth something is finite. -/
theorem Worth.isInfinite_eq (h : x.Worth n) : x.isInfinite = false := isInfinite_eq_false h.finite

/-- Floats are ordered like what they are worth. -/
theorem Worth.le_iff (hx : x.Worth a) (hy : y.Worth b) : x ≤ y ↔ a ≤ b := by
  rw [Binary.le_iff, hx.key_eq, hy.key_eq, ← hx.units_eq, ← hy.units_eq,
    Format.units_le_iff (isNaN_eq_false.1 hx.isNaN_eq) (isNaN_eq_false.1 hy.isNaN_eq)]
  simp [hx.isNaN_eq, hy.isNaN_eq]

/-- Floats are strictly ordered like what they are worth. -/
theorem Worth.lt_iff (hx : x.Worth a) (hy : y.Worth b) : x < y ↔ a < b := by
  rw [← Nat.not_le, ← hy.le_iff hx]
  exact ⟨not_le_of_lt, lt_of_not_le hx.isNaN_eq hy.isNaN_eq⟩

/-- A number of units that fits is rounded to itself. -/
theorem worth_round (h : f.Fits n) (hden : 0 < den) :
    (round false (n * den) den : Binary f).Worth n := by
  obtain ⟨hunits, hfinite⟩ := h.exact
  have hnearest : f.nearest (n * den) den = f.nearest n 1 := Format.nearest_mul_self n hden
  constructor
  · rw [isFinite_iff, round, magnitude_build (nearest_lt f _ _), hnearest]
    exact hfinite
  · rw [round, negative_build (nearest_lt f _ _)]
  · rw [round, magnitude_build (nearest_lt f _ _), hnearest]
    exact hunits

/-- A whole number of units that fits is rounded to itself. -/
theorem worth_round_one (h : f.Fits n) : (round false n 1 : Binary f).Worth n := by
  have hround := worth_round h Nat.one_pos
  rwa [Nat.mul_one] at hround

/-- A natural number that fits is represented exactly. -/
theorem worth_ofNat (h : f.Fits (n * 2 ^ f.scale)) :
    (ofNat n : Binary f).Worth (n * 2 ^ f.scale) := by
  have hround := worth_round_one h
  rwa [← Nat.shiftLeft_eq] at hround ⊢

/-- A sum that fits is exact. -/
theorem Worth.add (hx : x.Worth a) (hy : y.Worth b) (h : f.Fits (a + b)) :
    (x + y).Worth (a + b) := by
  have hround := worth_round_one h
  change (Binary.add x y).Worth (a + b)
  simp only [Binary.add, hx.isNaN_eq, hy.isNaN_eq, hx.isInfinite_eq, hy.isInfinite_eq,
    Bool.or_self, Bool.false_eq_true, if_false, hx.exact_eq, hy.exact_eq]
  split
  · next hsum =>
    have hzero : a + b = 0 := by omega
    rw [hzero, round, nearest_zero] at hround
    rw [hx.positive, hzero]
    exact hround
  · have hsign : decide ((a : Int) + b < 0) = false := decide_eq_false (by omega)
    have habs : ((a : Int) + b).natAbs = a + b := by omega
    rw [hsign, habs]
    exact hround

/-- A product that fits is exact. -/
theorem Worth.mul (hx : x.Worth a) (hy : y.Worth b) (hn : a * b = n * 2 ^ f.scale) (h : f.Fits n) :
    (x * y).Worth n := by
  have hround := worth_round h (Nat.two_pow_pos f.scale)
  change (Binary.mul x y).Worth n
  simp only [Binary.mul, hx.isNaN_eq, hy.isNaN_eq, hx.isInfinite_eq, hy.isInfinite_eq,
    Bool.or_self, Bool.false_eq_true, if_false, hx.positive, hy.positive, bne_self_eq_false,
    hx.units_eq, hy.units_eq, hn, Nat.one_shiftLeft]
  exact hround

/-- The floor of a float is exact. -/
theorem Worth.floor (hx : x.Worth a) (hn : a / 2 ^ f.scale = n) (h : f.Fits (n * 2 ^ f.scale)) :
    x.floor.Worth (n * 2 ^ f.scale) := by
  simp only [Binary.floor, hx.isNaN_eq, hx.isInfinite_eq, Bool.false_or, Bool.false_eq_true,
    if_false, decide_eq_true_eq]
  split
  · next hzero =>
    have ha : a = 0 := by rw [← hx.units_eq, hzero, f.units_zero]
    rw [ha, Nat.zero_div] at hn
    rw [← hn, Nat.zero_mul, ← ha]
    exact hx
  · have hfloor : x.exact.fdiv ((1 <<< f.scale : Nat) : Int) = n := by
      rw [hx.exact_eq, Nat.one_shiftLeft, ← Int.ofNat_fdiv, hn]
    rw [hfloor]
    exact worth_ofNat h

end Binary

/-! ## In 64 bits -/

section
variable {e k n p : Nat}

/-- A double has no fewer bits behind the point than a single. -/
theorem scale_le : Format.single.scale ≤ Format.double.scale := by decide

/-- What has 53 bits and a scale of its own fits a double. -/
theorem fits_double (hk : k < 2 ^ 53) (he : e ≤ Format.double.scale) :
    Format.double.Fits (k * 2 ^ e) := by
  have hscale : Format.double.scale + 3 ≤ 2 ^ Format.double.exponent := by decide
  exact Format.fits_mul_pow hk (by omega)

/-- Widening loses nothing. -/
theorem Binary.Worth.widen {x : Single}
    (hx : x.Worth (p * 2 ^ (Format.single.scale - k))) (hp : p < 2 ^ 53)
    (hk : k ≤ Format.single.scale) : x.widen.Worth (p * 2 ^ (Format.double.scale - k)) := by
  have hfits := fits_double hp (Nat.sub_le Format.double.scale k)
  have hround := Binary.worth_round hfits (Nat.two_pow_pos Format.single.scale)
  have hscale : p * 2 ^ (Format.double.scale - k) * 2 ^ Format.single.scale =
      p * 2 ^ (Format.single.scale - k) * 2 ^ Format.double.scale := by
    have hle := scale_le
    rw [Nat.mul_assoc, Nat.mul_assoc, ← Nat.pow_add, ← Nat.pow_add]
    congr 2
    omega
  simp only [Binary.widen, Binary.convert, hx.isNaN_eq, hx.isInfinite_eq, Bool.false_eq_true,
    if_false, hx.positive, hx.units_eq, Nat.shiftLeft_eq, Nat.one_mul]
  rwa [hscale] at hround

/-- The whole part of a multiple of a ratio. -/
theorem worth_floor_mul {x r : Double} (hx : x.Worth (n * 2 ^ Format.double.scale))
    (hr : r.Worth (p * 2 ^ (Format.double.scale - k))) (hk : k ≤ Format.double.scale)
    (hn : n * p < 2 ^ 53) :
    (x * r).floor.Worth (n * p / 2 ^ k * 2 ^ Format.double.scale) := by
  have hproduct : (x * r).Worth (n * p * 2 ^ (Format.double.scale - k)) := by
    refine hx.mul hr ?_ (fits_double hn (Nat.sub_le _ k))
    rw [Nat.mul_mul_mul_comm, Nat.mul_comm (2 ^ Format.double.scale), ← Nat.mul_assoc]
  refine hproduct.floor ?_ (fits_double ?_ (Nat.le_refl _))
  · have hsplit : 2 ^ Format.double.scale = 2 ^ k * 2 ^ (Format.double.scale - k) := by
      rw [← Nat.pow_add, Nat.add_sub_cancel' hk]
    rw [hsplit, Nat.mul_div_mul_right _ _ (Nat.two_pow_pos _)]
  · exact Nat.lt_of_le_of_lt (Nat.div_le_self _ _) hn

/-- A position in a list is represented exactly. -/
theorem worth_position (hn : n ≤ 2 ^ 32) :
    (Binary.ofNat n : Double).Worth (n * 2 ^ Format.double.scale) :=
  Binary.worth_ofNat (fits_double (by omega) (Nat.le_refl _))

/-- The position behind one is represented exactly. -/
theorem worth_next (hn : n < 2 ^ 32) :
    ((Binary.ofNat n : Double) + 1).Worth ((n + 1) * 2 ^ Format.double.scale) := by
  have hfits := fits_double (k := n + 1) (by omega) (Nat.le_refl Format.double.scale)
  have hone := worth_position (n := 1) (by omega)
  rw [Nat.add_mul] at hfits ⊢
  exact (worth_position (Nat.le_of_lt hn)).add hone hfits

/-- A share of some particles, but not of all. -/
theorem proper_ratio {ratio : Single} (hratio : ratio.Worth (p * 2 ^ (Format.single.scale - k)))
    (hk : k ≤ Format.single.scale) (hp : 0 < p) (hpk : p < 2 ^ k) :
    ¬(1 : Single) ≤ ratio ∧ ¬ratio ≤ (0 : Single) := by
  have hzero : (0 : Single).Worth 0 := by decide
  have hone : (1 : Single).Worth (2 ^ Format.single.scale) := by decide
  rw [hone.le_iff hratio, hratio.le_iff hzero, Nat.not_le, Nat.not_le]
  constructor
  · calc p * 2 ^ (Format.single.scale - k)
      _ < 2 ^ k * 2 ^ (Format.single.scale - k) :=
        Nat.mul_lt_mul_of_pos_right hpk (Nat.two_pow_pos _)
      _ = 2 ^ Format.single.scale := by rw [← Nat.pow_add, Nat.add_sub_cancel' hk]
  · exact Nat.mul_pos hp (Nat.two_pow_pos _)

/-- A ratio `p / 2 ^ k` keeps the particles at which the whole part of the share steps up. -/
theorem keepOnStride_iff {ratio : Single} (hratio : ratio.Worth (p * 2 ^ (Format.single.scale - k)))
    (hk : k ≤ 20) (hp : 0 < p) (hpk : p < 2 ^ k) (ordinal : UInt32) :
    keepOnStride ordinal ratio = true ↔
      ordinal.toNat * p / 2 ^ k < (ordinal.toNat + 1) * p / 2 ^ k := by
  have hscale : 20 ≤ Format.single.scale := by decide
  have hle := scale_le
  have hordinal : ordinal.toNat < 2 ^ 32 := ordinal.toNat_lt
  have hsmall : p < 2 ^ 20 := Nat.lt_of_lt_of_le hpk (Nat.pow_le_pow_right Nat.two_pos hk)
  have hproduct (n : Nat) (hn : n ≤ 2 ^ 32) : n * p < 2 ^ 53 :=
    Nat.lt_of_le_of_lt (Nat.mul_le_mul hn (Nat.le_of_lt hsmall)) (by decide)
  obtain ⟨hsome, hnot_all⟩ := proper_ratio hratio (by omega) hp hpk
  have hr := hratio.widen (by omega) (by omega)
  have hi := worth_position (Nat.le_of_lt hordinal)
  have hfloor := worth_floor_mul hi hr (by omega) (hproduct _ (Nat.le_of_lt hordinal))
  have hfloor' := worth_floor_mul (worth_next hordinal) hr (by omega) (hproduct _ hordinal)
  rw [keepOnStride, if_neg hsome, if_neg hnot_all, decide_eq_true_eq, hfloor.lt_iff hfloor']
  exact Nat.mul_lt_mul_right (Nat.two_pow_pos _)

/-! ## The ratios of the profiles -/

/-- Below the best level the ratio is a number of quarters. -/
theorem worth_keepRatioAt (h : n < 3) :
    (Profile.keepRatioAt n).Worth ((n + 1) * 2 ^ (Format.single.scale - 2)) := by
  match n with
  | 0 | 1 | 2 => decide

/-- What a profile keeps of the particles, a better one keeps too. -/
theorem keepOnStride_mono {low high : Nat} (h : low ≤ high) {ordinal : UInt32}
    (hlow : keepOnStride ordinal (Profile.keepRatioAt low) = true) :
    keepOnStride ordinal (Profile.keepRatioAt high) = true := by
  rcases Nat.lt_or_ge high 3 with hhigh | hhigh
  · rw [keepOnStride_iff (worth_keepRatioAt (by omega)) (by decide) (Nat.succ_pos _)
      (by omega)] at hlow ⊢
    -- One quarter keeps every fourth, two keep every second of these, three all but the first.
    obtain rfl | rfl | rfl : high = 0 ∨ high = 1 ∨ high = 2 := by omega
    all_goals obtain rfl | rfl | rfl : low = 0 ∨ low = 1 ∨ low = 2 := by omega
    all_goals omega
  · obtain ⟨n, rfl⟩ := Nat.exists_eq_add_of_le' hhigh
    exact Culling.keepOnStride_best ordinal n

end

end RenderStream
