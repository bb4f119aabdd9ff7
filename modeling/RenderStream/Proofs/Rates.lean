import Mathlib.Tactic.Ring
import RenderStream.Pipeline
import RenderStream.Proofs.Exact

/-!
# Rates of counts

A rate is a quotient of two counts, and there are three roundings in it: both counts become floats
before they are divided. Each of them moves a number by one magnitude at most
(`Format.units_nearest_bounds`), and rounding a quotient is monotone (`Format.nearest_le_of_cross`).
So a rate does not fall with more hits as long as all counts are floats themselves
(`shareMagnitude_le_of_le`); beyond that it may, but only by a few magnitudes
(`shareMagnitude_le_add_nine`). All of this supposes that the sum of hits and misses fits its
counter: a sum that does not starts anew at zero (`Record.ratio`).
-/

namespace RenderStream

namespace Format

variable {f : Format} {num num' den den' k m n : Nat}

/-! ## Quotients -/

/-- A greater quotient is not rounded to less. -/
theorem nearest_le_of_cross (h : num * den' ≤ num' * den) (hden : 0 < den) (hden' : 0 < den') :
    f.nearest num den ≤ f.nearest num' den' := by
  rw [← nearest_mul_mul num den hden', ← nearest_mul_mul num' den' hden, Nat.mul_comm den' den]
  exact nearest_mono h (Nat.mul_pos hden hden')

/-! ## Neighbours -/

/-- From one magnitude to the next the significand grows by one. -/
theorem units_succ (hm : 2 ^ f.fraction ≤ m) :
    ∃ k e, f.units m = k * 2 ^ e ∧ f.units (m + 1) = (k + 1) * 2 ^ e ∧ 2 ^ f.fraction ≤ k ∧
      k < 2 ^ (f.fraction + 1) := by
  rcases f.units_cases m with ⟨hlt, -⟩ | ⟨k, e, hpattern, hunits, hk, hk'⟩
  · omega
  · refine ⟨k, e, hunits, ?_, hk, hk'⟩
    rcases Nat.lt_or_eq_of_le (Nat.succ_le_of_lt hk') with hlt | heq
    · rw [hpattern, Nat.add_assoc, units_pattern (by omega) hlt]
    · -- The significand is full, and the next one is half of it with another power of two.
      have hnext : m + 1 = (e + 1) * 2 ^ f.fraction + 2 ^ f.fraction := by
        rw [Nat.pow_succ] at heq
        rw [hpattern, Nat.succ_mul]
        omega
      rw [hnext, units_pattern (Nat.le_refl _) (by omega), ← Nat.succ_eq_add_one k, heq,
        Nat.pow_succ, Nat.pow_succ, Nat.mul_assoc, Nat.mul_comm 2]

/-- From one pattern to the next a float of full precision grows by one part in `2 ^ fraction` at
most. -/
theorem units_succ_le (hm : 2 ^ f.fraction ≤ m) :
    f.units (m + 1) * 2 ^ f.fraction ≤ f.units m * (2 ^ f.fraction + 1) := by
  obtain ⟨k, e, hunits, hunits', hk, -⟩ := units_succ hm
  rw [hunits, hunits', Nat.mul_right_comm, Nat.mul_right_comm k]
  refine Nat.mul_le_mul_right _ ?_
  rw [Nat.succ_mul, Nat.mul_succ]
  omega

/-- From one pattern to the next a float grows by one part in `2 ^ (fraction + 1)` at least. -/
theorem units_le_succ (hm : 2 ^ f.fraction ≤ m) :
    f.units m * (2 ^ (f.fraction + 1) + 1) ≤ f.units (m + 1) * 2 ^ (f.fraction + 1) := by
  obtain ⟨k, e, hunits, hunits', -, hk'⟩ := units_succ hm
  rw [hunits, hunits', Nat.mul_right_comm, Nat.mul_right_comm (k + 1)]
  refine Nat.mul_le_mul_right _ ?_
  rw [Nat.succ_mul, Nat.mul_succ]
  omega

/-- Over `j` patterns a float grows at least like that many such parts in a row. -/
theorem units_le_add (hm : 2 ^ f.fraction ≤ m) (j : Nat) :
    f.units m * (2 ^ (f.fraction + 1) + 1) ^ j ≤ f.units (m + j) * (2 ^ (f.fraction + 1)) ^ j := by
  induction j with
  | zero => exact Nat.le_refl _
  | succ j ih =>
    have hnext := units_le_succ (f := f) (m := m + j) (by omega)
    generalize 2 ^ (f.fraction + 1) = p at ih hnext ⊢
    calc f.units m * (p + 1) ^ (j + 1)
      _ = f.units m * (p + 1) ^ j * (p + 1) := by rw [Nat.pow_succ, Nat.mul_assoc]
      _ ≤ f.units (m + j) * p ^ j * (p + 1) := Nat.mul_le_mul_right _ ih
      _ = f.units (m + j) * (p + 1) * p ^ j := Nat.mul_right_comm _ _ _
      _ ≤ f.units (m + j + 1) * p * p ^ j := Nat.mul_le_mul_right _ hnext
      _ = f.units (m + (j + 1)) * p ^ (j + 1) := by
        rw [Nat.mul_assoc, ← Nat.pow_succ', Nat.add_assoc]

/-- What a quotient is rounded to lies next to it. -/
theorem lt_units_nearest_succ (hden : 0 < den) (hfinite : f.nearest num den < f.infinity) :
    num < f.units (f.nearest num den + 1) * den := by
  by_contra hge
  have hmono := nearest_mono (f := f) (Nat.not_lt.1 hge) hden
  rw [nearest_mul_self _ hden, nearest_units hfinite] at hmono
  omega

/-- The pattern before the nearest one is too small for the quotient. -/
theorem units_pred_nearest_lt (hden : 0 < den) (h : f.nearest num den = m + 1) :
    f.units m * den < num := by
  by_contra hge
  have hmono := nearest_mono (f := f) (Nat.not_lt.1 hge) hden
  have hm : m ≤ f.infinity := by
    have hle := f.nearest_le_infinity num den
    omega
  rw [nearest_mul_self _ hden, nearest_units hm] at hmono
  omega

/-- Rounding moves a quotient by one magnitude at most. -/
theorem units_nearest_bounds (hden : 0 < den) (hnormal : 2 ^ f.fraction < f.nearest num den)
    (hfinite : f.nearest num den < f.infinity) :
    f.units (f.nearest num den) * den * 2 ^ f.fraction ≤ num * (2 ^ f.fraction + 1) ∧
      num * 2 ^ f.fraction ≤ f.units (f.nearest num den) * den * (2 ^ f.fraction + 1) := by
  obtain ⟨m, hm⟩ := Nat.exists_eq_succ_of_ne_zero (Nat.ne_zero_of_lt hnormal)
  have hbelow := units_pred_nearest_lt hden hm
  have habove := lt_units_nearest_succ hden hfinite
  have hstep := units_succ_le (f := f) (m := m) (by omega)
  have hstep' := units_succ_le (f := f) (m := m + 1) (by omega)
  rw [hm] at habove ⊢
  constructor
  · calc f.units (m + 1) * den * 2 ^ f.fraction
      _ = f.units (m + 1) * 2 ^ f.fraction * den := Nat.mul_right_comm _ _ _
      _ ≤ f.units m * (2 ^ f.fraction + 1) * den := Nat.mul_le_mul_right _ hstep
      _ = f.units m * den * (2 ^ f.fraction + 1) := Nat.mul_right_comm _ _ _
      _ ≤ num * (2 ^ f.fraction + 1) := Nat.mul_le_mul_right _ (Nat.le_of_lt hbelow)
  · calc num * 2 ^ f.fraction
      _ ≤ f.units (m + 1 + 1) * den * 2 ^ f.fraction :=
        Nat.mul_le_mul_right _ (Nat.le_of_lt habove)
      _ = f.units (m + 1 + 1) * 2 ^ f.fraction * den := Nat.mul_right_comm _ _ _
      _ ≤ f.units (m + 1) * (2 ^ f.fraction + 1) * den := Nat.mul_le_mul_right _ hstep'
      _ = f.units (m + 1) * den * (2 ^ f.fraction + 1) := Nat.mul_right_comm _ _ _

end Format

/-! ## Counts as floats -/

/-- Floats that are worth whole numbers are divided by rounding the quotient of these. -/
theorem Binary.Worth.div {f : Format} {x y : Binary f} {a b : Nat} (hx : x.Worth a)
    (hy : y.Worth b) (hb : 0 < b) : x / y = round false (a * 2 ^ f.scale) b := by
  have hmagnitude : y.magnitude ≠ 0 := fun hzero => by
    have hunits := hy.units_eq
    rw [hzero, f.units_zero] at hunits
    omega
  change Binary.div x y = _
  simp only [Binary.div, hx.isNaN_eq, hy.isNaN_eq, hx.isInfinite_eq, hy.isInfinite_eq, hx.positive,
    hy.positive, hx.units_eq, hy.units_eq, hmagnitude, Bool.or_self, Bool.false_eq_true, if_false,
    bne_self_eq_false, Nat.shiftLeft_eq]

/-- Floats that are not negative are ordered by their patterns. -/
theorem Binary.build_le_build {f : Format} {a b : Nat} (ha : a ≤ f.infinity) (hb : b ≤ f.infinity) :
    (build false a : Binary f) ≤ build false b ↔ a ≤ b := by
  have ha' := Nat.lt_of_le_of_lt ha (infinity_lt f)
  have hb' := Nat.lt_of_le_of_lt hb (infinity_lt f)
  rw [Binary.le_iff, isNaN_eq_false, isNaN_eq_false, magnitude_build ha', magnitude_build hb',
    key_build ha', key_build hb']
  simp [signed, ha, hb]

section
variable {a a' b b' x x' y y' p m n : Nat}

/-- What the float of a count is worth. -/
def weight (n : Nat) : Nat := Format.single.units (Format.single.nearest (n * 2 ^ 149) 1)

/-- The float of a count of 32 bits is finite. -/
theorem count_lt_infinity (hn : n < 2 ^ 32) :
    Format.single.nearest (n * 2 ^ 149) 1 < Format.single.infinity := by
  have hgreatest : Format.single.nearest (2 ^ 32 * 2 ^ 149) 1 < Format.single.infinity := by
    decide
  exact Nat.lt_of_le_of_lt
    (Format.nearest_mono (Nat.mul_le_mul_right _ (Nat.le_of_lt hn)) Nat.one_pos) hgreatest

/-- The float of a count has full precision. -/
theorem count_gt_normal (hn : 0 < n) :
    2 ^ Format.single.fraction < Format.single.nearest (n * 2 ^ 149) 1 := by
  have hone : 2 ^ Format.single.fraction < Format.single.nearest (1 * 2 ^ 149) 1 := by
    decide
  exact Nat.lt_of_lt_of_le hone (Format.nearest_mono (Nat.mul_le_mul_right _ hn) Nat.one_pos)

/-- The float of a count is worth its weight. -/
theorem worth_count (hn : n < 2 ^ 32) : (Binary.ofNat n : Single).Worth (weight n) := by
  have hcount : (Binary.ofNat n : Single) = Binary.round false (n * 2 ^ 149) 1 := by
    rw [Binary.ofNat, Binary.ofInt, Binary.ofRatio, Int.natAbs_natCast, Nat.shiftLeft_eq,
      decide_eq_false (Int.not_lt.2 (Int.natCast_nonneg n))]
    rfl
  have hmagnitude := Binary.magnitude_build (Binary.nearest_lt .single (n * 2 ^ 149) 1) false
  refine ⟨Binary.isFinite_iff.2 ?_, ?_, ?_⟩
  · rw [hcount, Binary.round, hmagnitude]
    exact count_lt_infinity hn
  · rw [hcount, Binary.round, Binary.negative_build (Binary.nearest_lt _ _ _)]
  · rw [hcount, Binary.round, hmagnitude, weight]

/-- A greater count has no smaller weight. -/
theorem weight_mono (h : m ≤ n) (hn : n < 2 ^ 32) : weight m ≤ weight n :=
  (Format.units_le_iff (Nat.le_of_lt (count_lt_infinity (by omega)))
    (Nat.le_of_lt (count_lt_infinity hn))).2
      (Format.nearest_mono (Nat.mul_le_mul_right _ h) Nat.one_pos)

/-- Nothing weighs nothing. -/
theorem weight_zero : weight 0 = 0 := by decide

/-- A count that is not zero weighs as much as one at least. -/
theorem le_weight (hpos : 0 < n) (hn : n < 2 ^ 32) : 2 ^ 149 ≤ weight n := by
  have hone : weight 1 = 2 ^ 149 := by decide
  rw [← hone]
  exact weight_mono hpos hn

/-- No count of 32 bits weighs more than the greatest one. -/
theorem weight_le (hn : n < 2 ^ 32) : weight n ≤ 2 ^ 181 := by
  have hgreatest : weight (2 ^ 32 - 1) = 2 ^ 181 := by decide
  rw [← hgreatest]
  exact weight_mono (by omega) (by decide)

/-- Counts up to this one are floats themselves. -/
theorem weight_of_le (hn : n ≤ 2 ^ 24) : weight n = n * 2 ^ 149 := by
  rcases Nat.lt_or_eq_of_le hn with hlt | rfl
  · exact (Format.fits_mul_pow hlt (by decide : 149 + 3 ≤ _)).exact.1
  · decide

/-- The weight of a count is off by one part in `2 ^ 23` at most. -/
theorem weight_bounds (hpos : 0 < n) (hn : n < 2 ^ 32) :
    weight n * 2 ^ 23 ≤ n * 2 ^ 149 * (2 ^ 23 + 1) ∧
      n * 2 ^ 149 * 2 ^ 23 ≤ weight n * (2 ^ 23 + 1) := by
  have hbounds := Format.units_nearest_bounds Nat.one_pos (count_gt_normal hpos)
    (count_lt_infinity hn)
  rwa [Nat.mul_one] at hbounds

/-! ## Quotients of counts -/

/-- Four numbers that are off by a factor, and the quotients of two pairs of them. -/
theorem cross_bounds (hx : x * p ≤ a * (p + 1)) (hy : b * p ≤ y * (p + 1))
    (hx' : a' * p ≤ x' * (p + 1)) (hy' : y' * p ≤ b' * (p + 1)) (h : a * b' ≤ a' * b) :
    x * y' * p ^ 4 ≤ x' * y * (p + 1) ^ 4 :=
  calc x * y' * p ^ 4
    _ = x * p * (y' * p) * p ^ 2 := by ring
    _ ≤ a * (p + 1) * (b' * (p + 1)) * p ^ 2 :=
      Nat.mul_le_mul_right _ (Nat.mul_le_mul hx hy')
    _ = a * b' * (p ^ 2 * (p + 1) ^ 2) := by ring
    _ ≤ a' * b * (p ^ 2 * (p + 1) ^ 2) := Nat.mul_le_mul_right _ h
    _ = a' * p * (b * p) * (p + 1) ^ 2 := by ring
    _ ≤ x' * (p + 1) * (y * (p + 1)) * (p + 1) ^ 2 :=
      Nat.mul_le_mul_right _ (Nat.mul_le_mul hx' hy)
    _ = x' * y * (p + 1) ^ 4 := by ring

/-- Two quotients are not further apart than the factors they are off by. -/
theorem quotients_near {one q u v : Nat} (hlow : v * x < a * one) (hhigh : b * one < u * y)
    (hcross : a * y * p ≤ b * x * q) (hy : 0 < y) (hp : 0 < p) : v * p < u * q := by
  refine Nat.lt_of_mul_lt_mul_right (a := x * y) ?_
  calc v * p * (x * y)
    _ = v * x * (y * p) := by ring
    _ < a * one * (y * p) := Nat.mul_lt_mul_of_pos_right hlow (Nat.mul_pos hy hp)
    _ = a * y * p * one := by ring
    _ ≤ b * x * q * one := Nat.mul_le_mul_right _ hcross
    _ = b * one * (x * q) := by ring
    _ ≤ u * y * (x * q) := Nat.mul_le_mul_right _ (Nat.le_of_lt hhigh)
    _ = u * q * (x * y) := by ring

/-- Eight magnitudes make up for four such factors. -/
theorem units_le_add_eight (hm : 2 ^ 23 ≤ m) :
    Format.single.units m * (2 ^ 23 + 1) ^ 4 ≤ Format.single.units (m + 8) * (2 ^ 23) ^ 4 := by
  have height := Format.units_le_add (f := .single) hm 8
  have hfactor : (2 ^ 24) ^ 8 * (2 ^ 23 + 1) ^ 4 ≤ (2 ^ 24 + 1) ^ 8 * (2 ^ 23) ^ 4 := by
    decide
  refine Nat.le_of_mul_le_mul_right (c := (2 ^ 24) ^ 8) ?_ (by decide)
  generalize Format.single.units m = u at height ⊢
  generalize Format.single.units (m + 8) = v at height ⊢
  calc u * (2 ^ 23 + 1) ^ 4 * (2 ^ 24) ^ 8
    _ = u * ((2 ^ 24) ^ 8 * (2 ^ 23 + 1) ^ 4) := by rw [Nat.mul_assoc, Nat.mul_comm (_ ^ 4)]
    _ ≤ u * ((2 ^ 24 + 1) ^ 8 * (2 ^ 23) ^ 4) := Nat.mul_le_mul_left _ hfactor
    _ = u * (2 ^ 24 + 1) ^ 8 * (2 ^ 23) ^ 4 := by rw [Nat.mul_assoc]
    _ ≤ v * (2 ^ 24) ^ 8 * (2 ^ 23) ^ 4 := Nat.mul_le_mul_right _ height
    _ = v * (2 ^ 23) ^ 4 * (2 ^ 24) ^ 8 := Nat.mul_right_comm _ _ _

/-- The magnitude of the quotient of two counts. -/
def shareMagnitude (part whole : Nat) : Nat :=
  Format.single.nearest (weight part * 2 ^ 149) (weight whole)

/-- The whole is one. -/
theorem shareMagnitude_self (hpos : 0 < n) (hn : n < 2 ^ 32) : shareMagnitude n n = 0x3f800000 := by
  have hweight : 0 < weight n := Nat.lt_of_lt_of_le (Nat.two_pow_pos 149) (le_weight hpos hn)
  rw [shareMagnitude, Nat.mul_comm, Format.nearest_mul_self _ hweight]
  decide

/-- A greater part has no smaller share. -/
theorem shareMagnitude_mono {part part' : Nat} (h : part ≤ part') (hpart' : part' < 2 ^ 32)
    (hpos : 0 < n) (hn : n < 2 ^ 32) : shareMagnitude part n ≤ shareMagnitude part' n :=
  Format.nearest_mono (Nat.mul_le_mul_right _ (weight_mono h hpart'))
    (Nat.lt_of_lt_of_le (Nat.two_pow_pos 149) (le_weight hpos hn))

/-- A part of a count that is not zero is not rounded to zero, nor near it. -/
theorem normal_lt_shareMagnitude (hpos : 0 < m) (hm : m < 2 ^ 32) (hpos' : 0 < n)
    (hn : n < 2 ^ 32) : 2 ^ 23 < shareMagnitude m n := by
  have hleast : 2 ^ 23 < Format.single.nearest (2 ^ 117) 1 := by decide
  refine Nat.lt_of_lt_of_le hleast (Format.nearest_le_of_cross ?_ Nat.one_pos ?_)
  · calc 2 ^ 117 * weight n
      _ ≤ 2 ^ 117 * 2 ^ 181 := Nat.mul_le_mul_left _ (weight_le hn)
      _ = 2 ^ 149 * 2 ^ 149 := by decide
      _ ≤ weight m * 2 ^ 149 * 1 := by
        rw [Nat.mul_one]
        exact Nat.mul_le_mul_right _ (le_weight hpos hm)
  · exact Nat.lt_of_lt_of_le (Nat.two_pow_pos 149) (le_weight hpos' hn)

/-- A greater quotient of counts that are floats themselves is not rounded to less. -/
theorem shareMagnitude_le_of_le (h : m * y ≤ n * x) (hm : m ≤ 2 ^ 24) (hn : n ≤ 2 ^ 24)
    (hx : 0 < x) (hx' : x ≤ 2 ^ 24) (hy : 0 < y) (hy' : y ≤ 2 ^ 24) :
    shareMagnitude m x ≤ shareMagnitude n y := by
  unfold shareMagnitude
  rw [weight_of_le hm, weight_of_le hn, weight_of_le hx', weight_of_le hy']
  refine Format.nearest_le_of_cross ?_ (Nat.mul_pos hx (by decide)) (Nat.mul_pos hy (by decide))
  generalize 2 ^ 149 = one
  calc m * one * one * (y * one)
    _ = m * y * (one * one * one) := by ring
    _ ≤ n * x * (one * one * one) := Nat.mul_le_mul_right _ h
    _ = n * one * one * (x * one) := by ring

/-- A greater quotient of any counts may be rounded to less, but only by nine magnitudes: rounding
the four counts makes up for eight at most, and rounding the quotient for one. -/
theorem shareMagnitude_le_add_nine (h : m * y ≤ n * x) (hm : m < 2 ^ 32) (hn : 0 < n) (hny : n ≤ y)
    (hx : 0 < x) (hx' : x < 2 ^ 32) (hy' : y < 2 ^ 32) :
    shareMagnitude m x ≤ shareMagnitude n y + 9 := by
  rcases Nat.eq_zero_or_pos m with rfl | hpos
  · have hzero : shareMagnitude 0 x = 0 := by
      rw [shareMagnitude, weight_zero, Nat.zero_mul]
      exact Binary.nearest_zero_div _ (Nat.lt_of_lt_of_le (by decide) (le_weight hx hx'))
    omega
  by_contra hgt
  have hy : 0 < y := Nat.lt_of_lt_of_le hn hny
  have hweight : 0 < weight x := Nat.lt_of_lt_of_le (by decide) (le_weight hx hx')
  have hweight' : 0 < weight y := Nat.lt_of_lt_of_le (by decide) (le_weight hy hy')
  have hnormal := normal_lt_shareMagnitude hn (by omega) hy hy'
  have hfinite : shareMagnitude n y < Format.single.infinity := by
    refine Nat.lt_of_le_of_lt (shareMagnitude_mono hny hy' hy hy') ?_
    rw [shareMagnitude_self hy hy']
    decide
  have height := units_le_add_eight (m := shareMagnitude n y + 1) (by omega)
  -- The two quotients are this far apart.
  have habove := Format.lt_units_nearest_succ hweight' hfinite
  obtain ⟨below, hbelow⟩ : ∃ k, shareMagnitude m x = k + 1 := ⟨shareMagnitude m x - 1, by omega⟩
  have hbelow' := Format.units_pred_nearest_lt hweight hbelow
  have hmono : Format.single.units (shareMagnitude n y + 1 + 8) ≤ Format.single.units below := by
    have hle := Format.single.nearest_le_infinity (weight m * 2 ^ 149) (weight x)
    rw [← shareMagnitude] at hle
    exact (Format.units_le_iff (by omega) (by omega)).2 (by omega)
  have hquotients : m * 2 ^ 149 * (y * 2 ^ 149) ≤ n * 2 ^ 149 * (x * 2 ^ 149) := by
    rw [Nat.mul_mul_mul_comm, Nat.mul_mul_mul_comm n]
    exact Nat.mul_le_mul_right _ h
  have hcross := cross_bounds (weight_bounds hpos hm).1 (weight_bounds hx hx').2
    (weight_bounds hn (by omega)).2 (weight_bounds hy hy').1 hquotients
  have hnear := quotients_near hbelow' habove hcross hweight' (by decide)
  exact Nat.not_lt.2 (Nat.le_trans height (Nat.mul_le_mul_right _ hmono)) hnear

/-! ## Shares -/

/-- A share is the float of its magnitude, and of nothing it is zero. -/
theorem share_eq (part whole : UInt32) : share part whole =
    .build false (if whole = 0 then 0 else shareMagnitude part.toNat whole.toNat) := by
  unfold share
  split
  · decide
  · next hwhole =>
    have hpos : 0 < whole.toNat :=
      Nat.pos_of_ne_zero fun hzero => hwhole (UInt32.toNat_inj.1 hzero)
    rw [(worth_count part.toNat_lt).div (worth_count whole.toNat_lt)
      (Nat.lt_of_lt_of_le (by decide) (le_weight hpos whole.toNat_lt))]
    rfl

end

namespace Record

/-- The rate that is published of so many hits and misses. -/
def rateOf (hits misses : Nat) : Single :=
  hitRate { listHits := Pipeline.saturate hits, listMisses := Pipeline.saturate misses }

/-- The rate in a record is the rate of the frame's hits and misses. -/
theorem hitRate_recordOf {η : Type} [Host η] (p : Pipeline η) (frame : Frame) (presented : Bool)
    (time overdraw : Single) : (p.recordOf frame presented time overdraw).hitRate =
      rateOf p.lists.frame.hits p.lists.frame.misses := rfl

/-- The greatest count up to a number that a record can hold. -/
def capped (n : Nat) : Nat := min n (2 ^ 32 - 1)

/-- A saturated count is the count capped. -/
theorem toNat_saturate (n : Nat) : (Pipeline.saturate n).toNat = capped n :=
  UInt32.toNat_ofNat_of_lt' (Nat.lt_of_le_of_lt (Nat.min_le_right _ _) (by decide))

/-- The magnitude of the rate of hits: hits over the sum of both counts, as far as that fits. -/
def ratio (h m : Nat) : Nat :=
  if (h + m) % 2 ^ 32 = 0 then 0 else shareMagnitude h ((h + m) % 2 ^ 32)

/-- The rate is the float of the ratio of the capped counts. -/
theorem rateOf_eq (hits misses : Nat) :
    rateOf hits misses = .build false (ratio (capped hits) (capped misses)) := by
  have hsum : (Pipeline.saturate hits + Pipeline.saturate misses).toNat =
      (capped hits + capped misses) % 2 ^ 32 := by
    rw [UInt32.toNat_add, toNat_saturate, toNat_saturate]
  have hzero : Pipeline.saturate hits + Pipeline.saturate misses = 0 ↔
      (capped hits + capped misses) % 2 ^ 32 = 0 := by
    rw [← hsum]
    exact UInt32.toNat_inj.symm
  simp only [rateOf, hitRate, share_eq, hsum, hzero, toNat_saturate, ratio]

section
variable {h h' m : Nat}

/-- A ratio is a number. -/
theorem ratio_le_infinity (h m : Nat) : ratio h m ≤ Format.single.infinity := by
  unfold ratio
  split
  · exact Nat.zero_le _
  · exact Format.nearest_le_infinity _ _ _

/-- Rates are ordered by their ratios. -/
theorem key_build_ratio (h m : Nat) :
    (Binary.build false (ratio h m) : Single).key = ratio h m :=
  Binary.key_build (Nat.lt_of_le_of_lt (ratio_le_infinity h m) (Binary.infinity_lt .single)) false

/-- Counts whose sum fits have the share of the hits as their ratio. -/
theorem ratio_of_fits (hfits : h + m < 2 ^ 32) (hpos : 0 < h + m) :
    ratio h m = shareMagnitude h (h + m) := by
  rw [ratio, Nat.mod_eq_of_lt hfits, if_neg (by omega)]

/-- Without a hit the ratio is zero. -/
theorem ratio_zero (m : Nat) : ratio 0 m = 0 := by
  unfold ratio
  split
  · rfl
  · next hsum =>
    rw [shareMagnitude, weight_zero, Nat.zero_mul]
    exact Binary.nearest_zero_div _ (Nat.lt_of_lt_of_le (by decide)
      (le_weight (Nat.pos_of_ne_zero hsum) (Nat.mod_lt _ (by decide))))

/-- With a hit the ratio is not zero. -/
theorem ratio_pos (hpos : 0 < h) (hfits : h + m < 2 ^ 32) : 0 < ratio h m := by
  rw [ratio_of_fits hfits (by omega)]
  have hnormal := normal_lt_shareMagnitude (n := h + m) hpos (by omega) (by omega) hfits
  omega

/-- Counts whose sum fits have a ratio of one at most. -/
theorem ratio_le_one (hfits : h + m < 2 ^ 32) : ratio h m ≤ 0x3f800000 := by
  rcases Nat.eq_zero_or_pos h with rfl | hpos
  · rw [ratio_zero]
    exact Nat.zero_le _
  · rw [ratio_of_fits hfits (by omega), ← shareMagnitude_self (n := h + m) (by omega) hfits]
    exact shareMagnitude_mono (Nat.le_add_right h m) hfits (by omega) hfits

/-- A sum that does not fit has become less than the hits. -/
theorem one_le_ratio (hh : h < 2 ^ 32) (hm : m < 2 ^ 32) (hover : 2 ^ 32 < h + m) :
    0x3f800000 ≤ ratio h m := by
  have hsum : (h + m) % 2 ^ 32 = h + m - 2 ^ 32 := by omega
  rw [ratio, hsum, if_neg (by omega),
    ← shareMagnitude_self (n := h + m - 2 ^ 32) (by omega) (by omega)]
  exact shareMagnitude_mono (by omega) hh (by omega) (by omega)

/-- With counts that floats hold exactly, more hits make no smaller ratio. -/
theorem ratio_mono (hle : h ≤ h') (hsmall : h' + m ≤ 2 ^ 24) : ratio h m ≤ ratio h' m := by
  rcases Nat.eq_zero_or_pos h with rfl | hpos
  · rw [ratio_zero]
    exact Nat.zero_le _
  · rw [ratio_of_fits (by omega) (by omega), ratio_of_fits (by omega) (by omega)]
    refine shareMagnitude_le_of_le ?_ (by omega) (by omega) (by omega) (by omega) (by omega) hsmall
    rw [Nat.mul_add, Nat.mul_add, Nat.mul_comm h' h]
    exact Nat.add_le_add_left (Nat.mul_le_mul_right m hle) _

/-- With counts whose sum fits, more hits make a ratio smaller by nine steps of precision at
most. -/
theorem ratio_le_add_nine (hle : h ≤ h') (hfits : h' + m < 2 ^ 32) :
    ratio h m ≤ ratio h' m + 9 := by
  rcases Nat.eq_zero_or_pos h with rfl | hpos
  · rw [ratio_zero]
    exact Nat.zero_le _
  · rw [ratio_of_fits (by omega) (by omega), ratio_of_fits hfits (by omega)]
    refine shareMagnitude_le_add_nine ?_ (by omega) (by omega) (Nat.le_add_right _ _) (by omega)
      (by omega) hfits
    rw [Nat.mul_add, Nat.mul_add, Nat.mul_comm h' h]
    exact Nat.add_le_add_left (Nat.mul_le_mul_right m hle) _

end

/-- The rate of hits that is published for any two counts. If the sum of both, capped each, fits 32
bits, the rate lies between zero and one, and only no hits at all make it zero. If not, the sum
starts anew: the rate is zero where it comes out at zero, and not below one elsewhere. With more
hits the rate does not fall while the sum is at most `2 ^ 24`, and by nine magnitudes at most while
it fits. -/
theorem rateOf_bounds (hits misses : Nat) :
    (capped hits + capped misses < 2 ^ 32 →
      0 ≤ rateOf hits misses ∧ rateOf hits misses ≤ 1 ∧ (rateOf hits misses = 0 ↔ hits = 0)) ∧
      (capped hits + capped misses = 2 ^ 32 → rateOf hits misses = 0) ∧
      (2 ^ 32 < capped hits + capped misses → 1 ≤ rateOf hits misses) ∧
      ∀ more, hits ≤ more →
        (more + misses ≤ 2 ^ 24 → rateOf hits misses ≤ rateOf more misses) ∧
          (capped more + capped misses < 2 ^ 32 →
            (rateOf hits misses).key ≤ (rateOf more misses).key + 9) := by
  have hbound := ratio_le_infinity
  have hzero : (0 : Single) = .build false 0 := by decide
  have hone : (1 : Single) = .build false 0x3f800000 := by decide
  have hone' : 0x3f800000 ≤ Format.single.infinity := by decide
  have hcap (n : Nat) : capped n < 2 ^ 32 := Nat.lt_of_le_of_lt (Nat.min_le_right _ _) (by decide)
  have hcap_mono {m n : Nat} (h : m ≤ n) : capped m ≤ capped n := by
    unfold capped
    omega
  simp only [rateOf_eq]
  refine ⟨fun hfits => ⟨?_, ?_, ?_⟩, fun hsum => ?_, fun hover => ?_, fun more hmore => ⟨?_, ?_⟩⟩
  · rw [hzero, Binary.build_le_build (Nat.zero_le _) (hbound _ _)]
    exact Nat.zero_le _
  · rw [hone, Binary.build_le_build (hbound _ _) hone']
    exact ratio_le_one hfits
  · constructor
    · intro h0
      by_contra hhits
      have hpos : 0 < capped hits := Nat.lt_min.2 ⟨Nat.pos_of_ne_zero hhits, by decide⟩
      have hkey := congrArg Binary.key (h0.trans hzero)
      rw [key_build_ratio, Binary.key_build (by decide)] at hkey
      have hratio := ratio_pos hpos hfits
      simp only [Binary.signed] at hkey
      omega
    · rintro rfl
      rw [hzero, capped, Nat.zero_min, ratio_zero]
  · rw [hzero, ratio, hsum, Nat.mod_self, if_pos rfl]
  · rw [hone, Binary.build_le_build hone' (hbound _ _)]
    exact one_le_ratio (hcap _) (hcap _) hover
  · intro hsmall
    rw [Binary.build_le_build (hbound _ _) (hbound _ _)]
    refine ratio_mono (hcap_mono hmore) ?_
    exact Nat.le_trans (Nat.add_le_add (Nat.min_le_left _ _) (Nat.min_le_left _ _)) hsmall
  · intro hfits
    rw [key_build_ratio, key_build_ratio]
    exact_mod_cast ratio_le_add_nine (hcap_mono hmore) hfits

/-- Three hits and a miss, one hit more, and two counts whose sum is too large. -/
theorem rateOf_bounds_demo :
    rateOf 3 1 = 0.75 ∧ rateOf 3 1 ≤ rateOf 4 1 ∧ (rateOf 3 1).key ≤ (rateOf 4 1).key + 9 ∧
      1 ≤ rateOf (2 ^ 40) (2 ^ 40) := by
  obtain ⟨hsmall, hfits⟩ := (rateOf_bounds 3 1).2.2.2 4 (by decide)
  exact ⟨by decide, hsmall (by decide), hfits (by decide),
    (rateOf_bounds (2 ^ 40) (2 ^ 40)).2.2.1 (by decide)⟩

/-- The float of a count may stay while the float of the sum grows: the rate falls with one more
hit. And a sum of one may be left over of all hits there can be. -/
theorem rateOf_falls :
    (¬∀ hits misses more, hits ≤ more → rateOf hits misses ≤ rateOf more misses) ∧
      ¬∀ hits misses, rateOf hits misses ≤ 1 := by
  constructor
  · intro h
    have hfalls := h (2 ^ 24) 1 (2 ^ 24 + 1) (by decide)
    revert hfalls
    decide
  · intro h
    have hone := h (2 ^ 32 - 1) 2
    revert hone
    decide

end Record

end RenderStream
