import Mathlib.Algebra.Group.Int.Defs
import RenderStream.Proofs.Stride

/-!
# Sums and means that are not rounded

Widening loses nothing (`Binary.exact_widen`), and a sum is not rounded as long as it fits the
significand. That is so of numbers on a grid (`Binary.OnGrid`): whole numbers of one unit, a power
of two, that are few enough. The float of an exact sum (`Binary.ofUnits`) then stays the float of
the exact sum, whether a number is added or taken off (`Binary.ofUnits_add`, `Binary.ofUnits_sub`).
A mean is rounded twice, to 64 bits and to 32, but since rounding is monotone it stays between any
bounds of its terms (`Binary.mean_between`).
-/

namespace RenderStream

namespace Format

variable {f : Format} {m n k e : Nat}

/-- Two to this power is how many smallest positive 64-bit numbers make the smallest 32-bit one. -/
def refinement : Nat := double.scale - single.scale

/-- A double has so many more bits behind the point than a single. -/
theorem refinement_add : refinement + single.scale = double.scale := Nat.sub_add_cancel scale_le

/-- Refining and counting in the units of a single is counting in those of a double. -/
theorem mul_refinement (n : Nat) :
    n * 2 ^ refinement * 2 ^ single.scale = n * 2 ^ double.scale := by
  rw [Nat.mul_assoc, ← Nat.pow_add, refinement_add]

/-- The units of a 32-bit float are units of a 64-bit one. -/
theorem refinement_add_lt (he : e + 3 ≤ 2 ^ single.exponent) :
    e + refinement + 3 ≤ 2 ^ double.exponent := by
  have hrefinement : refinement + 2 ^ single.exponent ≤ 2 ^ double.exponent := by decide
  omega

/-- A multiple of a power of two that is not too large has zeros for all digits that do not fit. -/
theorem fits_of_dvd (he : e + 3 ≤ 2 ^ f.exponent) (hn : 2 ^ e ∣ n)
    (hlt : n < 2 ^ (f.fraction + 1 + e)) : f.Fits n := by
  obtain ⟨k, rfl⟩ := hn
  rw [Nat.pow_add, Nat.mul_comm (2 ^ (f.fraction + 1))] at hlt
  rw [Nat.mul_comm]
  exact fits_mul_pow (Nat.lt_of_mul_lt_mul_left hlt) he

/-- What a finite 32-bit float is worth fits 64 bits. -/
theorem fits_refined (hm : m < single.infinity) :
    double.Fits (single.units m * 2 ^ refinement) := by
  have hwidth : 2 ^ (single.fraction + 1) ≤ 2 ^ (double.fraction + 1) := by decide
  rcases single.units_cases m with ⟨hsmall, hunits⟩ | ⟨k, e, rfl, hunits, hk, hk'⟩
  · have hrefinement : refinement + 3 ≤ 2 ^ double.exponent := by decide
    rw [hunits]
    exact fits_mul_pow (Nat.lt_trans hsmall (by decide)) hrefinement
  · -- The power of two is below the exponent field of infinity.
    have he : (e + 1) * 2 ^ single.fraction < (2 ^ single.exponent - 1) * 2 ^ single.fraction := by
      rw [← infinity_eq, Nat.succ_mul]
      omega
    have he' := Nat.lt_of_mul_lt_mul_right he
    rw [hunits, Nat.mul_assoc, ← Nat.pow_add]
    exact fits_mul_pow (Nat.lt_of_lt_of_le hk' hwidth) (refinement_add_lt (by omega))

end Format

namespace Binary

variable {f : Format} {x y : Binary f} {a b : Int} {n den e bound : Nat} {s : Bool}

/-! ## Exact values -/

/-- A sign goes in front of a product. -/
theorem signed_mul (s : Bool) (n m : Nat) : signed s (n * m) = signed s n * m := by
  cases s with
  | false => exact Int.natCast_mul n m
  | true => exact (congrArg Neg.neg (Int.natCast_mul n m)).trans (Int.neg_mul _ _).symm

/-- A number that fits is the exact value of the float nearest to it. -/
theorem exact_round (h : f.Fits n) (hden : 0 < den) (s : Bool) :
    (round s (n * den) den : Binary f).isFinite = true ∧
      (round s (n * den) den : Binary f).negative = s ∧
      f.units (round s (n * den) den : Binary f).magnitude = n := by
  obtain ⟨hunits, hfinite⟩ := h.exact
  rw [isFinite_iff, round, negative_build (nearest_lt f _ _), magnitude_build (nearest_lt f _ _),
    Format.nearest_mul_self n hden]
  exact ⟨hfinite, rfl, hunits⟩

/-- Widening changes neither the sign of a number nor what it is worth. -/
theorem widen_exact {x : Single} (hx : x.isFinite = true) :
    x.widen.isFinite = true ∧ x.widen.negative = x.negative ∧
      Format.double.units x.widen.magnitude =
        Format.single.units x.magnitude * 2 ^ Format.refinement := by
  have hround := exact_round (Format.fits_refined (isFinite_iff.1 hx))
    (Nat.two_pow_pos Format.single.scale) x.negative
  rw [Format.mul_refinement] at hround
  simp only [widen, convert, isNaN_of_isFinite hx, isInfinite_eq_false hx, Bool.false_eq_true,
    if_false, Nat.shiftLeft_eq, Nat.one_mul]
  exact hround

/-- Narrowing takes back what widening gave. -/
theorem narrow_widen {x : Single} (hx : x.isFinite = true) : x.widen.narrow = x := by
  obtain ⟨hfinite, hsign, hunits⟩ := widen_exact hx
  simp only [narrow, convert, isNaN_of_isFinite hfinite, isInfinite_eq_false hfinite,
    Bool.false_eq_true, if_false, Nat.shiftLeft_eq, Nat.one_mul]
  rw [hsign, hunits, Format.mul_refinement, round,
    Format.nearest_mul_self _ (Nat.two_pow_pos Format.double.scale),
    Format.nearest_units (Nat.le_of_lt (isFinite_iff.1 hx)), build_self]

/-- What a number is worth does not change with its width. -/
theorem Worth.refined {x : Single} (hx : x.Worth n) :
    x.widen.Worth (n * 2 ^ Format.refinement) := by
  obtain ⟨hfinite, hsign, hunits⟩ := widen_exact hx.finite
  exact ⟨hfinite, hsign.trans hx.positive, hunits.trans (by rw [hx.units_eq])⟩

/-- A finite single is widened exactly. -/
theorem exact_widen {x : Single} (hx : x.isFinite = true) :
    x.widen.exact = x.exact * 2 ^ Format.refinement := by
  obtain ⟨-, hsign, hunits⟩ := widen_exact hx
  rw [exact_eq_signed, exact_eq_signed, hsign, hunits]
  rw [signed_mul, Int.natCast_pow]
  rfl

/-- A float is known by what it is worth. -/
theorem Worth.unique (hx : x.Worth n) (hy : y.Worth n) : x = y := by
  have hmagnitude : x.magnitude = y.magnitude := by
    have hle : x ≤ y := (hx.le_iff hy).2 (Nat.le_refl n)
    have hge : y ≤ x := (hy.le_iff hx).2 (Nat.le_refl n)
    rw [Binary.le_iff, hx.key_eq, hy.key_eq] at hle hge
    omega
  rw [← build_self x, ← build_self y, hx.positive, hy.positive, hmagnitude]

/-- Numbers are ordered as their exact values. -/
theorem exact_le (h : x ≤ y) : x.exact ≤ y.exact := by
  obtain ⟨hx, hy, hkey⟩ := le_iff.1 h
  have hle := Format.units_le_iff (isNaN_eq_false.1 hx) (isNaN_eq_false.1 hy)
  have hle' := Format.units_le_iff (isNaN_eq_false.1 hy) (isNaN_eq_false.1 hx)
  have hzero := Format.units_le_iff (isNaN_eq_false.1 hx) (Nat.zero_le f.infinity)
  have hzero' := Format.units_le_iff (isNaN_eq_false.1 hy) (Nat.zero_le f.infinity)
  rw [f.units_zero] at hzero hzero'
  rw [key_eq_signed, key_eq_signed] at hkey
  rw [exact_eq_signed, exact_eq_signed]
  cases hnegative : x.negative <;> cases hnegative' : y.negative <;>
    simp only [signed, hnegative, hnegative', Bool.false_eq_true, if_true, if_false] at hkey ⊢ <;>
    omega

/-- Widening keeps the order of finite singles. -/
theorem exact_widen_le {x y : Single} (hx : x.isFinite = true) (hy : y.isFinite = true)
    (h : x ≤ y) : x.widen.exact ≤ y.widen.exact := by
  rw [exact_widen hx, exact_widen hy]
  exact Int.mul_le_mul_of_nonneg_right (exact_le h) (Int.le_of_lt (Int.pow_pos (by decide)))

/-! ## Sums -/

/-- The float nearest to a whole number of smallest positive ones. -/
def ofUnits (f : Format) (a : Int) : Binary f := round (decide (a < 0)) a.natAbs 1

/-- No units are zero. -/
theorem ofUnits_zero (f : Format) : ofUnits f 0 = zero false := by
  rw [ofUnits, round, Int.natAbs_zero, nearest_zero]
  rfl

/-- A number of units that fits is represented exactly, under its sign. -/
theorem exact_ofUnits (h : f.Fits a.natAbs) : (ofUnits f a).isFinite = true ∧
    (ofUnits f a).negative = decide (a < 0) ∧ (ofUnits f a).exact = a := by
  obtain ⟨hfinite, hsign, hunits⟩ := exact_round h Nat.one_pos (decide (a < 0))
  rw [Nat.mul_one] at hfinite hsign hunits
  refine ⟨hfinite, hsign, ?_⟩
  rw [exact_eq_signed, ofUnits, hsign, hunits, signed]
  split <;> simp only [decide_eq_true_eq] at * <;> omega

/-- The sum of two finite numbers is the float nearest to their exact sum, unless it is zero. -/
theorem add_eq_ofUnits (hx : x.isFinite = true) (hy : y.isFinite = true)
    (hsign : x.negative = true → x.exact < 0) : x + y = ofUnits f (x.exact + y.exact) := by
  change add x y = _
  simp only [add, isNaN_of_isFinite hx, isNaN_of_isFinite hy, isInfinite_eq_false hx,
    isInfinite_eq_false hy, Bool.or_self, Bool.false_eq_true, if_false]
  split
  · next hsum =>
    -- A zero is negative only if both numbers carry the sign, and then they are not opposite.
    have hpositive : (x.negative && y.negative) = false := by
      cases hx' : x.negative with
      | false => rfl
      | true =>
        have hlt := hsign hx'
        cases hy' : y.negative with
        | false => rfl
        | true =>
          rw [exact_eq_signed y, hy'] at hsum
          simp only [signed, if_true] at hsum
          omega
    rw [hpositive, hsum, ofUnits_zero]
  · rfl

/-- What is added to a number of units that fits is added exactly and rounded once. -/
theorem ofUnits_add (h : f.Fits a.natAbs) (hx : x.isFinite = true) :
    ofUnits f a + x = ofUnits f (a + x.exact) := by
  obtain ⟨hfinite, hsign, hexact⟩ := exact_ofUnits h
  rw [add_eq_ofUnits hfinite hx, hexact]
  intro hnegative
  rw [hsign, decide_eq_true_eq] at hnegative
  rwa [hexact]

/-- What is taken from a number of units that fits is taken exactly and the rest rounded once. -/
theorem ofUnits_sub (h : f.Fits a.natAbs) (hx : x.isFinite = true) :
    ofUnits f a - x = ofUnits f (a - x.exact) := by
  rw [Int.sub_eq_add_neg, ← exact_neg]
  exact ofUnits_add h (isFinite_neg hx)

/-- A sum is finite only if both its terms are. -/
theorem not_isFinite_add {x y : Single} (h : x.isFinite = false ∨ y.isFinite = false) :
    (x + y).isFinite = false := by
  have hnan : (nan : Single).isFinite = false := by decide
  change (add x y).isFinite = false
  unfold add
  split
  · exact hnan
  · next hnumbers =>
    rw [Bool.or_eq_true, not_or] at hnumbers
    split
    · next hx =>
      split
      · exact hnan
      · exact isFinite_of_isInfinite hx
    · next hx =>
      have hy : y.isInfinite = true := by
        rcases h with h | h
        · exact absurd (isNaN_or_isInfinite h) (not_or.2 ⟨hnumbers.1, hx⟩)
        · exact (isNaN_or_isInfinite h).resolve_left hnumbers.2
      rw [if_pos hy]
      exact isFinite_of_isInfinite hy

/-! ## Grids -/

/-- A whole number of units `2 ^ e`, fewer than `bound` of them on either side of zero. -/
def OnGrid (e bound : Nat) (x : Binary f) : Prop :=
  x.isFinite = true ∧ ∃ k : Int, x.exact = k * 2 ^ e ∧ k.natAbs < bound

/-- A single on a grid is on the same grid when it is widened. -/
theorem OnGrid.widen {x : Single} (h : x.OnGrid e bound) :
    x.widen.OnGrid (e + Format.refinement) bound := by
  obtain ⟨hfinite, k, hk, hbound⟩ := h
  refine ⟨(widen_exact hfinite).1, k, ?_, hbound⟩
  rw [exact_widen hfinite, hk, Int.mul_assoc, ← Int.pow_add]

/-- Numbers between a 64th and 1024 are on one grid, where more than 16000 of them can be summed. -/
theorem onGrid_of_range {x : Single} (hlo : (0.015625 : Single) ≤ x.abs)
    (hhi : x.abs < (1024 : Single)) : x.OnGrid 120 (2 ^ 39) := by
  have hbounds : (0.015625 : Single).key = (121 * 2 ^ 23 : Nat) ∧
      (1024 : Single).key = (137 * 2 ^ 23 : Nat) := by decide
  have hinfinity : Format.single.infinity = 255 * 2 ^ 23 := by decide
  have hwidth : Format.single.fraction = 23 := rfl
  obtain ⟨-, -, hlower⟩ := le_iff.1 hlo
  obtain ⟨-, -, hupper⟩ := lt_iff.1 hhi
  rw [key_abs, hbounds.1] at hlower
  rw [key_abs, hbounds.2] at hupper
  refine ⟨isFinite_iff.2 (by omega), ?_⟩
  rcases Format.single.units_cases x.magnitude with ⟨hsmall, -⟩ | ⟨k, e, hm, hunits, hk, hk'⟩
  · rw [hwidth] at hsmall
    omega
  · rw [hwidth] at hm hk hk'
    have hsplit : k * 2 ^ e = k * 2 ^ (e - 120) * 2 ^ 120 := by
      rw [Nat.mul_assoc, ← Nat.pow_add, Nat.sub_add_cancel (by omega)]
    refine ⟨signed x.negative (k * 2 ^ (e - 120)), ?_, ?_⟩
    · rw [exact_eq_signed, hunits, hsplit, signed_mul]
      rfl
    · rw [natAbs_signed]
      calc k * 2 ^ (e - 120)
        _ < 2 ^ 24 * 2 ^ (e - 120) := Nat.mul_lt_mul_of_pos_right hk' (Nat.two_pow_pos _)
        _ ≤ 2 ^ 24 * 2 ^ 15 := Nat.mul_le_mul_left _ (Nat.pow_le_pow_right (by decide) (by omega))

/-- The exact sum of some numbers. -/
def exactSum : List (Binary f) → Int
  | [] => 0
  | x :: xs => x.exact + exactSum xs

/-- Exact sums are added. -/
theorem exactSum_append (xs ys : List (Binary f)) :
    exactSum (xs ++ ys) = exactSum xs + exactSum ys := by
  induction xs with
  | nil => exact (Int.zero_add _).symm
  | cons x xs ih => rw [List.cons_append, exactSum, exactSum, ih, Int.add_assoc]

/-- The exact sum of floats on a grid is on it, within as many bounds as there are floats. -/
theorem exactSum_onGrid {xs : List (Binary f)} (h : ∀ x ∈ xs, x.OnGrid e bound) :
    ∃ k : Int, exactSum xs = k * 2 ^ e ∧ k.natAbs ≤ xs.length * bound := by
  induction xs with
  | nil => exact ⟨0, (Int.zero_mul _).symm, Nat.zero_le _⟩
  | cons x xs ih =>
    obtain ⟨hx, hxs⟩ := List.forall_mem_cons.1 h
    obtain ⟨-, k, hk, hbound⟩ := hx
    obtain ⟨k', hk', hbound'⟩ := ih hxs
    refine ⟨k + k', by rw [exactSum, hk, hk', Int.add_mul], ?_⟩
    rw [List.length_cons, Nat.succ_mul]
    omega

/-- A sum of some numbers on a grid fits the significand. -/
theorem fits_exactSum {xs : List (Binary f)} (h : ∀ x ∈ xs, x.OnGrid e bound)
    (hbound : xs.length * bound < 2 ^ (f.fraction + 1)) (he : e + 3 ≤ 2 ^ f.exponent) :
    f.Fits (exactSum xs).natAbs := by
  obtain ⟨k, hk, hle⟩ := exactSum_onGrid h
  rw [hk, Int.natAbs_mul, Int.natAbs_pow]
  exact Format.fits_mul_pow (by omega) he

/-! ## Means -/

/-- Nothing divided is zero. -/
theorem nearest_zero_div (f : Format) (hden : 0 < den) : f.nearest 0 den = 0 := by
  have hmul := Format.nearest_mul_self (f := f) 0 hden
  rwa [Nat.zero_mul, nearest_zero] at hmul

/-- A quotient is rounded without its sign. -/
theorem quotient_signed (f : Format) (s : Bool) (n : Nat) (hden : 0 < den) :
    quotient f (signed s n) den = signed s (f.nearest n den) := by
  rw [quotient, natAbs_signed]
  cases s with
  | false => simp [signed]
  | true =>
    rcases Nat.eq_zero_or_pos n with rfl | hpos
    · simp [signed, nearest_zero_div f hden]
    · simp [signed, hpos]

/-- A number is a quotient that is not rounded, whatever the denominator. -/
theorem key_eq_quotient (hx : x.isNaN = false) (hden : 0 < den) :
    x.key = quotient f (x.exact * den) den := by
  have hden' : (0 : Int) < den := Int.natCast_pos.2 hden
  have hsign : x.exact * den < 0 ↔ x.exact < 0 := by
    constructor <;> intro h
    · by_contra hnot
      exact absurd (Int.mul_nonneg (Int.not_lt.1 hnot) (Int.le_of_lt hden')) (Int.not_le.2 h)
    · exact Int.mul_neg_of_neg_of_pos h hden'
  rw [← rounded_exact hx, quotient, Int.natAbs_mul, Int.natAbs_natCast,
    Format.nearest_mul_self _ hden, rounded]
  simp only [hsign]

/-- A number over a whole one is their exact quotient, rounded. -/
theorem key_div (hx : x.isFinite = true) (hy : y.Worth (n * 2 ^ f.scale)) (hn : 0 < n) :
    (x / y).isNaN = false ∧
      (x / y).key = quotient f (x.exact * (2 ^ f.scale : Nat)) (n * 2 ^ f.scale) := by
  have hpos : 0 < n * 2 ^ f.scale := Nat.mul_pos hn (Nat.two_pow_pos _)
  have hmagnitude : y.magnitude ≠ 0 := fun hzero => by
    have hunits := hy.units_eq
    rw [hzero, f.units_zero] at hunits
    omega
  have hdiv : x / y = round x.negative (f.units x.magnitude * 2 ^ f.scale) (n * 2 ^ f.scale) := by
    change div x y = _
    simp only [div, isNaN_of_isFinite hx, hy.isNaN_eq, isInfinite_eq_false hx, hy.isInfinite_eq,
      hy.positive, hy.units_eq, hmagnitude, Bool.or_self, Bool.false_eq_true, if_false,
      Bool.bne_false, Nat.shiftLeft_eq]
  rw [hdiv, exact_eq_signed, ← signed_mul, quotient_signed f _ _ hpos]
  exact ⟨isNaN_round _ _ _, key_round _ _ _⟩

/-- A finite double is narrowed by rounding its value. -/
theorem key_narrow {x : Double} (hx : x.isFinite = true) : x.narrow.isNaN = false ∧
    x.narrow.key = quotient .single (x.exact * (2 ^ Format.single.scale : Nat))
      (2 ^ Format.double.scale) := by
  have hnarrow : x.narrow = round x.negative
      (Format.double.units x.magnitude * 2 ^ Format.single.scale) (2 ^ Format.double.scale) := by
    simp only [narrow, convert, isNaN_of_isFinite hx, isInfinite_eq_false hx, Bool.false_eq_true,
      if_false, Nat.shiftLeft_eq, Nat.one_mul]
  rw [hnarrow, exact_eq_signed, ← signed_mul, quotient_signed _ _ _ (Nat.two_pow_pos _)]
  exact ⟨isNaN_round _ _ _, key_round _ _ _⟩

section
variable {z : Binary f} (hx : x.isFinite = true) (hy : y.Worth (n * 2 ^ f.scale)) (hn : 0 < n)
  (hz : z.isFinite = true)
include hx hy hn hz

/-- A float that is no more than the quotient stays so when the quotient is rounded. -/
theorem le_div (h : z.exact * n ≤ x.exact) : z ≤ x / y := by
  obtain ⟨hnumber, hkey⟩ := key_div hx hy hn
  have hpos : 0 < n * 2 ^ f.scale := Nat.mul_pos hn (Nat.two_pow_pos _)
  refine le_iff.2 ⟨isNaN_of_isFinite hz, hnumber, ?_⟩
  rw [hkey, key_eq_quotient (isNaN_of_isFinite hz) hpos, Int.natCast_mul, ← Int.mul_assoc]
  exact quotient_mono hpos (Int.mul_le_mul_of_nonneg_right h (Int.natCast_nonneg _))

/-- A float that is no less than the quotient stays so when the quotient is rounded. -/
theorem div_le (h : x.exact ≤ z.exact * n) : x / y ≤ z := by
  obtain ⟨hnumber, hkey⟩ := key_div hx hy hn
  have hpos : 0 < n * 2 ^ f.scale := Nat.mul_pos hn (Nat.two_pow_pos _)
  refine le_iff.2 ⟨hnumber, isNaN_of_isFinite hz, ?_⟩
  rw [hkey, key_eq_quotient (isNaN_of_isFinite hz) hpos, Int.natCast_mul, ← Int.mul_assoc]
  exact quotient_mono hpos (Int.mul_le_mul_of_nonneg_right h (Int.natCast_nonneg _))

end

/-- A 32-bit float as a quotient whose denominator is that of narrowing. -/
theorem key_eq_narrowing {x : Single} (hx : x.isFinite = true) :
    x.key = quotient .single (x.widen.exact * (2 ^ Format.single.scale : Nat))
      (2 ^ Format.double.scale) := by
  have hunits : x.exact * (2 ^ Format.double.scale : Nat) =
      x.widen.exact * (2 ^ Format.single.scale : Nat) := by
    rw [exact_widen hx, Int.mul_assoc, ← Format.refinement_add, Nat.pow_add, Int.natCast_mul,
      Int.natCast_pow]
    rfl
  rw [← hunits, ← key_eq_quotient (isNaN_of_isFinite hx) (Nat.two_pow_pos _)]

section
variable {x : Double} {z : Single} (hx : x.isFinite = true) (hz : z.isFinite = true)
include hx hz

/-- A single that is no more than a double stays so when the double is narrowed. -/
theorem le_narrow (h : z.widen ≤ x) : z ≤ x.narrow := by
  obtain ⟨hnumber, hkey⟩ := key_narrow hx
  refine le_iff.2 ⟨isNaN_of_isFinite hz, hnumber, ?_⟩
  rw [hkey, key_eq_narrowing hz]
  exact quotient_mono (Nat.two_pow_pos _)
    (Int.mul_le_mul_of_nonneg_right (exact_le h) (Int.natCast_nonneg _))

/-- A single that is no less than a double stays so when the double is narrowed. -/
theorem narrow_le (h : x ≤ z.widen) : x.narrow ≤ z := by
  obtain ⟨hnumber, hkey⟩ := key_narrow hx
  refine le_iff.2 ⟨hnumber, isNaN_of_isFinite hz, ?_⟩
  rw [hkey, key_eq_narrowing hz]
  exact quotient_mono (Nat.two_pow_pos _)
    (Int.mul_le_mul_of_nonneg_right (exact_le h) (Int.natCast_nonneg _))

end

/-- The mean of an exact sum of numbers stays between bounds of these numbers. -/
theorem mean_between {x : Double} {lo hi : Single} (hx : x.isFinite = true)
    (hlo : lo.isFinite = true) (hhi : hi.isFinite = true) (hn : 0 < n) (hn' : n < 2 ^ 53)
    (hle : lo.widen.exact * n ≤ x.exact) (hge : x.exact ≤ hi.widen.exact * n) :
    lo ≤ (x / ofNat n).narrow ∧ (x / ofNat n).narrow ≤ hi := by
  have hworth : (ofNat n : Double).Worth (n * 2 ^ Format.double.scale) :=
    worth_ofNat (fits_double hn' (Nat.le_refl _))
  have hlo' := (widen_exact hlo).1
  have hhi' := (widen_exact hhi).1
  have hlower := le_div hx hworth hn hlo' hle
  have hupper := div_le hx hworth hn hhi' hge
  have hmean := isFinite_of_between hlo' hhi' hlower hupper
  exact ⟨le_narrow hmean hlo hlower, narrow_le hmean hhi hupper⟩

end Binary

end RenderStream
