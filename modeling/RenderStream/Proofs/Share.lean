import Mathlib.Data.Rat.Floor
import Mathlib.Order.Interval.Finset.Nat
import Mathlib.Tactic.Linarith
import RenderStream.Proofs.Stride

/-!
# The share of particles kept

A ratio `p / 2 ^ k` keeps a particle where the whole part of `i * p / 2 ^ k` steps up. That whole
part rises by one or not at all from one particle to the next (`div_succ_cases`), so its steps in a
stretch of the sequence add up to what it rose by (`card_steps`), and the particles kept of any
stretch are counted without looking at them (`keptBetween_add`).
-/

namespace RenderStream

section
variable {p q k a b : Nat}

/-! ## Steps of a whole part -/

/-- The next place crosses a whole share or not. -/
theorem div_succ_cases (h : p ≤ q) (hq : 0 < q) (i : Nat) :
    (i + 1) * p / q = i * p / q ∨ (i + 1) * p / q = i * p / q + 1 := by
  have hlower : i * p / q ≤ (i + 1) * p / q :=
    Nat.div_le_div_right (Nat.mul_le_mul_right p (Nat.le_succ i))
  have hupper : (i + 1) * p / q ≤ i * p / q + 1 := by
    rw [← Nat.add_div_right _ hq, Nat.add_mul, Nat.one_mul]
    exact Nat.div_le_div_right (Nat.add_le_add_left h _)
  omega

/-- The places at which the whole part steps up are as many as it rises by. -/
theorem card_steps (h : p ≤ q) (hq : 0 < q) (hab : a ≤ b) :
    ((Finset.Ico a b).filter fun i => i * p / q < (i + 1) * p / q).card + a * p / q =
      b * p / q := by
  induction b, hab using Nat.le_induction with
  | base => simp
  | succ b hab ih =>
    rw [Nat.Ico_succ_right_eq_insert_Ico hab, Finset.filter_insert]
    rcases div_succ_cases h hq b with hstay | hstep
    · rw [if_neg (by omega), ih, hstay]
    · rw [if_pos (by omega), Finset.card_insert_of_notMem (by simp)]
      omega

/-! ## Ratios -/

/-- A ratio `p / 2 ^ k` is not rounded. -/
theorem worth_ofRatio (hp : p < 2 ^ 24) (hk : k ≤ Format.single.scale) :
    (Binary.ofRatio p (2 ^ k) : Single).Worth (p * 2 ^ (Format.single.scale - k)) := by
  have hscale : Format.single.scale + 3 ≤ 2 ^ Format.single.exponent := by decide
  have hround := Binary.worth_round (f := .single)
    (Format.fits_mul_pow hp (by omega : Format.single.scale - k + 3 ≤ _)) (Nat.two_pow_pos k)
  rw [Nat.mul_assoc, ← Nat.pow_add, Nat.sub_add_cancel hk] at hround
  rw [Binary.ofRatio, Int.natAbs_natCast, Nat.shiftLeft_eq,
    decide_eq_false (Int.not_lt.2 (Int.natCast_nonneg p))]
  exact hround

/-! ## Particles -/

/-- How many particles a ratio keeps of those from position `a` on and before position `b`. -/
def keptBetween (ratio : Single) (a b : Nat) : Nat :=
  ((Finset.Ico a b).filter fun i => keepOnStride (.ofNat i) ratio = true).card

/-- What is kept up to a place is the whole share of the places, so what is kept between two places
makes up the difference. -/
theorem keptBetween_add {ratio : Single} (hratio : ratio.Worth (p * 2 ^ (Format.single.scale - k)))
    (hk : k ≤ 20) (hp : 0 < p) (hpk : p < 2 ^ k) (hab : a ≤ b) (hb : b ≤ 2 ^ 32) :
    keptBetween ratio a b + a * p / 2 ^ k = b * p / 2 ^ k := by
  have hsteps : keptBetween ratio a b =
      ((Finset.Ico a b).filter fun i => i * p / 2 ^ k < (i + 1) * p / 2 ^ k).card := by
    refine congrArg Finset.card (Finset.filter_congr fun i hi => ?_)
    have hi' : i < 2 ^ 32 := Nat.lt_of_lt_of_le (Finset.mem_Ico.1 hi).2 hb
    rw [keepOnStride_iff hratio hk hp hpk, UInt32.toNat_ofNat_of_lt' hi']
  rw [hsteps]
  exact card_steps (Nat.le_of_lt hpk) (Nat.two_pow_pos k) hab

/-- Below the best level, a profile keeps so many quarters of the particles. -/
theorem keptBetween_keepRatioAt {n : Nat} (h : n < 3) (hab : a ≤ b) (hb : b ≤ 2 ^ 32) :
    keptBetween (Profile.keepRatioAt n) a b + a * (n + 1) / 4 = b * (n + 1) / 4 :=
  keptBetween_add (worth_keepRatioAt h) (by decide) (Nat.succ_pos n) (by omega) hab hb

example : keptBetween (Profile.keepRatioAt 2) 5 17 = 9 := by decide +kernel

/-- A share of places is rounded down like a quotient of natural numbers. -/
theorem floor_mul_share (n p k : Nat) : ⌊(n : ℚ) * (p / 2 ^ k)⌋ = (n * p / 2 ^ k : Nat) := by
  have hquotient : (n : ℚ) * (p / 2 ^ k) = ((n * p : Nat) : ℚ) / (2 ^ k : Nat) := by
    push_cast
    ring
  rw [hquotient, Rat.floor_natCast_div_natCast, Int.natCast_ediv]

/-- A ratio keeps of every stretch what the whole part of the share rises by, so the particles kept
are never a whole one more or fewer than the share of that stretch. -/
theorem kept_evenly (hk : k ≤ 20) (hp : 0 < p) (hpk : p < 2 ^ k) (hab : a ≤ b)
    (hb : b ≤ 2 ^ 32) :
    let ratio : Single := .ofRatio p (2 ^ k)
    let share : ℚ := p / 2 ^ k
    (keptBetween ratio a b : ℤ) = ⌊b * share⌋ - ⌊a * share⌋ ∧
      |(keptBetween ratio a b : ℚ) - (b - a) * share| < 1 ∧
      (keptBetween ratio 0 b : ℤ) = ⌊b * share⌋ := by
  intro ratio share
  have hscale : 20 ≤ Format.single.scale := by decide
  have hsmall : p < 2 ^ 20 := Nat.lt_of_lt_of_le hpk (Nat.pow_le_pow_right Nat.two_pos hk)
  have hratio : ratio.Worth (p * 2 ^ (Format.single.scale - k)) :=
    worth_ofRatio (by omega) (by omega)
  have hkept (c : Nat) (hcb : c ≤ b) :
      (keptBetween ratio c b : ℤ) = ⌊b * share⌋ - ⌊c * share⌋ := by
    rw [floor_mul_share, floor_mul_share, ← keptBetween_add hratio hk hp hpk hcb hb]
    push_cast
    ring
  refine ⟨hkept a hab, ?_, ?_⟩
  · have hcast : (keptBetween ratio a b : ℚ) = ⌊b * share⌋ - ⌊a * share⌋ := by
      exact_mod_cast hkept a hab
    have hleft := Int.floor_le (a * share)
    have hleft' := Int.lt_floor_add_one (a * share)
    have hright := Int.floor_le (b * share)
    have hright' := Int.lt_floor_add_one (b * share)
    rw [hcast, abs_lt]
    constructor <;> linarith
  · rw [hkept 0 (Nat.zero_le b), Nat.cast_zero, zero_mul, Int.floor_zero, sub_zero]

/-- Three quarters of the particles 5 to 399: 297 of 395, where the share is 296.25. -/
theorem kept_evenly_three_quarters :
    (2 ≤ 20 ∧ 0 < 3 ∧ 3 < 2 ^ 2 ∧ 5 ≤ 400 ∧ 400 ≤ 2 ^ 32) ∧
      (keptBetween (.ofRatio 3 (2 ^ 2)) 5 400 : ℤ) = 297 ∧
      keptBetween (.ofRatio 3 (2 ^ 2)) 0 400 = 300 := by
  have hbounds : 2 ≤ 20 ∧ 0 < 3 ∧ 3 < 2 ^ 2 ∧ 5 ≤ 400 ∧ 400 ≤ 2 ^ 32 := by decide
  obtain ⟨hkept, -, hfirst⟩ :=
    kept_evenly (p := 3) (k := 2) (a := 5) (b := 400) (by decide) (by decide) (by decide)
      (by decide) (by decide)
  have hfloor : ⌊(400 : ℕ) * (((3 : ℕ) : ℚ) / 2 ^ 2)⌋ = 300 := by rw [floor_mul_share]; rfl
  have hfloor' : ⌊(5 : ℕ) * (((3 : ℕ) : ℚ) / 2 ^ 2)⌋ = 3 := by rw [floor_mul_share]; rfl
  rw [hfloor, hfloor'] at hkept
  rw [hfloor] at hfirst
  exact ⟨hbounds, hkept, by exact_mod_cast hfirst⟩

end

end RenderStream
