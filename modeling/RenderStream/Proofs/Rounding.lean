import Mathlib.Algebra.Group.Nat.Defs
import Mathlib.Data.Nat.Log
import RenderStream.Proofs.Ladder

/-!
# Rounding and order

Every rounding is one call of `Format.nearest`, and three facts are all that is needed of it. It is
monotone (`Format.nearest_mono`), it gives a magnitude back from what the magnitude is worth
(`Format.nearest_units`), and it is exact on numbers that fit the significand
(`Format.Fits.exact`). So a number is the rounded one of its exact value (`Binary.rounded_exact`), a
sum is the rounded exact sum (`Binary.key_add`), and a margin that is added or taken off moves a
number outward or not at all (`Binary.le_add_self`, `Binary.sub_le_self`).
-/

namespace RenderStream

/-! ## Quotients -/

section
variable {num num' den a b : Nat}

/-- A quotient that is at least `a` stays so when it is rounded. -/
theorem le_divNearest (h : a * den ≤ num) (hden : 0 < den) : a ≤ divNearest num den := by
  have hquotient : a ≤ num / den := (Nat.le_div_iff_mul_le hden).2 h
  simp only [divNearest]
  split
  · exact hquotient
  · split <;> omega

/-- A quotient that is at most `b` stays so when it is rounded. -/
theorem divNearest_le (h : num ≤ b * den) (hden : 0 < den) : divNearest num den ≤ b := by
  have hdivide := Nat.div_add_mod num den
  have hrest := Nat.mod_lt num hden
  -- A quotient of `b` leaves no rest, and a smaller one is rounded up by one at most.
  rcases Nat.lt_or_ge (num / den) b with hlt | hge
  · simp only [divNearest]
    split
    · omega
    · split <;> omega
  · have hmul : den * b ≤ den * (num / den) := Nat.mul_le_mul_left den hge
    rw [Nat.mul_comm b] at h
    have hexact : num % den = 0 := by omega
    have hquotient : num / den ≤ b := by
      refine Nat.le_of_mul_le_mul_left ?_ hden
      omega
    simp only [divNearest, hexact]
    rw [if_pos (by omega)]
    exact hquotient

/-- Rounding a quotient keeps the order of the dividends. -/
theorem divNearest_mono (h : num ≤ num') (hden : 0 < den) :
    divNearest num den ≤ divNearest num' den := by
  have hquotient : num / den ≤ num' / den := Nat.div_le_div_right h
  rcases Nat.lt_or_eq_of_le hquotient with hlt | heq
  · -- Between the two there is a whole number.
    have hupper : divNearest num den ≤ num / den + 1 :=
      divNearest_le (Nat.le_of_lt (Nat.lt_mul_of_div_lt (Nat.lt_succ_self _) hden)) hden
    have hlower : num' / den ≤ divNearest num' den := le_divNearest (Nat.div_mul_le_self _ _) hden
    omega
  · have hdivide := Nat.div_add_mod num den
    have hdivide' := Nat.div_add_mod num' den
    rw [heq] at hdivide
    have hrest : num % den ≤ num' % den := by omega
    simp only [divNearest, heq]
    repeat' split
    all_goals omega

/-- A quotient that is whole is not rounded. -/
theorem divNearest_mul_self (a : Nat) (hden : 0 < den) : divNearest (a * den) den = a :=
  Nat.le_antisymm (divNearest_le (Nat.le_refl _) hden) (le_divNearest (Nat.le_refl _) hden)

/-- A common factor of dividend and divisor does not matter to rounding. -/
theorem divNearest_mul_right (a b : Nat) (hden : 0 < den) :
    divNearest (a * den) (b * den) = divNearest a b := by
  have hleft : 2 * (a % b * den) < b * den ↔ 2 * (a % b) < b := by
    rw [← Nat.mul_assoc]
    exact Nat.mul_lt_mul_right hden
  have hright : b * den < 2 * (a % b * den) ↔ b < 2 * (a % b) := by
    rw [← Nat.mul_assoc]
    exact Nat.mul_lt_mul_right hden
  simp only [divNearest, Nat.mul_div_mul_right _ _ hden, Nat.mul_mod_mul_right, hleft, hright]

end

/-! ## Magnitudes -/

namespace Format

variable {f : Format} {m m' n n' num num' den k e : Nat}

/-- The pattern of infinity is the greatest exponent with an empty fraction. -/
theorem infinity_eq (f : Format) : f.infinity = (2 ^ f.exponent - 1) * 2 ^ f.fraction := by
  rw [infinity, Nat.shiftLeft_eq, Nat.one_shiftLeft]

/-- Low bits that do not fit the significand. -/
def excess (f : Format) (n : Nat) : Nat := n.log2 - f.fraction

/-- The nearest pattern, with the excess of bits as its exponent and infinity as its bound. -/
theorem nearest_eq (f : Format) (num den : Nat) :
    f.nearest num den = min (f.excess (num / den) * 2 ^ f.fraction +
      divNearest num (den * 2 ^ f.excess (num / den))) f.infinity := by
  simp only [nearest, Nat.shiftLeft_eq, excess]

/-- Rounding gives no pattern beyond infinity. -/
theorem nearest_le_infinity (f : Format) (num den : Nat) : f.nearest num den ≤ f.infinity :=
  Nat.min_le_right _ _

/-- A greater number has no fewer bits in excess. -/
theorem excess_mono (h : n ≤ n') : f.excess n ≤ f.excess n' := by
  simp only [excess, Nat.log2_eq_log_two]
  exact Nat.sub_le_sub_right (Nat.log_mono_right h) _

/-- Without its bits in excess a number fits the fraction and its leading one. -/
theorem lt_of_excess (f : Format) (n : Nat) : n < 2 ^ (f.fraction + 1) * 2 ^ f.excess n := by
  rw [← Nat.pow_add]
  refine Nat.lt_of_lt_of_le Nat.lt_log2_self (Nat.pow_le_pow_right Nat.two_pos ?_)
  simp only [excess]
  omega

/-- A number with bits in excess fills the fraction and its leading one. -/
theorem le_of_excess_pos (h : 0 < f.excess n) : 2 ^ f.fraction * 2 ^ f.excess n ≤ n := by
  have hlog : f.fraction + f.excess n = n.log2 := by
    simp only [excess] at h ⊢
    omega
  rw [← Nat.pow_add, hlog]
  refine Nat.log2_self_le fun hzero => ?_
  simp [excess, hzero] at h

/-- More is not rounded to less. -/
theorem nearest_mono (h : num ≤ num') (hden : 0 < den) :
    f.nearest num den ≤ f.nearest num' den := by
  have hquotient : num / den ≤ num' / den := Nat.div_le_div_right h
  rw [nearest_eq, nearest_eq]
  suffices hle : f.excess (num / den) * 2 ^ f.fraction +
      divNearest num (den * 2 ^ f.excess (num / den)) ≤ f.excess (num' / den) * 2 ^ f.fraction +
      divNearest num' (den * 2 ^ f.excess (num' / den)) by omega
  rcases Nat.lt_or_eq_of_le (excess_mono (f := f) hquotient) with hlt | heq
  · -- A larger power of two: the significands meet at the border between the two.
    have hpos : ∀ e, 0 < den * 2 ^ e := fun e => Nat.mul_pos hden (Nat.two_pow_pos e)
    have hupper : divNearest num (den * 2 ^ f.excess (num / den)) ≤ 2 ^ (f.fraction + 1) := by
      refine divNearest_le ?_ (hpos _)
      have hlt := (Nat.div_lt_iff_lt_mul hden).1 (lt_of_excess f (num / den))
      refine Nat.le_of_lt (Nat.lt_of_lt_of_eq hlt ?_)
      rw [Nat.mul_assoc, Nat.mul_comm (2 ^ f.excess _)]
    have hlower : 2 ^ f.fraction ≤ divNearest num' (den * 2 ^ f.excess (num' / den)) := by
      refine le_divNearest ?_ (hpos _)
      have hle := (Nat.le_div_iff_mul_le hden).1 (le_of_excess_pos (Nat.zero_lt_of_lt hlt))
      refine Nat.le_trans (Nat.le_of_eq ?_) hle
      rw [Nat.mul_assoc, Nat.mul_comm (2 ^ f.excess _)]
    have hstep := Nat.mul_le_mul_right (2 ^ f.fraction) (Nat.succ_le_of_lt hlt)
    rw [Nat.succ_mul] at hstep
    rw [Nat.pow_succ] at hupper
    omega
  · rw [heq]
    exact Nat.add_le_add_left
      (divNearest_mono h (Nat.mul_pos hden (Nat.two_pow_pos _))) _

/-- A common factor of both parts of a quotient makes no difference. -/
theorem nearest_mul_mul (num den : Nat) (hk : 0 < k) :
    f.nearest (num * k) (den * k) = f.nearest num den := by
  have hshift (e : Nat) : den * k * 2 ^ e = den * 2 ^ e * k := Nat.mul_right_comm _ _ _
  rw [nearest_eq, nearest_eq, Nat.mul_div_mul_right _ _ hk, hshift, divNearest_mul_right _ _ hk]

/-- Rounding a whole quotient is rounding the number. -/
theorem nearest_mul_self (n : Nat) (hden : 0 < den) : f.nearest (n * den) den = f.nearest n 1 := by
  have hshared := nearest_mul_mul (f := f) n 1 hden
  rwa [Nat.one_mul] at hshared

/-- A number that fits the fraction and its leading one has no bits in excess. -/
theorem excess_of_lt (h : n < 2 ^ (f.fraction + 1)) : f.excess n = 0 := by
  rw [excess, Nat.sub_eq_zero_iff_le]
  rcases Nat.eq_zero_or_pos n with rfl | hpos
  · simp
  · exact Nat.le_of_lt_succ ((Nat.log2_lt (Nat.pos_iff_ne_zero.1 hpos)).2 h)

/-- A fraction with its leading one, shifted, has just the shift in excess. -/
theorem excess_mul_pow (hk : 2 ^ f.fraction ≤ k) (hk' : k < 2 ^ (f.fraction + 1)) (e : Nat) :
    f.excess (k * 2 ^ e) = e := by
  have hpos : k * 2 ^ e ≠ 0 :=
    Nat.mul_ne_zero (Nat.ne_zero_of_lt (Nat.lt_of_lt_of_le (Nat.two_pow_pos _) hk))
      (Nat.pos_iff_ne_zero.1 (Nat.two_pow_pos e))
  have hlog : (k * 2 ^ e).log2 = f.fraction + e := by
    refine (Nat.log2_eq_iff hpos).2 ⟨?_, ?_⟩
    · rw [Nat.pow_add]
      exact Nat.mul_le_mul_right _ hk
    · rw [Nat.add_right_comm, Nat.pow_add]
      exact Nat.mul_lt_mul_of_pos_right hk' (Nat.two_pow_pos e)
  rw [excess, hlog, Nat.add_sub_cancel_left]

@[simp] theorem units_zero (f : Format) : f.units 0 = 0 := by simp [units, Nat.one_shiftLeft]

/-- Below the first power of two a magnitude is worth itself. -/
theorem units_of_lt (hm : m < 2 ^ f.fraction) : f.units m = m := by
  rw [units, Nat.one_shiftLeft, if_pos hm]

/-- The pattern of a significand `k` with a power of two. -/
theorem units_pattern (hk : 2 ^ f.fraction ≤ k) (hk' : k < 2 ^ (f.fraction + 1)) (e : Nat) :
    f.units (e * 2 ^ f.fraction + k) = k * 2 ^ e := by
  obtain ⟨r, rfl⟩ := Nat.exists_eq_add_of_le hk
  have hr : r < 2 ^ f.fraction := by
    rw [Nat.pow_succ] at hk'
    omega
  have hpattern : e * 2 ^ f.fraction + (2 ^ f.fraction + r) = (e + 1) * 2 ^ f.fraction + r := by
    rw [Nat.succ_mul, Nat.add_assoc]
  have hquotient : ((e + 1) * 2 ^ f.fraction + r) / 2 ^ f.fraction = e + 1 := by
    rw [Nat.mul_comm, Nat.mul_add_div (Nat.two_pow_pos _), Nat.div_eq_of_lt hr, Nat.add_zero]
  have hrest : ((e + 1) * 2 ^ f.fraction + r) % 2 ^ f.fraction = r := by
    rw [Nat.mul_comm, Nat.mul_add_mod, Nat.mod_eq_of_lt hr]
  have hge : ¬(e + 1) * 2 ^ f.fraction + r < 2 ^ f.fraction := by
    rw [Nat.succ_mul]
    omega
  rw [hpattern, units, Nat.one_shiftLeft, if_neg hge, Nat.shiftLeft_eq, Nat.shiftRight_eq_div_pow,
    hquotient, hrest, Nat.add_sub_cancel]

/-- What a magnitude is worth: itself below the first power of two, and then a significand. -/
theorem units_cases (f : Format) (m : Nat) :
    (m < 2 ^ f.fraction ∧ f.units m = m) ∨
      ∃ k e, m = e * 2 ^ f.fraction + k ∧ f.units m = k * 2 ^ e ∧ 2 ^ f.fraction ≤ k ∧
        k < 2 ^ (f.fraction + 1) := by
  rcases Nat.lt_or_ge m (2 ^ f.fraction) with hlt | hge
  · exact .inl ⟨hlt, units_of_lt hlt⟩
  · have hpow := Nat.two_pow_pos f.fraction
    have hdivide := Nat.div_add_mod m (2 ^ f.fraction)
    have hrest := Nat.mod_lt m hpow
    obtain ⟨e, he⟩ := Nat.exists_eq_succ_of_ne_zero
      (Nat.pos_iff_ne_zero.1 ((Nat.le_div_iff_mul_le hpow).2 (by omega : 1 * 2 ^ f.fraction ≤ m)))
    rw [he, Nat.mul_succ, Nat.mul_comm] at hdivide
    have hk' : 2 ^ f.fraction + m % 2 ^ f.fraction < 2 ^ (f.fraction + 1) := by
      rw [Nat.pow_succ]
      omega
    have hpattern : m = e * 2 ^ f.fraction + (2 ^ f.fraction + m % 2 ^ f.fraction) := by omega
    refine .inr ⟨_, e, hpattern, ?_, Nat.le_add_right _ _, hk'⟩
    conv_lhs => rw [hpattern]
    exact units_pattern (Nat.le_add_right _ _) hk' e

/-- A magnitude is the nearest one to what it is worth. -/
theorem nearest_units (hm : m ≤ f.infinity) : f.nearest (f.units m) 1 = m := by
  rw [nearest_eq, Nat.div_one, Nat.one_mul]
  rcases units_cases f m with ⟨hlt, hunits⟩ | ⟨k, e, hpattern, hunits, hk, hk'⟩
  · have hexcess : f.excess m = 0 := by
      refine excess_of_lt (Nat.lt_trans hlt ?_)
      exact Nat.pow_lt_pow_right Nat.one_lt_two (Nat.lt_succ_self _)
    rw [hunits, hexcess, Nat.zero_mul, Nat.zero_add, Nat.pow_zero]
    have hself := divNearest_mul_self m Nat.one_pos
    rw [Nat.mul_one] at hself
    rw [hself, Nat.min_eq_left hm]
  · rw [hunits, excess_mul_pow hk hk', divNearest_mul_self k (Nat.two_pow_pos e), ← hpattern,
      Nat.min_eq_left hm]

/-- Magnitudes are ordered as what they are worth. -/
theorem units_le_iff (hm : m ≤ f.infinity) (hm' : m' ≤ f.infinity) :
    f.units m ≤ f.units m' ↔ m ≤ m' := by
  have hmono {a b : Nat} (ha : a ≤ f.infinity) (hb : b ≤ f.infinity)
      (h : f.units a ≤ f.units b) : a ≤ b := by
    rw [← nearest_units ha, ← nearest_units hb]
    exact nearest_mono h Nat.one_pos
  refine ⟨hmono hm hm', fun h => ?_⟩
  by_contra hlt
  have hback := hmono hm' hm (Nat.le_of_not_le hlt)
  rw [Nat.le_antisymm h hback] at hlt
  exact hlt (Nat.le_refl _)

/-- A number with a significand short enough and no power of two beyond the largest. -/
def Fits (f : Format) (n : Nat) : Prop :=
  ∃ k e, n = k * 2 ^ e ∧ k < 2 ^ (f.fraction + 1) ∧ e + 3 ≤ 2 ^ f.exponent

/-- A shifted number fits when its bits and its shift do. -/
theorem fits_mul_pow (hk : k < 2 ^ (f.fraction + 1)) (he : e + 3 ≤ 2 ^ f.exponent) :
    f.Fits (k * 2 ^ e) := ⟨k, e, rfl, hk, he⟩

/-- The bits that do not fit are zeros. -/
theorem Fits.split (h : f.Fits n) :
    ∃ k, n = k * 2 ^ f.excess n ∧ k < 2 ^ (f.fraction + 1) ∧ f.excess n + 3 ≤ 2 ^ f.exponent := by
  obtain ⟨k, e, rfl, hk, he⟩ := h
  have hle : f.excess (k * 2 ^ e) ≤ e := by
    rw [excess, Nat.sub_le_iff_le_add]
    rcases Nat.eq_zero_or_pos (k * 2 ^ e) with hzero | hpos
    · simp [hzero]
    · refine Nat.le_of_lt_succ ((Nat.log2_lt (Nat.pos_iff_ne_zero.1 hpos)).2 ?_)
      have hwidth : (e + f.fraction).succ = f.fraction + 1 + e := by omega
      rw [hwidth, Nat.pow_add]
      exact Nat.mul_lt_mul_of_pos_right hk (Nat.two_pow_pos e)
  have hsplit : k * 2 ^ e =
      k * 2 ^ (e - f.excess (k * 2 ^ e)) * 2 ^ f.excess (k * 2 ^ e) := by
    rw [Nat.mul_assoc, ← Nat.pow_add, Nat.sub_add_cancel hle]
  refine ⟨_, hsplit, ?_, by omega⟩
  refine Nat.lt_of_mul_lt_mul_right (a := 2 ^ f.excess (k * 2 ^ e)) ?_
  rw [← hsplit]
  exact lt_of_excess f _

/-- A number that fits is met exactly. -/
theorem Fits.exact (h : f.Fits n) : f.units (f.nearest n 1) = n ∧ f.nearest n 1 < f.infinity := by
  obtain ⟨k, hn, hk, he⟩ := h.split
  have hquotient : divNearest n (2 ^ f.excess n) = k := by
    have hself := divNearest_mul_self k (Nat.two_pow_pos (f.excess n))
    rwa [← hn] at hself
  have hbound : f.excess n * 2 ^ f.fraction + k < f.infinity := by
    have hstep : (f.excess n + 2) * 2 ^ f.fraction ≤ f.infinity := by
      rw [infinity_eq]
      exact Nat.mul_le_mul_right _ (by omega)
    rw [Nat.pow_succ] at hk
    rw [Nat.add_mul] at hstep
    omega
  have hnearest : f.nearest n 1 = f.excess n * 2 ^ f.fraction + k := by
    rw [nearest_eq, Nat.div_one, Nat.one_mul, hquotient, Nat.min_eq_left (Nat.le_of_lt hbound)]
  rw [hnearest]
  refine ⟨?_, hbound⟩
  rcases Nat.lt_or_ge k (2 ^ f.fraction) with hlt | hge
  · -- The significand is not full, so nothing was dropped.
    have hexcess : f.excess n = 0 := by
      by_contra hne
      have hfull := le_of_excess_pos (Nat.pos_of_ne_zero hne)
      have hshort := Nat.mul_lt_mul_of_pos_right hlt (Nat.two_pow_pos (f.excess n))
      rw [← hn] at hshort
      omega
    rw [hexcess, Nat.pow_zero, Nat.mul_one] at hn
    rw [hexcess, Nat.zero_mul, Nat.zero_add, units_of_lt hlt, hn]
  · rw [units_pattern hge hk, ← hn]

end Format

/-! ## Floats -/

namespace Binary

variable {f : Format} {x y m lo hi : Binary f} {a b : Int} {n : Nat} {s : Bool}

/-- A natural number with a sign. -/
def signed (negative : Bool) (n : Nat) : Int := if negative then -(n : Int) else n

/-- A sign does not change the size. -/
theorem natAbs_signed (s : Bool) (n : Nat) : (signed s n).natAbs = n := by
  cases s <;> simp [signed]

/-- The other sign gives the opposite. -/
theorem signed_not (s : Bool) (n : Nat) : signed (!s) n = -signed s n := by
  cases s <;> simp [signed]

/-- The key that orders floats is the pattern under its sign. -/
theorem key_eq_signed (x : Binary f) : x.key = signed x.negative x.magnitude := rfl

/-- The exact value is the number of smallest units under its sign. -/
theorem exact_eq_signed (x : Binary f) : x.exact = signed x.negative (f.units x.magnitude) := rfl

/-- The size of the key is the pattern without the sign. -/
theorem natAbs_key (x : Binary f) : x.key.natAbs = x.magnitude := natAbs_signed _ _

/-- A float is a number when its pattern is infinity at most. -/
theorem isNaN_eq_false : x.isNaN = false ↔ x.magnitude ≤ f.infinity := by simp [isNaN]

/-- A float is finite when its pattern is below infinity. -/
theorem isFinite_iff : x.isFinite = true ↔ x.magnitude < f.infinity := by simp [isFinite]

/-- What is finite is a number. -/
theorem isNaN_of_isFinite (hx : x.isFinite = true) : x.isNaN = false :=
  isNaN_eq_false.2 (Nat.le_of_lt (isFinite_iff.1 hx))

/-- A number is finite or infinite. -/
theorem isFinite_or_isInfinite (hx : x.isNaN = false) :
    x.isFinite = true ∨ x.isInfinite = true := by
  simpa [isFinite, isInfinite] using Nat.lt_or_eq_of_le (isNaN_eq_false.1 hx)

/-- What is finite is not infinite. -/
theorem isInfinite_eq_false (hx : x.isFinite = true) : x.isInfinite = false := by
  have hlt := isFinite_iff.1 hx
  simp only [isInfinite, decide_eq_false_iff_not]
  omega

/-- What is not finite is no number or infinite. -/
theorem isNaN_or_isInfinite (hx : x.isFinite = false) :
    x.isNaN = true ∨ x.isInfinite = true := by
  simp only [isFinite, isNaN, isInfinite, decide_eq_true_eq, decide_eq_false_iff_not] at hx ⊢
  omega

/-- What is infinite is not finite. -/
theorem isFinite_of_isInfinite (hx : x.isInfinite = true) : x.isFinite = false := by
  simp only [isInfinite, isFinite, decide_eq_true_eq, decide_eq_false_iff_not] at hx ⊢
  omega

/-- The pattern without the sign leaves the sign's bit out. -/
theorem magnitude_lt (x : Binary f) : x.magnitude < 2 ^ (f.fraction + f.exponent) := by
  rw [magnitude, Nat.one_shiftLeft]
  exact Nat.mod_lt _ (Nat.two_pow_pos _)

/-! ### Patterns put together -/

section
variable (hn : n < 2 ^ (f.fraction + f.exponent))
include hn

/-- The bits of a built float are its pattern and, when it is negative, the sign's bit. -/
theorem toNat_build (s : Bool) : (build s n : Binary f).bits.toNat =
    if s then 2 ^ (f.fraction + f.exponent) + n else n := by
  simp only [build, ofBits, BitVec.toNat_ofNat, Nat.one_shiftLeft]
  refine Nat.mod_eq_of_lt ?_
  rw [Nat.pow_succ]
  split <;> omega

/-- A built float has the sign that it was given. -/
theorem negative_build (s : Bool) : (build s n : Binary f).negative = s := by
  simp only [negative, toNat_build hn, Nat.one_shiftLeft]
  cases s
  · simpa using hn
  · simp

/-- A built float has the pattern that it was given. -/
theorem magnitude_build (s : Bool) : (build s n : Binary f).magnitude = n := by
  simp only [magnitude, toNat_build hn, Nat.one_shiftLeft]
  cases s
  · exact Nat.mod_eq_of_lt hn
  · simpa using Nat.mod_eq_of_lt hn

/-- A built float is ordered by its pattern under its sign. -/
theorem key_build (s : Bool) : (build s n : Binary f).key = signed s n := by
  rw [key_eq_signed, negative_build hn, magnitude_build hn]

end

/-- A float is built from its own sign and pattern. -/
theorem build_self (x : Binary f) : build x.negative x.magnitude = x := by
  have hwidth : x.bits.toNat < 2 ^ (f.fraction + f.exponent) * 2 := by
    rw [← Nat.pow_succ]
    exact x.bits.isLt
  have hbits : (build x.negative x.magnitude).bits = x.bits := by
    refine BitVec.eq_of_toNat_eq ?_
    rw [toNat_build x.magnitude_lt, negative, magnitude, Nat.one_shiftLeft]
    split
    · next h =>
      rw [decide_eq_true_eq] at h
      rw [Nat.mod_eq_sub_mod h, Nat.mod_eq_of_lt (by omega)]
      omega
    · next h =>
      rw [decide_eq_true_eq] at h
      exact Nat.mod_eq_of_lt (by omega)
  cases x
  exact congrArg Binary.mk hbits

/-- The opposite of a float has the same pattern but for the sign. -/
theorem magnitude_neg (x : Binary f) : x.neg.magnitude = x.magnitude :=
  magnitude_build x.magnitude_lt _

/-- The opposite of a float has the opposite value. -/
theorem exact_neg (x : Binary f) : x.neg.exact = -x.exact := by
  rw [exact_eq_signed, neg, negative_build x.magnitude_lt, magnitude_build x.magnitude_lt,
    signed_not, exact_eq_signed]

/-- The opposite of what is finite is finite. -/
theorem isFinite_neg (hx : x.isFinite = true) : x.neg.isFinite = true := by
  rw [isFinite_iff, magnitude_neg]
  exact isFinite_iff.1 hx

/-! ### Rounded numbers -/

/-- Infinity leaves room for the sign's bit. -/
theorem infinity_lt (f : Format) : f.infinity < 2 ^ (f.fraction + f.exponent) := by
  rw [Format.infinity_eq, Nat.add_comm, Nat.pow_add]
  have hpow := Nat.two_pow_pos f.exponent
  exact Nat.mul_lt_mul_of_pos_right (by omega) (Nat.two_pow_pos _)

/-- A rounded pattern leaves room for the sign's bit. -/
theorem nearest_lt (f : Format) (num den : Nat) :
    f.nearest num den < 2 ^ (f.fraction + f.exponent) :=
  Nat.lt_of_le_of_lt (f.nearest_le_infinity num den) (infinity_lt f)

/-- The key of the float nearest to a number of smallest positive ones. -/
def rounded (f : Format) (a : Int) : Int := signed (decide (a < 0)) (f.nearest a.natAbs 1)

/-- Nothing is rounded to zero. -/
theorem nearest_zero (f : Format) : f.nearest 0 1 = 0 := by
  have hzero := f.nearest_units (Nat.zero_le f.infinity)
  rwa [f.units_zero] at hzero

/-- The key of the float nearest to a quotient of smallest positive ones. -/
def quotient (f : Format) (a : Int) (den : Nat) : Int :=
  signed (decide (a < 0)) (f.nearest a.natAbs den)

/-- A greater dividend gives no smaller quotient, sign by sign. -/
theorem quotient_mono {den : Nat} (hden : 0 < den) (h : a ≤ b) :
    quotient f a den ≤ quotient f b den := by
  simp only [quotient, signed, decide_eq_true_eq]
  split
  · split
    · -- Both are negative, and the one further from zero is the smaller one.
      have hle : f.nearest b.natAbs den ≤ f.nearest a.natAbs den :=
        Format.nearest_mono (by omega) hden
      omega
    · omega
  · have hle : f.nearest a.natAbs den ≤ f.nearest b.natAbs den :=
      Format.nearest_mono (by omega) hden
    rw [if_neg (by omega)]
    omega

/-- Rounding keeps the order of the exact values. -/
theorem rounded_mono (h : a ≤ b) : rounded f a ≤ rounded f b := quotient_mono Nat.one_pos h

/-- A number is the rounded one of its exact value. -/
theorem rounded_exact (hx : x.isNaN = false) : rounded f x.exact = x.key := by
  have hnearest := f.nearest_units (isNaN_eq_false.1 hx)
  rw [rounded, exact_eq_signed, key_eq_signed, natAbs_signed, hnearest]
  cases x.negative with
  | false => simp [signed]
  | true =>
    rcases Nat.eq_zero_or_pos x.magnitude with hzero | hpos
    · simp [signed, hzero]
    · -- A magnitude above zero is worth something, so the sign is seen again.
      have hunits : f.units x.magnitude ≠ 0 := fun hzero => by
        rw [hzero, nearest_zero] at hnearest
        omega
      simp [signed, Nat.pos_of_ne_zero hunits]

/-- A rounded float is ordered by its nearest pattern under its sign. -/
theorem key_round (s : Bool) (num den : Nat) :
    (round s num den : Binary f).key = signed s (f.nearest num den) :=
  key_build (nearest_lt f num den) s

/-- What is rounded is a number. -/
theorem isNaN_round (s : Bool) (num den : Nat) : (round s num den : Binary f).isNaN = false := by
  rw [isNaN_eq_false, round, magnitude_build (nearest_lt f num den)]
  exact f.nearest_le_infinity num den

/-- Zero is a number, whatever its sign. -/
theorem isNaN_zero (s : Bool) : (zero s : Binary f).isNaN = false := by
  rw [isNaN_eq_false, zero, magnitude_build (Nat.two_pow_pos _)]
  exact Nat.zero_le _

/-- Zeros of both signs are ordered alike. -/
theorem key_zero (s : Bool) : (zero s : Binary f).key = 0 := by
  rw [zero, key_build (Nat.two_pow_pos _)]
  cases s <;> rfl

/-! ### Sums -/

/-- The sum of two finite numbers is their exact sum, rounded. -/
theorem key_add (hx : x.isFinite = true) (hy : y.isFinite = true) :
    (x + y).isNaN = false ∧ (x + y).key = rounded f (x.exact + y.exact) := by
  change (add x y).isNaN = false ∧ (add x y).key = _
  simp only [add, isNaN_of_isFinite hx, isNaN_of_isFinite hy, isInfinite_eq_false hx,
    isInfinite_eq_false hy, Bool.or_self, Bool.false_eq_true, if_false]
  split
  · next hsum =>
    rw [hsum]
    refine ⟨isNaN_zero _, (key_zero _).trans ?_⟩
    simp [rounded, signed, nearest_zero]
  · exact ⟨isNaN_round _ _ _, key_round _ _ _⟩

/-- An infinite float absorbs a finite one. -/
theorem add_of_isInfinite (hx : x.isInfinite = true) (hy : y.isFinite = true) : x + y = x := by
  have hnumber : x.isNaN = false := by
    simp only [isInfinite, decide_eq_true_eq] at hx
    exact isNaN_eq_false.2 (Nat.le_of_eq hx)
  change add x y = x
  simp [add, hnumber, isNaN_of_isFinite hy, hx, isInfinite_eq_false hy]

/-- What is ordered behind zero has a value that is not negative. -/
theorem exact_nonneg (h : 0 ≤ x.key) : 0 ≤ x.exact := by
  rw [key_eq_signed] at h
  rw [exact_eq_signed]
  cases hsign : x.negative with
  | false => simp [signed]
  | true =>
    have hzero : x.magnitude = 0 := by
      simp only [signed, hsign, if_true] at h
      omega
    simp [signed, hzero]

protected theorem le_refl (hx : x.isNaN = false) : x ≤ x := le_iff.2 ⟨hx, hx, Int.le_refl _⟩

protected theorem le_trans {z : Binary f} (hxy : x ≤ y) (hyz : y ≤ z) : x ≤ z := by
  obtain ⟨hx, -, hle⟩ := le_iff.1 hxy
  obtain ⟨-, hz, hle'⟩ := le_iff.1 hyz
  exact le_iff.2 ⟨hx, hz, Int.le_trans hle hle'⟩

/-- Adding a margin moves no number down. -/
theorem le_add_self (hx : x.isNaN = false) (hm : m.isFinite = true) (hpos : 0 ≤ m.key) :
    x ≤ x + m := by
  rcases isFinite_or_isInfinite hx with hfinite | hinfinite
  · obtain ⟨hsum, hkey⟩ := key_add hfinite hm
    refine le_iff.2 ⟨hx, hsum, ?_⟩
    rw [hkey, ← rounded_exact hx]
    exact rounded_mono (Int.le_add_of_nonneg_right (exact_nonneg hpos))
  · rw [add_of_isInfinite hinfinite hm]
    exact Binary.le_refl hx

/-- Taking a margin off moves no number up. -/
theorem sub_le_self (hx : x.isNaN = false) (hm : m.isFinite = true) (hpos : 0 ≤ m.key) :
    x - m ≤ x := by
  change x + m.neg ≤ x
  rcases isFinite_or_isInfinite hx with hfinite | hinfinite
  · obtain ⟨hsum, hkey⟩ := key_add hfinite (isFinite_neg hm)
    refine le_iff.2 ⟨hsum, hx, ?_⟩
    rw [hkey, ← rounded_exact hx, exact_neg]
    refine rounded_mono ?_
    have hexact := exact_nonneg hpos
    omega
  · rw [add_of_isInfinite hinfinite (isFinite_neg hm)]
    exact Binary.le_refl hx

/-! ### Ranges -/

/-- What lies between finite numbers is finite. -/
theorem isFinite_of_between (hlo : lo.isFinite = true) (hhi : hi.isFinite = true)
    (hle : lo ≤ x) (hle' : x ≤ hi) : x.isFinite = true := by
  have hlo' := isFinite_iff.1 hlo
  have hhi' := isFinite_iff.1 hhi
  obtain ⟨-, -, hbelow⟩ := le_iff.1 hle
  obtain ⟨-, -, habove⟩ := le_iff.1 hle'
  rw [isFinite_iff]
  rw [← natAbs_key] at hlo' hhi' ⊢
  omega

protected theorem le_of_lt (h : x < y) : x ≤ y :=
  le_iff.2 ⟨(lt_iff.1 h).1, (lt_iff.1 h).2.1, Int.le_of_lt (lt_iff.1 h).2.2⟩

theorem not_le_of_lt (h : x < y) : ¬y ≤ x := fun hle =>
  Int.not_le.2 (lt_iff.1 h).2.2 (le_iff.1 hle).2.2

/-- Numbers are ordered one way or the other. -/
theorem le_of_not_lt (hx : x.isNaN = false) (hy : y.isNaN = false) (h : ¬x < y) : y ≤ x := by
  refine le_iff.2 ⟨hy, hx, Int.not_lt.1 fun hlt => h ?_⟩
  exact lt_iff.2 ⟨hx, hy, hlt⟩

/-- Numbers are ordered strictly one way when they are not ordered the other. -/
theorem lt_of_not_le (hx : x.isNaN = false) (hy : y.isNaN = false) (h : ¬y ≤ x) : x < y := by
  refine lt_iff.2 ⟨hx, hy, Int.not_le.1 fun hle => h ?_⟩
  exact le_iff.2 ⟨hy, hx, hle⟩

/-- A number moved into a range lies in the range. -/
theorem clamp_between (h : lo ≤ hi) (hx : x.isNaN = false) :
    lo ≤ clamp lo hi x ∧ clamp lo hi x ≤ hi := by
  obtain ⟨hlo, hhi, -⟩ := le_iff.1 h
  have hraised : lo ≤ (if x < lo then lo else x) ∧ (if x < lo then lo else x).isNaN = false := by
    split
    · exact ⟨Binary.le_refl hlo, hlo⟩
    · next hnot => exact ⟨le_of_not_lt hx hlo hnot, hx⟩
  simp only [clamp]
  generalize (if x < lo then lo else x) = raised at hraised ⊢
  split
  · exact ⟨h, Binary.le_refl hhi⟩
  · next hnot => exact ⟨hraised.1, le_of_not_lt hhi hraised.2 hnot⟩

/-- What lies between the bounds is not moved. -/
theorem clamp_eq_self (hlo : lo ≤ x) (hhi : x ≤ hi) : clamp lo hi x = x := by
  have hnot : ¬x < lo := fun h => not_le_of_lt h hlo
  have hnot' : ¬hi < x := fun h => not_le_of_lt h hhi
  simp only [clamp, if_neg hnot, if_neg hnot']

/-- The larger of two numbers is one of them, and not below the other. -/
theorem max_cases (hx : x.isNaN = false) (hy : y.isNaN = false) :
    x ≤ x.max y ∧ y ≤ x.max y ∧ (x.max y = x ∨ x.max y = y) := by
  simp only [max, hy, Bool.false_eq_true, if_false]
  split
  · next hlt =>
    refine ⟨Binary.le_refl hx, le_iff.2 ⟨hy, hx, ?_⟩, .inl rfl⟩
    exact Int.le_of_lt (lt_iff.1 hlt).2.2
  · next hnot => exact ⟨le_of_not_lt hy hx hnot, Binary.le_refl hy, .inr rfl⟩

/-- The smaller of two numbers is one of them, and not above the other. -/
theorem min_cases (hx : x.isNaN = false) (hy : y.isNaN = false) :
    x.min y ≤ x ∧ x.min y ≤ y ∧ (x.min y = x ∨ x.min y = y) := by
  simp only [min, hy, Bool.false_eq_true, if_false]
  split
  · next hlt =>
    refine ⟨Binary.le_refl hx, le_iff.2 ⟨hx, hy, ?_⟩, .inl rfl⟩
    exact Int.le_of_lt (lt_iff.1 hlt).2.2
  · next hnot => exact ⟨le_of_not_lt hx hy hnot, Binary.le_refl hy, .inr rfl⟩

/-- The size of a float is ordered by its pattern. -/
theorem key_abs (x : Binary f) : x.abs.key = x.magnitude := key_build x.magnitude_lt false

/-- The size of a float is a number just when the float is. -/
theorem isNaN_abs (x : Binary f) : x.abs.isNaN = x.isNaN := by
  simp only [isNaN, abs, magnitude_build x.magnitude_lt]

/-- No number is beyond infinity. -/
theorem not_infinity_lt (x : Binary f) : ¬infinity false < x := by
  intro hlt
  obtain ⟨-, hx, hkey⟩ := lt_iff.1 hlt
  have hmagnitude := isNaN_eq_false.1 hx
  rw [infinity, key_build (infinity_lt f), key_eq_signed] at hkey
  cases hsign : x.negative <;> simp only [signed, hsign, Bool.false_eq_true, if_true, if_false]
    at hkey <;> omega

end Binary

end RenderStream
