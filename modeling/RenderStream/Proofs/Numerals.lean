import Mathlib.Data.List.Basic
import Mathlib.Data.List.TakeWhile
import RenderStream.Proofs.Rounding
import RenderStream.Toml.Printer

/-!
# Numbers that are read back

The decimal of a float is found by search, and what the search answers reads back as the float: its
last resort is the grid that holds the float itself (`Decimal.search_reads_back`). Printing it moves
the point but not the number, so the word reads back too (`Toml.isWord_float`), as that of an
integer does (`Toml.isWord_integer`). A word is tried as a moment, as a float and as an integer; of
a word that begins with a digit or a minus, and goes on with digits, a point decides
(`Toml.float?_point`, `Toml.float?_digits`).
-/

namespace RenderStream

/-! ## Decimals -/

namespace Binary
variable {f : Format} {m k : Nat} {e : Int}

/-- The sign of a decimal is that of its float, and has no part in rounding. -/
theorem ofDecimal_eq_build (s : Bool) (m : Nat) (e : Int) :
    (ofDecimal s m e : Binary f) = build s (ofDecimal false m e : Binary f).magnitude := by
  have hzero : 0 < 2 ^ (f.fraction + f.exponent) := Nat.two_pow_pos _
  unfold ofDecimal
  split
  · rw [zero, zero, magnitude_build hzero]
  · split
    · rw [infinity, infinity, magnitude_build (infinity_lt f)]
    · split
      · rw [zero, zero, magnitude_build hzero]
      · split <;> rw [round, round, magnitude_build (nearest_lt f _ _)]

/-- A decimal with some places behind the point, not so many that they decide by themselves. -/
theorem magnitude_ofDecimal_neg (hm : m ≠ 0) (hk : 0 < k) (hk' : k ≤ 2 ^ f.exponent) :
    (ofDecimal false m (-(k : Int)) : Binary f).magnitude =
      f.nearest (m * 2 ^ f.scale) (10 ^ k) := by
  have hhuge : ¬((1 <<< f.exponent : Nat) : Int) < -(k : Int) := by omega
  have htiny : ¬(m.log2 : Int) + 1 + -(k : Int) < -((1 <<< f.exponent : Nat) : Int) := by
    rw [Nat.one_shiftLeft]
    omega
  have hbehind : ¬(0 : Int) ≤ -(k : Int) := by omega
  unfold ofDecimal
  rw [if_neg hm, if_neg hhuge, if_neg htiny, if_neg hbehind, Int.neg_neg, Int.toNat_natCast, round,
    magnitude_build (nearest_lt f _ _), Nat.shiftLeft_eq]
  rfl

end Binary

namespace Decimal
variable {f : Format} {m : Nat} {d : Decimal}

/-- A decimal reads back as a finite magnitude other than zero only by rounding. -/
theorem magnitude_toBinary (h : (d.toBinary f).magnitude = m) (hm : 0 < m)
    (hfinite : m < f.infinity) (hexp : 0 ≤ d.exponent) :
    m = f.nearest (d.digits * 10 ^ d.exponent.toNat * 2 ^ f.scale) 1 := by
  have hzero : 0 < 2 ^ (f.fraction + f.exponent) := Nat.two_pow_pos _
  unfold toBinary Binary.ofDecimal at h
  split at h
  · rw [Binary.zero, Binary.magnitude_build hzero] at h
    omega
  · split at h
    · rw [Binary.infinity, Binary.magnitude_build (Binary.infinity_lt f)] at h
      omega
    · split at h
      · rw [Binary.zero, Binary.magnitude_build hzero] at h
        omega
      · rw [Binary.round, Binary.magnitude_build (Binary.nearest_lt f _ _),
          Nat.shiftLeft_eq] at h
        exact h.symm

/-- A decimal that is rounded to a float that is not zero has digits. -/
theorem digits_ne_zero (h : (d.toBinary f).magnitude = m) (hm : 0 < m) : d.digits ≠ 0 := by
  intro hzero
  rw [toBinary, Binary.ofDecimal, if_pos hzero, Binary.zero,
    Binary.magnitude_build (Nat.two_pow_pos _)] at h
  omega

/-- A whole number reads back just as well with a zero behind the point. -/
theorem magnitude_with_zero (h : (d.toBinary f).magnitude = m) (hm : 0 < m)
    (hfinite : m < f.infinity) (hexp : 0 ≤ d.exponent) :
    (Binary.ofDecimal false (10 * (d.digits * 10 ^ d.exponent.toNat)) (-((1 : Nat) : Int)) :
      Binary f).magnitude = m := by
  have hdigits := digits_ne_zero h hm
  have hrounded := magnitude_toBinary h hm hfinite hexp
  have hnumber : 10 * (d.digits * 10 ^ d.exponent.toNat) ≠ 0 :=
    Nat.mul_ne_zero (by decide) (Nat.mul_ne_zero hdigits (Nat.ne_of_gt (Nat.pow_pos (by decide))))
  have htens : 10 * (d.digits * 10 ^ d.exponent.toNat) * 2 ^ f.scale =
      d.digits * 10 ^ d.exponent.toNat * 2 ^ f.scale * 10 := by
    rw [Nat.mul_comm 10, Nat.mul_right_comm]
  have hshared := Format.nearest_mul_mul (f := f) (d.digits * 10 ^ d.exponent.toNat * 2 ^ f.scale) 1
    (k := 10) (by decide)
  rw [Nat.one_mul] at hshared
  rw [Binary.magnitude_ofDecimal_neg hnumber Nat.one_pos Nat.one_le_two_pow, htens, Nat.pow_one,
    hshared, ← hrounded]

/-- The search for fewer digits keeps to decimals that are rounded to the float. -/
theorem search_reads_back (hscale : 0 < f.scale) (hscale' : f.scale ≤ 2 ^ f.exponent) (hm : 0 < m)
    (hfinite : m < f.infinity) (n : Nat) : ((search f m n).toBinary f).magnitude = m := by
  induction n with
  | zero =>
    -- The last resort is the grid that holds the float: its units, times a power of five.
    have hunits : f.units m ≠ 0 := by
      intro hzero
      have hself := Format.nearest_units (Nat.le_of_lt hfinite)
      rw [hzero, Binary.nearest_zero] at hself
      omega
    have hfives : f.units m * 5 ^ f.scale ≠ 0 :=
      Nat.mul_ne_zero hunits (Nat.ne_of_gt (Nat.pow_pos (by decide)))
    have htens : f.units m * 5 ^ f.scale * 2 ^ f.scale = f.units m * 10 ^ f.scale := by
      rw [Nat.mul_assoc, ← Nat.mul_pow]
    rw [search, toBinary]
    refine (Binary.magnitude_ofDecimal_neg hfives hscale hscale').trans ?_
    rw [htens, Format.nearest_mul_self _ (Nat.pow_pos (by decide)),
      Format.nearest_units (Nat.le_of_lt hfinite)]
  | succ n ih =>
    unfold search
    dsimp only
    split
    · next d hd =>
      exact beq_iff_eq.1 (List.find?_some (p := fun d => (toBinary f d).magnitude == m) hd)
    · exact ih

/-- The shortest decimal is rounded to the float that it was made for. -/
theorem shortest_reads_back (hscale : 0 < f.scale) (hscale' : f.scale ≤ 2 ^ f.exponent)
    (hm : 0 < m) (hfinite : m < f.infinity) : ((shortest f m).toBinary f).magnitude = m :=
  search_reads_back hscale hscale' hm hfinite _

end Decimal

namespace Toml

/-! ## Digits -/

section
variable {c : Char} {cs ds : List Char} {n : Nat}

/-- Decimal digits, one at least. -/
structure Digits (ds : List Char) : Prop where
  ne_nil : ds ≠ []
  isDigit : ∀ c ∈ ds, c.isDigit = true

/-- A number is written in digits. -/
theorem digits_toDigits (n : Nat) : Digits (Nat.toDigits 10 n) :=
  ⟨Nat.toDigits_ne_nil, fun _ hc => Nat.isDigit_of_mem_toDigits (by decide) (by decide) hc⟩

/-- The number that digits stand for. -/
theorem number_eq_ofDigitChars (h : ∀ c ∈ ds, c.isDigit = true) :
    number 10 digitValue ds = Nat.ofDigitChars 10 ds 0 := by
  have hfold (i : Nat) :
      ds.foldl (fun n c => 10 * n + digitValue c) i = Nat.ofDigitChars 10 ds i := by
    induction ds generalizing i with
    | nil => rfl
    | cons c ds ih =>
      obtain ⟨hc, hds⟩ := List.forall_mem_cons.1 h
      rw [List.foldl_cons, ih hds, Nat.ofDigitChars_cons, digitValue, if_pos hc]
  exact hfold 0

/-- A number is read from its digits. -/
theorem number_toDigits (n : Nat) : number 10 digitValue (Nat.toDigits 10 n) = n := by
  rw [number_eq_ofDigitChars (digits_toDigits n).isDigit, Nat.ofDigitChars_ten_toDigits]

/-- A number that is not zero is written without a zero in front. -/
theorem head?_toDigits (hn : 0 < n) : (Nat.toDigits 10 n).head? ≠ some '0' := by
  induction n using Nat.strong_induction_on with
  | _ n ih =>
    rw [Nat.toDigits_eq_if (by decide)]
    split
    · intro h
      rw [List.head?_cons, Option.some_inj, Nat.digitChar_eq_zero] at h
      omega
    · rw [List.head?_append_of_ne_nil _ Nat.toDigits_ne_nil]
      exact ih _ (by omega) (by omega)

/-- Digits without a separator are read as they are. -/
theorem Digits.grouped (h : Digits ds) : grouped Char.isDigit ds = some ds := by
  obtain ⟨hne, hdigit⟩ := h
  induction ds with
  | nil => exact absurd rfl hne
  | cons c ds ih =>
    obtain ⟨hc, hds⟩ := List.forall_mem_cons.1 hdigit
    cases ds with
    | nil => simp [Toml.grouped, hc]
    | cons d ds =>
      have hd : d ≠ '_' := by
        rintro rfl
        exact absurd (List.forall_mem_cons.1 hds).1 (by decide)
      rw [Toml.grouped, if_pos hc, ih (List.cons_ne_nil d ds) hds, Option.map_some]
      · exact List.cons_ne_nil d ds
      · intro r hr
        exact hd (List.cons.inj hr).1

/-- Digits that may stand before a point: a zero is the only one. -/
structure Whole (ds : List Char) : Prop extends Digits ds where
  head : ds.head? = some '0' → ds.length = 1

/-- Digits that may stand before a point are read as they are. -/
theorem Whole.wholePart (h : Whole ds) : wholePart ds = some ds := by
  unfold Toml.wholePart
  split
  · next r =>
    have hlength := h.head rfl
    simp at hlength
  · exact h.grouped

/-- The digits of a number may stand before a point. -/
theorem whole_toDigits (n : Nat) : Whole (Nat.toDigits 10 n) := by
  refine ⟨digits_toDigits n, fun hhead => ?_⟩
  rcases Nat.eq_zero_or_pos n with rfl | hpos
  · rfl
  · exact absurd hhead (head?_toDigits hpos)

/-! ## Words -/

/-- A word with a minus in front, or without. -/
def withSign (negative : Bool) (cs : List Char) : List Char := if negative then '-' :: cs else cs

/-- A sign in front of digits is split off. -/
theorem Digits.splitSign (h : Digits ds) (negative : Bool) (cs : List Char) :
    splitSign (withSign negative (ds ++ cs)) = (negative, ds ++ cs) := by
  cases negative with
  | true => rfl
  | false =>
    obtain ⟨hne, hdigit⟩ := h
    cases ds with
    | nil => exact absurd rfl hne
    | cons c ds =>
      have hc := (List.forall_mem_cons.1 hdigit).1
      simp only [withSign, Bool.false_eq_true, if_false, List.cons_append]
      unfold Toml.splitSign
      split
      · next hminus =>
        rw [(List.cons.inj hminus).1] at hc
        exact absurd hc (by decide)
      · next hplus =>
        rw [(List.cons.inj hplus).1] at hc
        exact absurd hc (by decide)
      · rfl

/-- A word that begins with a digit or a minus is none of the words that begin otherwise. -/
theorem Digits.ne_word (h : Digits ds) (negative : Bool) (cs : List Char) {d : Char}
    {w : List Char} (hminus : d ≠ '-') (hd : d.isDigit = false) :
    withSign negative (ds ++ cs) ≠ d :: w := by
  obtain ⟨hne, hdigit⟩ := h
  cases ds with
  | nil => exact absurd rfl hne
  | cons c ds =>
    intro heq
    cases negative with
    | true => exact hminus (List.cons.inj heq).1.symm
    | false =>
      have hc := (List.forall_mem_cons.1 hdigit).1
      rw [(List.cons.inj heq).1, hd] at hc
      cases hc

/-- What printed numbers and switches consist of. -/
def isSober (c : Char) : Bool := c.isAlphanum || c = '.' || c = '-'

/-- A digit is sober. -/
theorem isSober_of_isDigit (hc : c.isDigit = true) : isSober c = true := by
  simp [isSober, Char.isAlphanum, hc]

/-- A digit is none of the characters that are no digits. -/
theorem ne_of_isDigit {d : Char} (hc : c.isDigit = true) (hd : d.isDigit = false) : c ≠ d := by
  rintro rfl
  rw [hd] at hc
  cases hc

/-- A digit marks no exponent. -/
theorem not_exponentMark (hc : c.isDigit = true) : (!isExponentMark c) = true := by
  simp [isExponentMark, ne_of_isDigit hc (d := 'e') rfl, ne_of_isDigit hc (d := 'E') rfl]

/-- Digits around a point are read as the float that the decimal is rounded to, when it is
finite. -/
theorem float?_point {whole fraction : List Char} (hwhole : Whole whole)
    (hfraction : Digits fraction) (negative : Bool) {x : Double}
    (hx : Binary.ofDecimal negative (number 10 digitValue (whole ++ fraction))
      (-(fraction.length : Int)) = x) (hfinite : x.isFinite = true) :
    float? (withSign negative (whole ++ '.' :: fraction)) = some x := by
  have hbefore (c : Char) (hc : c ∈ whole) : (c != '.' && !isExponentMark c) = true := by
    have hdigit := hwhole.isDigit c hc
    simp [not_exponentMark hdigit, ne_of_isDigit hdigit (d := '.') rfl]
  have hbehind (c : Char) (hc : c ∈ fraction) : (!isExponentMark c) = true :=
    not_exponentMark (hfraction.isDigit c hc)
  have hinf : whole ++ '.' :: fraction ≠ ['i', 'n', 'f'] :=
    hwhole.ne_word false ('.' :: fraction) (by decide) (by decide)
  have hnan : whole ++ '.' :: fraction ≠ ['n', 'a', 'n'] :=
    hwhole.ne_word false ('.' :: fraction) (by decide) (by decide)
  have hinfinite : x ≠ .infinity false := by
    rintro rfl
    exact absurd hfinite (by decide)
  have hpoint : List.takeWhile (fun c => c != '.' && !isExponentMark c) ('.' :: fraction) = [] :=
    rfl
  have hpoint' : List.dropWhile (fun c => c != '.' && !isExponentMark c) ('.' :: fraction) =
    '.' :: fraction := rfl
  have hfractional : List.takeWhile (fun c => !isExponentMark c) fraction = fraction :=
    List.takeWhile_eq_self_iff.2 hbehind
  have hend : List.dropWhile (fun c => !isExponentMark c) ('.' :: fraction) = [] :=
    List.dropWhile_eq_nil_iff.2 (List.forall_mem_cons.2 ⟨rfl, hbehind⟩)
  unfold float?
  simp only [hwhole.splitSign, String.reduceToList, if_neg hinf, if_neg hnan,
    List.takeWhile_append_of_pos hbefore, List.dropWhile_append_of_pos hbefore, hpoint, hpoint',
    hfractional, hend, List.append_nil, hwhole.wholePart, hfraction.grouped, exponent?,
    Option.bind_eq_bind, Option.bind_some, Int.zero_sub, hx, if_neg hinfinite]
  rfl

/-- Digits alone are no float. -/
theorem float?_digits (h : Digits ds) (negative : Bool) : float? (withSign negative ds) = none := by
  have hbefore (c : Char) (hc : c ∈ ds) : (c != '.' && !isExponentMark c) = true := by
    have hdigit := h.isDigit c hc
    simp [not_exponentMark hdigit, ne_of_isDigit hdigit (d := '.') rfl]
  have hsign := h.splitSign negative []
  have hinf := h.ne_word false [] (d := 'i') (w := ['n', 'f']) (by decide) (by decide)
  have hnan := h.ne_word false [] (d := 'n') (w := ['a', 'n']) (by decide) (by decide)
  have hend : List.dropWhile (fun c => c != '.' && !isExponentMark c) ds = [] :=
    List.dropWhile_eq_nil_iff.2 hbefore
  simp only [List.append_nil, withSign, Bool.false_eq_true, if_false] at hsign hinf hnan
  unfold float?
  simp only [withSign, hsign, String.reduceToList, if_neg hinf, if_neg hnan, hend,
    Option.bind_eq_bind, Option.bind_none, Option.bind_fun_none]

/-- Behind the first character of a signed word stands no sign. -/
theorem mem_of_mem_tail_withSign {negative : Bool} (h : c ∈ (withSign negative cs).tail) :
    c ∈ cs := by
  cases negative with
  | true => exact h
  | false => exact List.mem_of_mem_tail h

/-- Digits and points are sober, with a sign or without. -/
theorem isSober_withSign (negative : Bool) (h : ∀ c ∈ cs, c.isDigit = true ∨ c = '.') :
    ∀ c ∈ withSign negative cs, isSober c = true := by
  have hcs : ∀ c ∈ cs, isSober c = true := by
    intro c hc
    rcases h c hc with hdigit | rfl
    · exact isSober_of_isDigit hdigit
    · rfl
  cases negative with
  | true => exact List.forall_mem_cons.2 ⟨rfl, hcs⟩
  | false => exact hcs

/-- Digits are read as an integer under their sign, within the bound of a document. -/
theorem integer?_digits (h : Whole ds) (negative : Bool) : integer? (withSign negative ds) =
    bounded (if negative then -(number 10 digitValue ds : Int) else number 10 digitValue ds) := by
  have hsign := h.splitSign negative []
  rw [List.append_nil] at hsign
  -- A letter behind a zero would stand among the digits.
  have hbase {d : Char} {r : List Char} (hd : d.isDigit = false)
      (hword : withSign negative ds = '0' :: d :: r) : False := by
    have hmem : d ∈ (withSign negative ds).tail := by rw [hword]; exact List.mem_cons_self
    exact ne_of_isDigit (h.isDigit d (mem_of_mem_tail_withSign hmem)) hd rfl
  unfold integer?
  split
  · next hword => exact (hbase rfl hword).elim
  · next hword => exact (hbase rfl hword).elim
  · next hword => exact (hbase rfl hword).elim
  · simp only [hsign, h.wholePart, Option.bind_eq_bind, Option.bind_some]

/-! ## Dates and times -/

/-- A word without a dash or a colon behind its first character is no time. -/
theorem isMoment_eq_false (h : ∀ c ∈ cs.tail, c ≠ '-' ∧ c ≠ ':') : isMoment cs = false := by
  have hmem (i : Nat) {c : Char} (hc : cs[i + 1]? = some c) : c ∈ cs.tail := by
    rw [← List.getElem?_tail] at hc
    exact List.mem_of_getElem? hc
  have hdate : afterDate cs = none := by
    unfold afterDate
    split
    · exact absurd rfl (h '-' (hmem 3 rfl)).1
    · rfl
  have htime : afterTime cs = none := by
    unfold afterTime
    split
    · exact absurd rfl (h ':' (hmem 1 rfl)).2
    · rfl
  rw [isMoment, hdate, htime]
  rfl

/-- A word of digits and points is neither a switch nor a moment. -/
theorem scalar?_number (h : Digits ds) (negative : Bool)
    (hcs : ∀ c ∈ cs, c.isDigit = true ∨ c = '.') :
    scalar? (withSign negative (ds ++ cs)) =
      ((float? (withSign negative (ds ++ cs))).map Value.float <|>
        (integer? (withSign negative (ds ++ cs))).map Value.integer) := by
  have hmoment : isMoment (withSign negative (ds ++ cs)) = false := by
    refine isMoment_eq_false fun c hc => ?_
    have hc : c.isDigit = true ∨ c = '.' :=
      (List.mem_append.1 (mem_of_mem_tail_withSign hc)).elim
        (fun hc => .inl (h.isDigit c hc)) (hcs c)
    rcases hc with hdigit | rfl
    · exact ⟨ne_of_isDigit hdigit rfl, ne_of_isDigit hdigit rfl⟩
    · decide
  have htrue := h.ne_word negative cs (d := 't') (w := ['r', 'u', 'e']) (by decide) (by decide)
  have hfalse := h.ne_word negative cs (d := 'f') (w := ['a', 'l', 's', 'e']) (by decide)
    (by decide)
  simp only [scalar?, String.reduceToList, if_neg htrue, if_neg hfalse, hmoment, Bool.false_eq_true,
    if_false]

/-! ## Printed words -/

/-- A text that is one word, and is read as a value. -/
structure IsWord (text : String) (v : Value) : Prop where
  reads : scalar? text.toList = some v
  isSober : ∀ c ∈ text.toList, isSober c = true

/-- A switch is printed as a word that is read as the switch. -/
theorem isWord_flag (on : Bool) : IsWord (if on then "true" else "false") (.flag on) := by
  cases on with
  | true => exact ⟨rfl, List.all_eq_true.1 rfl⟩
  | false => exact ⟨rfl, List.all_eq_true.1 rfl⟩

/-- An integer is printed as a word that is read as the integer. -/
theorem isWord_integer {n : Int} (hn : isInteger n = true) : IsWord (toString n) (.integer n) := by
  have hdigits := digits_toDigits n.natAbs
  have hprint : (toString n).toList = withSign (decide (n < 0)) (Nat.toDigits 10 n.natAbs) := by
    rw [Int.toString_eq_repr, Int.repr_eq_if, withSign]
    split
    · have hnegative : ¬n < 0 := by omega
      have habs : n.natAbs = n.toNat := by omega
      rw [decide_eq_false hnegative, if_neg Bool.false_ne_true, Nat.toList_repr, habs]
    · have hnegative : n < 0 := by omega
      have habs : n.natAbs = (-n).toNat := by omega
      rw [decide_eq_true hnegative, if_pos rfl, String.toList_append, Nat.toList_repr, habs]
      rfl
  have hvalue : (if decide (n < 0) = true then -((n.natAbs : Nat) : Int) else n.natAbs) = n := by
    split <;> simp only [decide_eq_true_eq] at * <;> omega
  constructor
  · have hscalar := scalar?_number hdigits (decide (n < 0)) (List.forall_mem_nil _)
    rw [List.append_nil, float?_digits hdigits, integer?_digits (whole_toDigits _),
      number_toDigits, hvalue, bounded, if_pos hn] at hscalar
    rw [hprint, hscalar]
    rfl
  · rw [hprint]
    exact isSober_withSign _ fun c hc => .inl (hdigits.isDigit c hc)

/-! ## Floats -/

/-- Digits around a point. -/
def Pointed (word : String) (n places : Nat) : Prop :=
  ∃ whole fraction, Whole whole ∧ Digits fraction ∧ word.toList = whole ++ '.' :: fraction ∧
    number 10 digitValue (whole ++ fraction) = n ∧ fraction.length = places

/-- A whole number is printed with one place, a zero. -/
theorem pointed_whole (n : Nat) : Pointed (toString n ++ ".0") (10 * n) 1 := by
  refine ⟨Nat.toDigits 10 n, ['0'], whole_toDigits n, ⟨by simp, by simp⟩, ?_, ?_, rfl⟩
  · rw [String.toList_append, Nat.toString_eq_ofList_toDigits, String.toList_ofList]
    rfl
  · have hnumber := number_toDigits n
    rw [number, List.foldl_append, ← number, hnumber]
    rfl

/-- A decimal with places is printed as its digits around a point. -/
theorem pointed_point {n places : Nat} (hn : 0 < n) (hplaces : 0 < places) :
    Pointed (Decimal.point n places) n places := by
  have hdigits := digits_toDigits n
  have hhead := head?_toDigits hn
  have hnumber := Nat.ofDigitChars_ten_toDigits (n := n)
  unfold Decimal.point List.leftpad
  generalize Nat.toDigits 10 n = ds at hdigits hhead hnumber ⊢
  generalize htext : List.replicate (places + 1 - ds.length) '0' ++ ds = text
  have hall : ∀ c ∈ text, c.isDigit = true := by
    rw [← htext]
    intro c hc
    rcases List.mem_append.1 hc with hc | hc
    · rw [List.eq_of_mem_replicate hc]
      rfl
    · exact hdigits.isDigit c hc
  have hlength : text.length = places + 1 - ds.length + ds.length := by
    rw [← htext, List.length_append, List.length_replicate]
  refine ⟨text.take (text.length - places), text.drop (text.length - places), ⟨⟨?_, ?_⟩, ?_⟩,
    ⟨?_, ?_⟩, ?_, ?_, ?_⟩
  · rw [← List.length_pos_iff, List.length_take]
    omega
  · exact fun c hc => hall c (List.mem_of_mem_take hc)
  · intro hzero
    rw [List.length_take]
    by_contra hlong
    have hpadding : places + 1 - ds.length = 0 := by omega
    rw [hpadding, List.replicate_zero, List.nil_append] at htext
    rw [← htext, List.head?_take, if_neg (by omega)] at hzero
    exact hhead hzero
  · rw [← List.length_pos_iff, List.length_drop]
    omega
  · exact fun c hc => hall c (List.mem_of_mem_drop hc)
  · simp only [String.toList_append, String.toList_ofList, List.append_assoc]
    rfl
  · rw [List.take_append_drop, number_eq_ofDigitChars hall, ← htext, Nat.ofDigitChars_append,
      Nat.ofDigitChars_replicate_zero, Nat.mul_zero, hnumber]
  · rw [List.length_drop]
    omega

/-- Digits around a point, with the sign of a float that they are rounded to, are a word that is
read as the float. -/
theorem Pointed.isWord {text : String} {n places : Nat} (h : Pointed text n places) {x : Double}
    (hx : .ofDecimal x.negative n (-(places : Int)) = x) (hfinite : x.isFinite = true) :
    IsWord (x.signText ++ text) (.float x) := by
  obtain ⟨whole, fraction, hwhole, hfraction, htext, hnumber, hplaces⟩ := h
  rw [← hnumber, ← hplaces] at hx
  have hpoint : ∀ c ∈ '.' :: fraction, c.isDigit = true ∨ c = '.' :=
    List.forall_mem_cons.2 ⟨.inr rfl, fun c hc => .inl (hfraction.isDigit c hc)⟩
  have hprint : (x.signText ++ text).toList =
      withSign x.negative (whole ++ '.' :: fraction) := by
    rw [String.toList_append, htext, Binary.signText, withSign]
    cases x.negative <;> rfl
  constructor
  · rw [hprint, scalar?_number hwhole.toDigits _ hpoint,
      float?_point hwhole hfraction _ hx hfinite]
    rfl
  · rw [hprint]
    exact isSober_withSign _ fun c hc => (List.mem_append.1 hc).elim
      (fun hc => .inl (hwhole.isDigit c hc)) (hpoint c)

/-- A finite float is printed as a word that is read as the float. -/
theorem isWord_float {x : Double} (hx : x.isFinite = true) : IsWord x.toShortest (.float x) := by
  unfold Binary.toShortest
  rw [Binary.isNaN_of_isFinite hx, Binary.isInfinite_eq_false hx, if_neg Bool.false_ne_true,
    if_neg Bool.false_ne_true]
  split
  · next hzero =>
    refine (pointed_whole 0).isWord ?_ hx
    rw [Binary.ofDecimal, if_pos rfl, Binary.zero, ← hzero, Binary.build_self]
  · next hmagnitude =>
    have hpos := Nat.pos_of_ne_zero hmagnitude
    have hfinite := Binary.isFinite_iff.1 hx
    have hreads := Decimal.shortest_reads_back (f := .double) (by decide) (by decide) hpos hfinite
    generalize Decimal.shortest .double x.magnitude = d at hreads ⊢
    have hdigits := Nat.pos_of_ne_zero (Decimal.digits_ne_zero hreads hpos)
    unfold Decimal.positional
    split
    · next hexp =>
      refine (pointed_whole _).isWord ?_ hx
      refine (Binary.ofDecimal_eq_build _ _ _).trans ?_
      refine (congrArg _ (Decimal.magnitude_with_zero hreads hpos hfinite hexp)).trans ?_
      exact Binary.build_self x
    · next hexp =>
      have hplaces : -(((-d.exponent).toNat : Nat) : Int) = d.exponent := by omega
      refine (pointed_point hdigits (by omega)).isWord ?_ hx
      rw [hplaces, Binary.ofDecimal_eq_build, ← Decimal.toBinary, hreads, Binary.build_self]

end

end Toml

end RenderStream
