import Mathlib.Data.List.Induction
import RenderStream.Proofs.Exact
import RenderStream.Proofs.Visible
import RenderStream.Quality.Window

/-!
# What a load history tells

A history holds the last samples that were pushed (`Window.samples_history`), and its least and its
greatest frame time are taken from them. The sum is another matter: it is carried along, so it is a
function of the samples held only as long as no addition and no subtraction was rounded. Frame times
on a common grid keep it exact (`Window.summed_history`), and then the mean lies between the
extremes.
-/

namespace RenderStream

/-! ## Extremes of a list -/

/-- What is taken from a list member by member, the better one each time. -/
theorem Extreme.foldl {α : Type} {R : α → α → Prop} {op : α → α → α} {start : α} {xs : List α}
    (hne : xs ≠ []) (hfirst : ∀ x ∈ xs, op start x = x ∧ R x x)
    (hnext : ∀ {m ys}, Extreme R m ys → ∀ x ∈ xs, Extreme R (op m x) (ys ++ [x])) :
    Extreme R (xs.foldl op start) xs := by
  have hrest : ∀ {m ys} (zs : List α), Extreme R m ys → (∀ z ∈ zs, z ∈ xs) →
      Extreme R (zs.foldl op m) (ys ++ zs) := by
    intro m ys zs hm hzs
    induction zs generalizing m ys with
    | nil => rwa [List.append_nil]
    | cons z zs ih =>
      have hz := ih (hnext hm z (hzs z List.mem_cons_self)) fun y hy =>
        hzs y (List.mem_cons_of_mem _ hy)
      rwa [List.append_assoc] at hz
  obtain ⟨x, rest, rfl⟩ := List.exists_cons_of_ne_nil hne
  obtain ⟨hstart, hrefl⟩ := hfirst x List.mem_cons_self
  rw [List.foldl_cons, hstart]
  exact hrest rest (.singleton hrefl) fun y hy => List.mem_cons_of_mem _ hy

namespace Binary

variable {f : Format} {x : Binary f} {xs : List (Binary f)}

/-- No number is below negative infinity. -/
theorem not_lt_infinity (x : Binary f) : ¬x < infinity true := by
  intro hlt
  obtain ⟨hx, -, hkey⟩ := lt_iff.1 hlt
  have hmagnitude := isNaN_eq_false.1 hx
  rw [infinity, key_build (infinity_lt f), key_eq_signed] at hkey
  cases hsign : x.negative <;> simp only [signed, hsign, Bool.false_eq_true, if_true, if_false]
    at hkey <;> omega

/-- The minimum from infinity down over numbers is the least of them. -/
theorem foldl_min_extreme (hne : xs ≠ []) (hxs : ∀ x ∈ xs, x.isNaN = false) :
    Extreme (· ≤ ·) (xs.foldl min (infinity false)) xs := by
  refine Extreme.foldl hne (fun x hx => ⟨?_, Binary.le_refl (hxs x hx)⟩)
    fun hm x hx => hm.min (hxs x hx)
  simp [min, hxs x hx, not_infinity_lt]

/-- The maximum from minus infinity up over numbers is the greatest of them. -/
theorem foldl_max_extreme (hne : xs ≠ []) (hxs : ∀ x ∈ xs, x.isNaN = false) :
    Extreme (· ≥ ·) (xs.foldl max (infinity true)) xs := by
  refine Extreme.foldl hne (fun x hx => ⟨?_, Binary.le_refl (hxs x hx)⟩)
    fun hm x hx => hm.max (hxs x hx)
  simp [max, hxs x hx, not_lt_infinity]

/-- Bounds of some numbers bound their sum, as many times over. -/
theorem exactSum_between {lo hi : Int} (h : ∀ x ∈ xs, lo ≤ x.exact ∧ x.exact ≤ hi) :
    lo * xs.length ≤ exactSum xs ∧ exactSum xs ≤ hi * xs.length := by
  induction xs with
  | nil => simp [exactSum]
  | cons x xs ih =>
    obtain ⟨hx, hxs⟩ := List.forall_mem_cons.1 h
    have hrest := ih hxs
    rw [exactSum, List.length_cons, Int.natCast_succ, Int.mul_add, Int.mul_add, Int.mul_one,
      Int.mul_one]
    omega

end Binary

namespace Window

variable {w : Window} {s : Sample} {ss : List Sample} {capacity e bound : Nat}

/-! ## The samples held -/

/-- The window behind some samples. -/
def history (capacity : Nat) (ss : List Sample) : Window := ss.foldl push (empty capacity)

/-- The last sample is pushed on the history of those before it. -/
theorem history_snoc (capacity : Nat) (ss : List Sample) (s : Sample) :
    history capacity (ss ++ [s]) = (history capacity ss).push s := by
  rw [history, List.foldl_append]
  rfl

/-- An eviction leaves the capacity. -/
theorem capacity_evict (w : Window) : w.evict.capacity = w.capacity := by
  rw [evict]
  split <;> rfl

/-- A push leaves the capacity. -/
theorem capacity_push (w : Window) (s : Sample) : (w.push s).capacity = w.capacity := by
  simp only [push]
  split
  · exact capacity_evict w
  · rfl

/-- A history has room for one sample at least. -/
theorem capacity_history (capacity : Nat) (ss : List Sample) :
    (history capacity ss).capacity = max capacity 1 := by
  induction ss using List.reverseRecOn with
  | nil => rfl
  | append_singleton ss s ih => rw [history_snoc, capacity_push, ih]

/-- An eviction takes the earliest sample. -/
theorem samples_evict (w : Window) : w.evict.samples = w.samples.tail := by
  rw [evict]
  split <;> simp_all

/-- A push adds its sample at the end and, on a full window, takes the earliest one. -/
theorem samples_push (w : Window) (s : Sample) : (w.push s).samples =
    (if w.samples.length = w.capacity then w.samples.tail else w.samples) ++ [s] := by
  simp only [push]
  split
  · rw [samples_evict]
  · rfl

/-- The samples held are the last ones. -/
theorem samples_history (capacity : Nat) (ss : List Sample) :
    (history capacity ss).samples = ss.drop (ss.length - max capacity 1) := by
  induction ss using List.reverseRecOn with
  | nil => exact List.drop_nil.symm
  | append_singleton ss s ih =>
    rw [history_snoc, samples_push, capacity_history, ih, List.length_drop, List.length_append,
      List.length_singleton]
    split
    · rw [List.tail_drop, ← List.drop_append_of_le_length (by omega)]
      congr 1
      omega
    · rw [← List.drop_append_of_le_length (by omega)]
      congr 1
      omega

/-- The window holds the last samples of its history. -/
theorem samples_history_suffix (capacity : Nat) (ss : List Sample) :
    (history capacity ss).samples <:+ ss := by
  rw [samples_history]
  exact List.drop_suffix _ _

/-- The window holds as many samples as there were, up to its capacity. -/
theorem length_samples_history (capacity : Nat) (ss : List Sample) :
    (history capacity ss).samples.length = min ss.length (max capacity 1) := by
  rw [samples_history, List.length_drop]
  omega

/-- Samples that fit are all held. -/
theorem samples_history_self (capacity : Nat) (ss : List Sample) :
    (history capacity (history capacity ss).samples).samples = (history capacity ss).samples := by
  rw [samples_history capacity (history capacity ss).samples, samples_history, List.length_drop,
    List.drop_drop]
  congr 1
  omega

/-! ## The sum -/

def times (w : Window) : List Single := w.samples.map (·.time)

/-- The exact sum of the frame times held, in units of 64 bits. -/
def exactTotal (w : Window) : Int := Binary.exactSum (w.times.map Binary.widen)

/-- The sum is the float nearest to the exact one. -/
def Summed (w : Window) : Prop := w.total = .ofUnits .double w.exactTotal

/-- What a window sums up is exact as long as it is not longer than its capacity. -/
theorem fits_exactTotal (hgrid : ∀ s ∈ w.samples, s.time.OnGrid e bound)
    (hlength : w.samples.length * bound < 2 ^ 53) (he : e + 3 ≤ 2 ^ 8) :
    Format.double.Fits w.exactTotal.natAbs := by
  have hwidened : ∀ x ∈ w.times.map Binary.widen, x.OnGrid (e + Format.refinement) bound := by
    simp only [times, List.map_map, List.forall_mem_map]
    exact fun s hs => (hgrid s hs).widen
  refine Binary.fits_exactSum hwidened ?_ ?_
  · rwa [List.length_map, times, List.length_map]
  · exact Format.refinement_add_lt he

/-- A sum without the oldest sample, nothing of which is left. -/
theorem Summed.evict (h : w.Summed) (hfits : Format.double.Fits w.exactTotal.natAbs)
    (hfinite : ∀ s ∈ w.samples, s.time.isFinite = true) : w.evict.Summed := by
  rw [Window.evict]
  split
  · exact h
  · next old rest hsamples =>
    have hold := (Binary.widen_exact (hfinite old (hsamples ▸ List.mem_cons_self))).1
    have htotal : w.total - old.time.widen = _ := h ▸ Binary.ofUnits_sub hfits hold
    refine htotal.trans (congrArg (Binary.ofUnits .double) ?_)
    simp only [exactTotal, times, hsamples, List.map_cons, Binary.exactSum]
    omega

/-- A sum with one more sample. -/
theorem Summed.add (h : w.Summed) (hfits : Format.double.Fits w.exactTotal.natAbs)
    (hfinite : s.time.isFinite = true) :
    Summed { w with samples := w.samples ++ [s], total := w.total + s.time.widen } := by
  have hs := (Binary.widen_exact hfinite).1
  have htotal : w.total + s.time.widen = _ := h ▸ Binary.ofUnits_add hfits hs
  refine htotal.trans (congrArg (Binary.ofUnits .double) ?_)
  simp [exactTotal, times, Binary.exactSum_append, Binary.exactSum]

/-- A push keeps the sum exact as long as the samples held before are on a grid. -/
theorem Summed.push (h : w.Summed) (hgrid : ∀ s ∈ w.samples, s.time.OnGrid e bound)
    (hlength : w.samples.length * bound < 2 ^ 53) (he : e + 3 ≤ 2 ^ 8)
    (hs : s.time.isFinite = true) : (w.push s).Summed := by
  have hfits := fits_exactTotal hgrid hlength he
  simp only [Window.push]
  split
  · refine (h.evict hfits fun s hs => (hgrid s hs).1).add ?_ hs
    have hshorter : w.evict.samples.length * bound ≤ w.samples.length * bound := by
      rw [samples_evict, List.length_tail]
      exact Nat.mul_le_mul_right _ (Nat.sub_le _ _)
    refine fits_exactTotal (fun s hs => hgrid s ?_) (Nat.lt_of_le_of_lt hshorter hlength) he
    rw [samples_evict] at hs
    exact List.mem_of_mem_tail hs
  · exact h.add hfits hs

/-- The window never holds more than a double can sum exactly. -/
theorem mul_length_history_lt (hbound : max capacity 1 * bound < 2 ^ 53) (ss : List Sample) :
    (history capacity ss).samples.length * bound < 2 ^ 53 := by
  refine Nat.lt_of_le_of_lt (Nat.mul_le_mul_right bound ?_) hbound
  rw [length_samples_history]
  exact Nat.min_le_right _ _

/-- On a grid that has room for a whole window, the sum is that of the samples held, whatever was
pushed before them. -/
theorem summed_history (he : e + 3 ≤ 2 ^ 8) (hbound : max capacity 1 * bound < 2 ^ 53)
    (hgrid : ∀ s ∈ ss, s.time.OnGrid e bound) : (history capacity ss).Summed := by
  induction ss using List.reverseRecOn with
  | nil => exact (Binary.ofUnits_zero .double).symm
  | append_singleton ss s ih =>
    have hgrid' : ∀ s ∈ ss, s.time.OnGrid e bound := fun s hs =>
      hgrid s (List.mem_append_left _ hs)
    rw [history_snoc]
    exact (ih hgrid').push (fun s hs => hgrid' s ((samples_history_suffix _ _).mem hs))
      (mul_length_history_lt hbound ss) he
      (hgrid s (List.mem_append_right _ (List.mem_singleton_self s))).1

/-! ## Frame times -/

/-- The extremes are those of the samples held. -/
theorem extremes (hne : w.samples ≠ []) (hfinite : ∀ s ∈ w.samples, s.time.isFinite = true) :
    Extreme (· ≤ ·) w.frameTimes.least w.times ∧
      Extreme (· ≥ ·) w.frameTimes.greatest w.times := by
  have htimes : w.times ≠ [] := by simpa [times] using hne
  have hnumbers : ∀ t ∈ w.times, t.isNaN = false := by
    simp only [times, List.forall_mem_map]
    exact fun s hs => Binary.isNaN_of_isFinite (hfinite s hs)
  have hleast : w.frameTimes.least = w.times.foldl Binary.min (.infinity false) := by
    rw [frameTimes, if_neg (by simpa using hne), times, List.foldl_map]
  have hgreatest : w.frameTimes.greatest = w.times.foldl Binary.max (.infinity true) := by
    rw [frameTimes, if_neg (by simpa using hne), times, List.foldl_map]
  rw [hleast, hgreatest]
  exact ⟨Binary.foldl_min_extreme htimes hnumbers, Binary.foldl_max_extreme htimes hnumbers⟩

/-- The mean is the total over the number of samples, narrowed. -/
theorem mean_eq (h : w.samples ≠ []) :
    w.frameTimes.mean = (w.total / .ofNat w.samples.length : Double).narrow := by
  rw [frameTimes, if_neg (by simpa using h)]

/-- The mean of an exact sum lies between the extremes. -/
theorem Summed.mean_between (h : w.Summed) (hne : w.samples ≠ [])
    (hgrid : ∀ s ∈ w.samples, s.time.OnGrid e bound)
    (hlength : w.samples.length * bound < 2 ^ 53) (he : e + 3 ≤ 2 ^ 8) :
    w.frameTimes.mean.isFinite = true ∧ w.frameTimes.least ≤ w.frameTimes.mean ∧
      w.frameTimes.mean ≤ w.frameTimes.greatest := by
  have hfinite : ∀ t ∈ w.times, t.isFinite = true := by
    simp only [times, List.forall_mem_map]
    exact fun s hs => (hgrid s hs).1
  obtain ⟨hleast, hgreatest⟩ := extremes hne fun s hs => (hgrid s hs).1
  obtain ⟨htotal, -, hexact⟩ := Binary.exact_ofUnits (fits_exactTotal hgrid hlength he)
  rw [← show w.total = _ from h] at htotal hexact
  have hcount : w.samples.length < 2 ^ 53 := by
    obtain ⟨s, hs⟩ := List.exists_mem_of_ne_nil _ hne
    obtain ⟨-, k, -, hk⟩ := hgrid s hs
    exact Nat.lt_of_le_of_lt (Nat.le_mul_of_pos_right _ (Nat.zero_lt_of_lt hk)) hlength
  have hbetween : ∀ t ∈ w.times.map Binary.widen, w.frameTimes.least.widen.exact ≤ t.exact ∧
      t.exact ≤ w.frameTimes.greatest.widen.exact := by
    simp only [List.forall_mem_map]
    exact fun t ht =>
      ⟨Binary.exact_widen_le (hfinite _ hleast.mem) (hfinite t ht) (hleast.rel t ht),
        Binary.exact_widen_le (hfinite t ht) (hfinite _ hgreatest.mem) (hgreatest.rel t ht)⟩
  obtain ⟨hle, hge⟩ := Binary.exactSum_between hbetween
  rw [List.length_map, times, List.length_map, ← times, ← exactTotal, ← hexact] at hle hge
  have hmean := Binary.mean_between htotal (hfinite _ hleast.mem) (hfinite _ hgreatest.mem)
    (List.length_pos_iff.2 hne) hcount hle hge
  rw [← mean_eq hne] at hmean
  exact ⟨Binary.isFinite_of_between (hfinite _ hleast.mem) (hfinite _ hgreatest.mem) hmean.1
    hmean.2, hmean⟩

/-- A history holds the last samples that were pushed, as many as it has room for, and its extremes
are theirs. So is its mean, as that of a history that never held anything else, if all the frame
times that were ever pushed are on one grid that has room for the sum of a whole window. -/
theorem frameTimes_history (capacity : Nat) (ss : List Sample) :
    let w := history capacity ss
    let anew := history capacity w.samples
    (w.samples <:+ ss ∧ w.samples.length = min ss.length (max capacity 1)) ∧
      (anew.samples = w.samples ∧ anew.frameTimes.least = w.frameTimes.least ∧
        anew.frameTimes.greatest = w.frameTimes.greatest) ∧
      (w.samples ≠ [] → (∀ s ∈ w.samples, s.time.isFinite = true) →
        Extreme (· ≤ ·) w.frameTimes.least w.times ∧
          Extreme (· ≥ ·) w.frameTimes.greatest w.times) ∧
      ∀ e bound, e + 3 ≤ 2 ^ 8 → max capacity 1 * bound < 2 ^ 53 →
        (∀ s ∈ ss, s.time.OnGrid e bound) →
        anew.frameTimes = w.frameTimes ∧
          (w.samples ≠ [] → w.frameTimes.mean.isFinite = true ∧
            w.frameTimes.least ≤ w.frameTimes.mean ∧
            w.frameTimes.mean ≤ w.frameTimes.greatest) := by
  intro w anew
  have hsamples : anew.samples = w.samples := samples_history_self capacity ss
  refine ⟨⟨samples_history_suffix _ _, length_samples_history _ _⟩, ⟨hsamples, ?_, ?_⟩,
    fun hne hfinite => extremes hne hfinite, fun e bound he hbound hgrid => ?_⟩
  · simp only [frameTimes, hsamples]
    split <;> rfl
  · simp only [frameTimes, hsamples]
    split <;> rfl
  · have hheld : ∀ s ∈ w.samples, s.time.OnGrid e bound := fun s hs =>
      hgrid s ((samples_history_suffix _ _).mem hs)
    have hsum : w.Summed := summed_history he hbound hgrid
    have hexact : anew.exactTotal = w.exactTotal := by simp only [exactTotal, times, hsamples]
    have htotal : anew.total = w.total :=
      (summed_history he hbound hheld).trans ((congrArg _ hexact).trans hsum.symm)
    refine ⟨by simp only [frameTimes, hsamples, htotal], fun hne => ?_⟩
    exact hsum.mean_between hne hheld (mul_length_history_lt hbound ss) he

/-- Frame times in milliseconds, the slowest one first. -/
def Demo.load : List Sample := [{ time := 40 }, { time := 16.7 }, { time := 33.4 }, { time := 8 }]

/-- Of four frames a history of three holds the last three, and the first one leaves no trace. -/
theorem frameTimes_history_demo :
    let w := history 3 Demo.load
    120 + 3 ≤ 2 ^ 8 ∧ max 3 1 * 2 ^ 39 < 2 ^ 53 ∧ (∀ s ∈ Demo.load, s.time.OnGrid 120 (2 ^ 39)) ∧
      w.samples = Demo.load.drop 1 ∧ (history 3 w.samples).frameTimes = w.frameTimes ∧
      w.frameTimes.least ≤ w.frameTimes.mean ∧ w.frameTimes.mean ≤ w.frameTimes.greatest := by
  intro w
  have hrange : ∀ s ∈ Demo.load, (0.015625 : Single) ≤ s.time.abs ∧ s.time.abs < (1024 : Single) :=
    by decide +kernel
  have hgrid : ∀ s ∈ Demo.load, s.time.OnGrid 120 (2 ^ 39) := fun s hs =>
    Binary.onGrid_of_range (hrange s hs).1 (hrange s hs).2
  obtain ⟨-, -, -, hmean⟩ := frameTimes_history 3 Demo.load
  obtain ⟨hanew, hbetween⟩ := hmean 120 (2 ^ 39) (by decide) (by decide) hgrid
  have hsamples : w.samples = Demo.load.drop 1 := samples_history 3 Demo.load
  have hne : w.samples ≠ [] := by
    rw [hsamples]
    exact List.cons_ne_nil _ _
  exact ⟨by decide, by decide, hgrid, hsamples, hanew, (hbetween hne).2⟩

/-- What an infinite frame time leaves behind in the sum outlives the window. -/
theorem residue_outlives_window : ¬∀ (capacity : Nat) (ss : List Sample),
    let w := history capacity ss
    w.samples ≠ [] → (∀ s ∈ w.samples, s.time.isFinite = true) →
      w.frameTimes.mean.isFinite = true ∧ w.frameTimes.least ≤ w.frameTimes.mean ∧
        w.frameTimes.mean ≤ w.frameTimes.greatest := by
  intro h
  have hmean := h 1 [{ time := .infinity false }, { time := 8 }] (by decide) (by decide +kernel)
  exact absurd hmean.1 (by decide +kernel)

end Window

end RenderStream
