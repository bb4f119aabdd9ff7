import RenderStream.Proofs.Exact
import RenderStream.Proofs.Lockstep

/-!
# The area of a list, as a whole or draw by draw

Commands of their own are measured one by one: areas that are not finite are left out, and the
others are added up in 64 bits. A display list is measured once, by the sum that was taken in 32
bits when it was compiled, with all its areas in it (`CompiledList.Progress.run_measured`). Both
ways measure the same draws, but not always the same area. They agree where no sum is rounded, which
is so of whole numbers of a unit that are not too large (`FillMeter.Unrounded`,
`FillMeter.record_eq_recordEach`). A single area that is not finite spoils the sum of a list
(`Primitive.sumAreas_infinite`), which then counts for nothing; on the other way it is left out
alone (`FillMeter.recordEach_finite`).
-/

namespace RenderStream

open Attempt CompiledList

/-! ## Areas -/

namespace Primitive

/-- What the area is worth, in smallest positive numbers. -/
def worth (x : Primitive) : Nat := Format.single.units x.area.magnitude

/-- What all the areas are worth. -/
def worthAll : List Primitive → Nat
  | [] => 0
  | x :: xs => x.worth + worthAll xs

/-- A finite area is what the primitive is worth. -/
theorem worth_area {x : Primitive} (hx : x.area.isFinite = true) : x.area.Worth x.worth :=
  ⟨hx, Binary.negative_build x.signedArea.magnitude_lt false, rfl⟩

/-- The sum of areas in 32 bits. -/
def sumAreas (a : Single) (xs : List Primitive) : Single := xs.foldl (fun a x => a + x.area) a

/-- Areas that are whole numbers of one unit, `2 ^ e` smallest positive numbers. -/
def InUnits (e : Nat) (xs : List Primitive) : Prop :=
  ∀ x ∈ xs, x.area.isFinite = true ∧ 2 ^ e ∣ x.worth

instance (e : Nat) (xs : List Primitive) : Decidable (InUnits e xs) :=
  inferInstanceAs (Decidable (∀ x ∈ xs, _))

/-- Areas in units of a power of two add up to such units. -/
theorem InUnits.dvd_worthAll {e : Nat} {xs : List Primitive} (h : InUnits e xs) :
    2 ^ e ∣ worthAll xs := by
  induction xs with
  | nil => exact Nat.dvd_zero _
  | cons x xs ih =>
    obtain ⟨⟨-, hx⟩, hxs⟩ := List.forall_mem_cons.1 h
    exact Nat.dvd_add hx (ih hxs)

/-- In whole units the sum is not rounded, as long as it has no more digits than the significand. -/
theorem InUnits.worth_sumAreas {e : Nat} (he : e + 3 ≤ 2 ^ Format.single.exponent) :
    ∀ {xs : List Primitive} {a : Single} {n : Nat}, InUnits e xs → a.Worth n → 2 ^ e ∣ n →
      n + worthAll xs < 2 ^ (Format.single.fraction + 1 + e) →
      (sumAreas a xs).Worth (n + worthAll xs)
  | [], _, _, _, ha, _, _ => ha
  | x :: xs, a, n, hxs, ha, hn, hlt => by
    obtain ⟨⟨hfinite, hdvd⟩, hrest⟩ := List.forall_mem_cons.1 hxs
    rw [worthAll, ← Nat.add_assoc] at hlt ⊢
    have hdvd' : 2 ^ e ∣ n + x.worth := Nat.dvd_add hn hdvd
    have hsum := ha.add (worth_area hfinite) (Format.fits_of_dvd he hdvd' (by omega))
    exact InUnits.worth_sumAreas he hrest hsum hdvd' hlt

/-- One area that is not finite spoils the sum. -/
theorem sumAreas_infinite : ∀ {xs : List Primitive} {a : Single},
    (a.isFinite = false ∨ ∃ x ∈ xs, x.area.isFinite = false) → (sumAreas a xs).isFinite = false
  | [], _, h => h.resolve_right nofun
  | x :: xs, a, h => by
    have hrest : (a + x.area).isFinite = false ∨ ∃ y ∈ xs, y.area.isFinite = false := by
      rcases h with ha | ⟨y, hy, hinfinite⟩
      · exact .inl (Binary.not_isFinite_add (.inl ha))
      · rcases List.mem_cons.1 hy with rfl | hy
        · exact .inl (Binary.not_isFinite_add (.inr hinfinite))
        · exact .inr ⟨y, hy, hinfinite⟩
    change (sumAreas (a + x.area) xs).isFinite = false
    exact sumAreas_infinite hrest

end Primitive

open Primitive (worthAll sumAreas)

/-! ## Measuring -/

namespace FillMeter

variable {m : FillMeter} {xs : List Primitive} {e k n w : Nat}

protected theorem ext {m m' : FillMeter} (harea : m.area = m'.area)
    (hcovered : m.covered = m'.covered) (hdraws : m.draws = m'.draws) : m = m' := by
  cases m
  cases m'
  congr

/-- One draw may be counted before the others. -/
theorem count_succ (a : UInt32) (n : Nat) : a + 1 + .ofNat n = a + .ofNat (n + 1) := by
  rw [UInt32.ofNat_add, UInt32.add_comm (.ofNat n), ← UInt32.add_assoc]
  rfl

/-- Primitives measured one by one. -/
def recordEach (m : FillMeter) (xs : List Primitive) : FillMeter :=
  xs.foldl (fun m x => m.record x.area 1) m

/-- Draws are recorded one after the other. -/
theorem recordEach_append (m : FillMeter) (xs ys : List Primitive) :
    m.recordEach (xs ++ ys) = (m.recordEach xs).recordEach ys := List.foldl_append

/-- Records leave the size of the image. -/
theorem recordEach_area : ∀ (xs : List Primitive) (m : FillMeter), (m.recordEach xs).area = m.area
  | [], _ => rfl
  | _ :: xs, _ => recordEach_area xs _

/-- Every draw that is recorded is counted. -/
theorem recordEach_draws : ∀ (xs : List Primitive) (m : FillMeter),
    (m.recordEach xs).draws = m.draws + .ofNat xs.length
  | [], m => (UInt32.add_zero m.draws).symm
  | x :: xs, m =>
    (recordEach_draws xs (m.record x.area 1)).trans (count_succ m.draws xs.length)

/-- Units of a single are units of a double. -/
theorem dvd_refined (hke : k ≤ e + Format.refinement) (hw : 2 ^ e ∣ w) :
    2 ^ k ∣ w * 2 ^ Format.refinement := by
  refine Nat.dvd_trans (Nat.pow_dvd_pow 2 hke) ?_
  rw [Nat.pow_add]
  exact Nat.mul_dvd_mul_right hw _

/-- Zero is worth nothing. -/
theorem worth_zero : (0 : Single).Worth 0 := by decide

/-- An area that is finite is added, a zero too. -/
theorem record_worth {a : Single} (hm : m.covered.Worth n) (ha : a.Worth w)
    (hfits : Format.double.Fits (n + w * 2 ^ Format.refinement)) (draws : UInt32) :
    (m.record a draws).covered.Worth (n + w * 2 ^ Format.refinement) := by
  simp only [record, ha.finite, Bool.true_and, decide_eq_true_eq, worth_zero.lt_iff ha]
  split
  · exact hm.add ha.refined hfits
  · next hzero =>
    obtain rfl : w = 0 := by omega
    rwa [Nat.zero_mul, Nat.add_zero]

/-- In whole units no sum is rounded in 64 bits either. -/
theorem recordEach_worth (hk : k + 3 ≤ 2 ^ Format.double.exponent)
    (hke : k ≤ e + Format.refinement) (hxs : Primitive.InUnits e xs) (hm : m.covered.Worth n)
    (hn : 2 ^ k ∣ n)
    (hlt : n + worthAll xs * 2 ^ Format.refinement < 2 ^ (Format.double.fraction + 1 + k)) :
    (m.recordEach xs).covered.Worth (n + worthAll xs * 2 ^ Format.refinement) := by
  induction xs generalizing m n with
  | nil =>
    rw [worthAll, Nat.zero_mul, Nat.add_zero]
    exact hm
  | cons x xs ih =>
    obtain ⟨⟨hfinite, hdvd⟩, hrest⟩ := List.forall_mem_cons.1 hxs
    rw [worthAll, Nat.add_mul, ← Nat.add_assoc] at hlt ⊢
    have hdvd' : 2 ^ k ∣ n + x.worth * 2 ^ Format.refinement :=
      Nat.dvd_add hn (dvd_refined hke hdvd)
    have hfits := Format.fits_of_dvd hk hdvd' (Nat.lt_of_le_of_lt (Nat.le_add_right _ _) hlt)
    exact ih hrest (record_worth hm (Primitive.worth_area hfinite) hfits 1) hdvd' hlt

/-- No sum of the areas is rounded, neither in 32 bits nor, behind what was measured before, in 64:
all of them are whole numbers of a unit, and no sum has more digits than the significand. -/
structure Unrounded (m : FillMeter) (xs : List Primitive) (e k n : Nat) : Prop where
  exponent : e + 3 ≤ 2 ^ Format.single.exponent
  units : Primitive.InUnits e xs
  sum_lt : worthAll xs < 2 ^ (Format.single.fraction + 1 + e)
  finer : k ≤ e + Format.refinement
  worth : m.covered.Worth n
  dvd : 2 ^ k ∣ n
  total_lt : n + worthAll xs * 2 ^ Format.refinement < 2 ^ (Format.double.fraction + 1 + k)

/-- Where neither sum is rounded, a sum of areas is measured as the areas are. -/
theorem record_eq_recordEach (h : m.Unrounded xs e k n) :
    m.record (sumAreas 0 xs) (.ofNat xs.length) = m.recordEach xs := by
  have hk : k + 3 ≤ 2 ^ Format.double.exponent :=
    Nat.le_trans (Nat.add_le_add_right h.finer 3) (Format.refinement_add_lt h.exponent)
  have hdvd : 2 ^ k ∣ n + worthAll xs * 2 ^ Format.refinement :=
    Nat.dvd_add h.dvd (dvd_refined h.finer h.units.dvd_worthAll)
  have htotal : (sumAreas 0 xs).Worth (worthAll xs) := by
    have hsum := Nat.lt_of_le_of_lt (Nat.le_of_eq (Nat.zero_add (worthAll xs))) h.sum_lt
    have hworth := h.units.worth_sumAreas h.exponent worth_zero (Nat.dvd_zero _) hsum
    rwa [Nat.zero_add] at hworth
  have hwhole :=
    record_worth h.worth htotal (Format.fits_of_dvd hk hdvd h.total_lt) (.ofNat xs.length)
  have heach := recordEach_worth hk h.finer h.units h.worth h.dvd h.total_lt
  exact FillMeter.ext (recordEach_area xs m).symm (hwhole.unique heach) (recordEach_draws xs m).symm

/-- What is not finite is not added. -/
theorem record_infinite {a : Single} (ha : a.isFinite = false) (draws : UInt32) :
    (m.record a draws).covered = m.covered := by
  rw [record, ha]
  rfl

/-- One by one, areas that are not finite are left out and the others are not. -/
theorem recordEach_finite (xs : List Primitive) : ∀ {m m' : FillMeter}, m.covered = m'.covered →
    (m.recordEach xs).covered = (m'.recordEach (xs.filter (·.area.isFinite))).covered := by
  induction xs with
  | nil => exact id
  | cons x xs ih =>
    intro m m' hcovered
    cases hx : x.area.isFinite with
    | true =>
      simp only [List.filter_cons, hx, if_true]
      exact ih (by simp only [record, hcovered])
    | false =>
      simp only [List.filter_cons, hx, Bool.false_eq_true, if_false]
      exact ih ((record_infinite hx 1).trans hcovered)

end FillMeter

/-! ## Lists -/

/-- Along a compilation the areas and the draws of what is sent add up. -/
theorem CompiledList.Progress.run_measured (cs : List Command) : ∀ s : Progress,
    (s.run cs).2.covered = sumAreas s.covered (Command.draws (s.run cs).1) ∧
      (s.run cs).2.draws = s.draws + .ofNat (Command.draws (s.run cs).1).length := by
  induction cs with
  | nil => exact fun s => ⟨rfl, (UInt32.add_zero s.draws).symm⟩
  | cons c cs ih =>
    intro s
    obtain ⟨hcovered, hdraws⟩ := ih (s.step c).1
    simp only [run]
    rw [hcovered, hdraws]
    cases c with
    | draw x =>
      rw [step_draw]
      split
      · exact ⟨rfl, FillMeter.count_succ s.draws _⟩
      · exact ⟨rfl, rfl⟩
    | set | clear | barrier => exact ⟨rfl, rfl⟩

namespace Pipeline

variable {η : Type} [Host η] {s : Progress} {p : Pipeline η}

/-- What a command adds to the measure: its area, if the compilation sends it. -/
theorem meter_execute {c : Command} {cs : List Command} (hs : s.culling.Sees p.culling)
    (hplace : p.culling.PlaceFree p.ordinal s.ordinal (c :: cs)) :
    (p.execute c).state.meter =
      p.meter.recordEach (Command.draws (if (s.step c).2 then [c] else [])) := by
  cases c with
  | set slot v =>
    rw [execute, write_eq]
    split <;> rfl
  | draw x =>
    rw [Progress.step_draw, execute, draw_eq, hplace.test_eq hs]
    by_cases hx : s.culling.test x s.ordinal = .keep
    · rw [if_pos hx, if_pos hx]
      rfl
    · rw [if_neg hx, if_neg hx]
      rfl
  | clear | barrier => rfl

/-- Executing a list measures what compiling it sends, draw by draw. -/
theorem each_measured (cs : List Command) : ∀ {s : Progress} {p : Pipeline η},
    s.culling.Sees p.culling → p.culling.PlaceFree p.ordinal s.ordinal cs →
    (each execute note p cs).Ends
      (fun q => q.meter = p.meter.recordEach (Command.draws (s.run cs).1)) fun _ => True := by
  induction cs with
  | nil => exact fun _ _ => rfl
  | cons c cs ih =>
    intro s p hs hplace
    obtain ⟨hs', hplace'⟩ := execute_follows hs hplace
    have hrest := ih hs' hplace'
    rw [meter_execute hs hplace, ← FillMeter.recordEach_append, ← Command.draws_append,
      ← s.run_sent] at hrest
    rw [each_cons, andEach]
    cases hfailure : (p.execute c).failure with
    | none => exact hrest
    | some e => trivial

/-- Replaying measures the sum of the compilation. -/
theorem meter_replay {cs : List Command} (hplace : p.culling.PlaceFree p.ordinal 0 cs) :
    (p.replay (compile p.culling cs)).state.meter =
      p.meter.record (compile p.culling cs).covered (compile p.culling cs).draws := by
  let call : ListCall := { commands := cs }
  have hlist : p.callAfresh call = _ := callAfresh_eq_execute hplace
  exact congrArg (·.state.meter) hlist

/-- A triangle that no finite area is large enough for. -/
def Demo.boundless : Primitive :=
  { vertices :=
      [⟨0, 0, 1, 0, 0, .white⟩, ⟨1e38, 0, 1, 0, 0, .white⟩, ⟨1e38, 1e38, 1, 0, 0, .white⟩] }

/-- Half of an image of 320 by 240 pixels. -/
def Demo.halfImage : Primitive :=
  { vertices := [⟨0, 0, 1, 0, 0, .white⟩, ⟨320, 0, 1, 0, 0, .white⟩, ⟨0, 240, 1, 0, 0, .white⟩] }

/-- A list at best quality, replayed or executed command by command. Both ways measure the same
draws. Where no sum of the kept areas is rounded, both measure the same area too. One kept area that
is not finite spoils the sum of the list, and with its sum spoilt the list measures no area at all,
while of its commands only those without a finite area measure none. -/
theorem covered_replay (p : Pipeline η) (cs : List Command)
    (hbest : 1 ≤ p.culling.profile.keepRatio) :
    let l := compile p.culling cs
    let kept := Command.draws l.commands
    let slow := each execute note p cs
    let fast := p.replay l
    (slow.failure = none → slow.state.meter = p.meter.recordEach kept) ∧
      fast.state.meter = p.meter.record l.covered l.draws ∧
      fast.state.meter.draws = (p.meter.recordEach kept).draws ∧
      (∀ e k n, p.meter.Unrounded kept e k n → fast.state.meter = p.meter.recordEach kept) ∧
      ((∃ x ∈ kept, x.area.isFinite = false) → l.covered.isFinite = false) ∧
      (l.covered.isFinite = false → fast.state.meter.covered = p.meter.covered) ∧
      (p.meter.recordEach kept).covered =
        (p.meter.recordEach (kept.filter (·.area.isFinite))).covered := by
  intro l kept slow fast
  have hplace : p.culling.PlaceFree p.ordinal 0 cs := .inl hbest
  have hslow := each_measured cs (s := { culling := { p.culling with counts := {} } })
    (Culling.Sees.rfl.counted {} _) hplace
  have hfast : fast.state.meter = p.meter.record l.covered l.draws := meter_replay hplace
  obtain ⟨hcovered, hdraws⟩ : l.covered = sumAreas 0 kept ∧ l.draws = 0 + .ofNat kept.length :=
    Progress.run_measured cs { culling := { p.culling with counts := {} } }
  rw [UInt32.zero_add] at hdraws
  refine ⟨fun hok => hslow.of_ok hok, hfast, ?_, ?_, ?_, ?_, FillMeter.recordEach_finite kept rfl⟩
  · rw [hfast, hdraws, FillMeter.recordEach_draws]
    rfl
  · intro e k n hexact
    rw [hfast, hcovered, hdraws]
    exact FillMeter.record_eq_recordEach hexact
  · intro hinfinite
    rw [hcovered]
    exact Primitive.sumAreas_infinite (.inr hinfinite)
  · intro hspoilt
    rw [hfast, FillMeter.record_infinite hspoilt]

/-- Two triangles of 8 pixels at the start of a stream, and along with an infinite one. -/
theorem covered_replay_demo :
    let p := ofSettings Demo.settings ({} : Scripted)
    let cs := Demo.list.commands
    let ds := .draw Demo.boundless :: cs
    (p.replay (compile p.culling cs)).state.meter =
        p.meter.recordEach (Command.draws (compile p.culling cs).commands) ∧
      (p.replay (compile p.culling ds)).state.meter.covered = p.meter.covered ∧
      (each execute note p ds).state.meter =
        p.meter.recordEach (Command.draws (compile p.culling ds).commands) := by
  intro p cs ds
  have hfew := covered_replay p cs (by decide +kernel)
  have hmany := covered_replay p ds (by decide +kernel)
  have hspoilt := hmany.2.2.2.2.1 ⟨Demo.boundless, by decide +kernel, by decide +kernel⟩
  refine ⟨hfew.2.2.2.1 149 1074 0 ?_, hmany.2.2.2.2.2.1 hspoilt, hmany.1 (by decide +kernel)⟩
  constructor <;> decide +kernel

/-- A list does not count for the area that its commands count for: next to a triangle without a
finite area, one that covers half of the image is not measured. -/
theorem list_measured_apart :
    ¬∀ (culling : Culling) (m : FillMeter) (cs : List Command), 1 ≤ culling.profile.keepRatio →
      m.record (compile culling cs).covered (compile culling cs).draws =
        m.recordEach (Command.draws (compile culling cs).commands) := by
  intro h
  have hsame := h { tolerances := {} } (.ofSize 320 240)
    [.draw Demo.boundless, .draw Demo.halfImage] (by decide +kernel)
  have hcovered := congrArg FillMeter.covered hsame
  revert hcovered
  decide +kernel

end Pipeline

end RenderStream
