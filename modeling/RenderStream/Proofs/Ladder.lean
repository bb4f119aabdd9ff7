import RenderStream.Quality.Ladder

/-!
# How levels move

`Ladder.Demand` is what one frame asks of an axis, and `Ladder.Turn` lists all that a frame can do
to it. Two facts about sequences of frames are drawn from that list.

The count of calm frames is a count of quiet ones: the axis was free and calm, and did not move
(`Quiet`). Below the best level it counts all of them up to the last frame that was not quiet
(`behind_counts`), which turns the counter into a rule on the history: `behind_follows` says when a
level drops, rises and stays, and speaks of no counter.

Levels alone cannot be compared between two runs, since a lower level may be about to rise. With the
count of calm frames as a tie-breaker they can (`Above`): under more pressure a ladder stays below.
-/

namespace RenderStream

/-! ## Pressures -/

namespace Binary

variable {f : Format} {x y z : Binary f}

/-- Floats are ordered strictly when they are numbers and their keys are. -/
theorem lt_iff : x < y ↔ x.isNaN = false ∧ y.isNaN = false ∧ x.key < y.key := by
  change x.lt y = true ↔ _
  simp [lt, and_assoc]

/-- Floats are ordered when they are numbers and their keys are. -/
theorem le_iff : x ≤ y ↔ x.isNaN = false ∧ y.isNaN = false ∧ x.key ≤ y.key := by
  change x.le y = true ↔ _
  simp [le, and_assoc]

/-- The strict order goes on over the order. -/
theorem lt_of_lt_of_le (hxy : x < y) (hyz : y ≤ z) : x < z := by
  obtain ⟨hx, -, hlt⟩ := lt_iff.1 hxy
  obtain ⟨-, hz, hle⟩ := le_iff.1 hyz
  exact lt_iff.2 ⟨hx, hz, Int.lt_of_lt_of_le hlt hle⟩

/-- The order goes on over the strict order. -/
theorem lt_of_le_of_lt (hxy : x ≤ y) (hyz : y < z) : x < z := by
  obtain ⟨hx, -, hle⟩ := le_iff.1 hxy
  obtain ⟨-, hz, hlt⟩ := lt_iff.1 hyz
  exact lt_iff.2 ⟨hx, hz, Int.lt_of_le_of_lt hle hlt⟩

end Binary

namespace Settings.Quality

variable {q : Settings.Quality} {p p' : Single}

/-- A pressure is calm when it is not high and below the bound. -/
theorem isCalm_iff : q.isCalm p = true ↔ q.isHigh p = false ∧ p < q.raisePressure := by
  simp [isCalm]

/-- More pressure than a high one is high. -/
theorem isHigh_of_le (h : p ≤ p') (hp : q.isHigh p = true) : q.isHigh p' = true :=
  decide_eq_true (Binary.lt_of_lt_of_le (of_decide_eq_true hp) h)

/-- Less pressure than a calm one is calm. -/
theorem isCalm_of_le (h : p ≤ p') (hp : q.isCalm p' = true) : q.isCalm p = true := by
  obtain ⟨hhigh, hraise⟩ := isCalm_iff.1 hp
  refine isCalm_iff.2 ⟨?_, Binary.lt_of_le_of_lt h hraise⟩
  cases hp' : q.isHigh p with
  | false => rfl
  | true => rw [← hhigh, isHigh_of_le h hp']

/-- The frames that it takes to rise. -/
def window (q : Settings.Quality) : Nat := max q.raiseWindow.toNat 1

end Settings.Quality

namespace Ladder

/-! ## One frame -/

/-- What a frame asks of an axis: the level that an override forces, if there is one, and the
pressure of the load. -/
structure Demand where
  forced : Option Nat
  pressure : Single

/-- The ladder behind a frame. -/
def next (q : Settings.Quality) (l : Ladder) (d : Demand) : Ladder :=
  match d.forced with
  | some target => (l.toward target).1
  | none => (l.step q d.pressure).1

/-- The axis is free, and the pressure is calm. -/
def Demand.Calm (q : Settings.Quality) (d : Demand) : Prop :=
  d.forced = none ∧ q.isCalm d.pressure = true

/-- As far toward a goal as one level reaches. -/
def approach (level goal : Nat) : Nat := max (level - 1) (min goal (level + 1))

/-- What a frame can do to a ladder. -/
inductive Turn (q : Settings.Quality) (l : Ladder) (d : Demand) : Ladder → Prop
  | forced {target : Nat} (hforced : d.forced = some target) :
    Turn q l d { l with level := approach l.level (min target l.top), calm := 0 }
  | drop (hfree : d.forced = none) (hhigh : q.isHigh d.pressure = true) :
    Turn q l d { l with level := l.level - 1, calm := 0 }
  | stall (hfree : d.forced = none) (hhigh : q.isHigh d.pressure = false)
    (hcalm : q.isCalm d.pressure = false) : Turn q l d { l with calm := 0 }
  | best (hcalm : d.Calm q) (htop : l.level = l.top) : Turn q l d { l with calm := 0 }
  | rise (hcalm : d.Calm q) (htop : l.level ≠ l.top) (hwindow : q.window ≤ l.calm + 1) :
    Turn q l d { l with level := l.level + 1, calm := 0 }
  | wait (hcalm : d.Calm q) (htop : l.level ≠ l.top) (hwindow : l.calm + 1 < q.window) :
    Turn q l d { l with calm := l.calm + 1 }

/-- One level at a time, the goal apart. -/
theorem approach_eq (level goal : Nat) :
    approach level goal =
      if goal < level then level - 1 else if level < goal then level + 1 else level := by
  rw [approach]
  split
  · omega
  · split <;> omega

/-- A level down loses the count. -/
theorem down_eq (l : Ladder) : l.down.1 = { l with level := l.level - 1, calm := 0 } := by
  rw [down]
  split
  · next h => simp [h]
  · rfl

/-- A step toward a forced level goes as far as one level reaches, and loses the count. -/
theorem toward_eq (target : Nat) (l : Ladder) :
    (l.toward target).1 =
      { l with level := approach l.level (min target l.top), calm := 0 } := by
  have happroach := approach_eq l.level (min target l.top)
  rw [happroach, toward]
  split
  · exact down_eq l
  · split <;> rfl

/-- Every frame is one of the turns. -/
theorem next_turn (q : Settings.Quality) (l : Ladder) (d : Demand) : l.Turn q d (l.next q d) := by
  rw [next]
  cases hforced : d.forced with
  | some target =>
    dsimp only
    rw [toward_eq]
    exact .forced hforced
  | none =>
    dsimp only
    rw [step]
    split
    · next hhigh =>
      rw [down_eq]
      exact .drop hforced hhigh
    · next hhigh =>
      split
      · next hcalm =>
        rw [rest]
        split
        · next htop => exact .best ⟨hforced, hcalm⟩ htop
        · next htop =>
          split
          · next hwindow =>
            exact .rise ⟨hforced, hcalm⟩ htop (Nat.max_le.2 ⟨hwindow, Nat.le_add_left _ _⟩)
          · next hwindow =>
            exact .wait ⟨hforced, hcalm⟩ htop
              (Nat.lt_of_lt_of_le (Nat.not_le.1 hwindow) (Nat.le_max_left _ _))
      · next hcalm => exact .stall hforced (by simpa using hhigh) (by simpa using hcalm)

variable {q : Settings.Quality} {l l' m m' : Ladder} {d e : Demand}

/-- A forced level is approached by one level at most. -/
theorem approach_near (level goal : Nat) :
    approach level goal ≤ level + 1 ∧ level ≤ approach level goal + 1 := by
  rw [approach]
  omega

/-- A forced level on the ladder is approached on the ladder. -/
theorem approach_le {level goal top : Nat} (hlevel : level ≤ top) (hgoal : goal ≤ top) :
    approach level goal ≤ top := by
  rw [approach]
  omega

/-- Two levels on their way to one goal do not pass each other. -/
theorem approach_mono {level level' : Nat} (h : level ≤ level') (goal : Nat) :
    approach level goal ≤ approach level' goal := by
  rw [approach, approach]
  omega

/-- A calm frame is not under high pressure. -/
theorem Demand.Calm.not_high (h : d.Calm q) : q.isHigh d.pressure = false :=
  (Settings.Quality.isCalm_iff.1 h.2).1

namespace Turn

/-- No turn changes the best level. -/
theorem top_eq (h : l.Turn q d l') : l'.top = l.top := by
  cases h <;> rfl

/-- No turn leads above the best level. -/
theorem level_le (h : l.Turn q d l') (hl : l.level ≤ l.top) : l'.level ≤ l.top := by
  cases h with
  | forced => exact approach_le hl (Nat.min_le_right _ _)
  | drop => exact Nat.le_trans (Nat.sub_le _ _) hl
  | rise _ htop => exact Nat.lt_of_le_of_ne hl htop
  | stall | best | wait => exact hl

/-- A level moves by one at most. -/
theorem near (h : l.Turn q d l') : l'.level ≤ l.level + 1 ∧ l.level ≤ l'.level + 1 := by
  cases h with
  | forced => exact approach_near _ _
  | drop | stall | best | rise | wait => dsimp only; omega

/-- A free axis under a pressure that is not high does not drop. -/
theorem le_level (h : l.Turn q d l') (hfree : d.forced = none)
    (hhigh : q.isHigh d.pressure = false) : l.level ≤ l'.level := by
  cases h with
  | forced hforced => rw [hfree] at hforced; cases hforced
  | drop _ hhigh' => rw [hhigh] at hhigh'; cases hhigh'
  | stall | best | wait => exact Nat.le_refl _
  | rise => exact Nat.le_succ _

/-- A calm axis below its best level rises when the window is over, and waits until then. -/
theorem of_calm (h : l.Turn q d l') (hcalm : d.Calm q) (htop : l.level ≠ l.top) :
    (q.window ≤ l.calm + 1 ∧ l' = { l with level := l.level + 1, calm := 0 }) ∨
      (l.calm + 1 < q.window ∧ l' = { l with calm := l.calm + 1 }) := by
  cases h with
  | forced hforced => rw [hcalm.1] at hforced; cases hforced
  | drop _ hhigh => rw [hcalm.not_high] at hhigh; cases hhigh
  | stall _ _ hcalm' => rw [hcalm.2] at hcalm'; cases hcalm'
  | best _ htop' => exact absurd htop' htop
  | rise _ _ hwindow => exact .inl ⟨hwindow, rfl⟩
  | wait _ _ hwindow => exact .inr ⟨hwindow, rfl⟩

/-- On a free axis a turn drops a level just under high pressure, as long as there is a worse
one. -/
theorem drops_iff (h : l.Turn q d l') (hfree : d.forced = none) :
    l'.level < l.level ↔ q.isHigh d.pressure = true ∧ 0 < l.level := by
  cases h with
  | forced hforced => rw [hfree] at hforced; cases hforced
  | drop _ hhigh => simp only [hhigh, true_and]; omega
  | stall _ hhigh => simp [hhigh]
  | best hcalm | rise hcalm | wait hcalm => simp [hcalm.not_high]

/-- On a free axis a turn rises just when enough calm frames are together and there is a better
level. -/
theorem rises_iff (h : l.Turn q d l') (hfree : d.forced = none) :
    l.level < l'.level ↔ d.Calm q ∧ l.level ≠ l.top ∧ q.window ≤ l.calm + 1 := by
  constructor
  · intro hlt
    cases h with
    | forced hforced => rw [hfree] at hforced; cases hforced
    | drop => exact absurd hlt (Nat.not_lt.2 (Nat.sub_le _ _))
    | stall | best | wait => exact absurd hlt (Nat.lt_irrefl _)
    | rise hcalm htop hwindow => exact ⟨hcalm, htop, hwindow⟩
  · rintro ⟨hcalm, htop, hwindow⟩
    obtain ⟨-, rfl⟩ | ⟨hwait, -⟩ := h.of_calm hcalm htop
    · exact Nat.lt_succ_self _
    · omega

end Turn

/-! ## Histories -/

/-- The ladder behind the first `n` frames of a sequence. -/
def behind (q : Settings.Quality) (l : Ladder) (ds : Nat → Demand) : Nat → Ladder
  | 0 => l
  | n + 1 => (l.behind q ds n).next q (ds n)

/-- The last `m` frames before frame `n` were calm, and the level did not move. -/
def Quiet (calm : Nat → Prop) (level : Nat → Nat) (m n : Nat) : Prop :=
  m ≤ n ∧ ∀ k < n, n ≤ k + m → calm k ∧ level (k + 1) = level k

/-- How a level follows what is asked of it: frame `n` of a history, without a word on counters. -/
structure Follows (q : Settings.Quality) (top : Nat) (ds : Nat → Demand) (level : Nat → Nat)
    (n : Nat) : Prop where
  le_top : level n ≤ top
  near : level (n + 1) ≤ level n + 1 ∧ level n ≤ level (n + 1) + 1
  drops : (ds n).forced = none →
    (level (n + 1) < level n ↔ q.isHigh (ds n).pressure = true ∧ 0 < level n)
  rises : (ds n).forced = none →
    (level n < level (n + 1) ↔ level n < top ∧ (ds n).Calm q ∧
      Quiet (fun k => (ds k).Calm q) level (q.window - 1) n)
  /-- Nothing else moves a level. -/
  holds : (ds n).forced = none → ¬(q.isHigh (ds n).pressure = true ∧ 0 < level n) →
    ¬(level n < top ∧ (ds n).Calm q ∧ Quiet (fun k => (ds k).Calm q) level (q.window - 1) n) →
    level (n + 1) = level n
  /-- After a move, a frame that is not calm or a frame under an override, a whole window passes
  before a level rises. -/
  waits : (ds n).forced = none → level n < level (n + 1) → ∀ k < n,
    ¬(ds k).Calm q ∨ level (k + 1) ≠ level k → k + q.window ≤ n

section
variable {calm : Nat → Prop} {level : Nat → Nat} {j k n : Nat}

/-- Of frames that were quiet the last ones were. -/
theorem Quiet.mono (h : Quiet calm level k n) (hj : j ≤ k) : Quiet calm level j n :=
  ⟨Nat.le_trans hj h.1, fun i hi hij => h.2 i hi (Nat.le_trans hij (Nat.add_le_add_left hj i))⟩

/-- One frame more is quiet when it is calm and leaves the level where it is. -/
theorem quiet_succ_iff :
    Quiet calm level (k + 1) (n + 1) ↔
      Quiet calm level k n ∧ calm n ∧ level (n + 1) = level n := by
  constructor
  · rintro ⟨hk, h⟩
    refine ⟨⟨Nat.le_of_succ_le_succ hk, fun i hi hik => ?_⟩, h n (Nat.lt_succ_self n) (by omega)⟩
    exact h i (Nat.lt_succ_of_lt hi) (by omega)
  · rintro ⟨⟨hk, h⟩, hn⟩
    refine ⟨Nat.succ_le_succ hk, fun i hi hik => ?_⟩
    rcases Nat.lt_succ_iff_lt_or_eq.1 hi with hi | rfl
    · exact h i hi (by omega)
    · exact hn

/-- The count of a ladder behind `n` frames is a number of quiet ones, and below the best level the
greatest. -/
structure Counts (calm : Nat → Prop) (level : Nat → Nat) (n : Nat) (l : Ladder) : Prop where
  level_eq : level n = l.level
  quiet : Quiet calm level l.calm n
  longest : l.level ≠ l.top → ∀ k, Quiet calm level k n → k ≤ l.calm

/-- Starting anew is right behind a frame that was not quiet, and at the best level. -/
theorem Counts.anew (hlevel : level (n + 1) = l.level) (hzero : l.calm = 0)
    (hmoved : l.level ≠ l.top → ¬(calm n ∧ level (n + 1) = level n)) :
    Counts calm level (n + 1) l := by
  refine ⟨hlevel, ?_, fun htop k hk => ?_⟩
  · rw [hzero]
    exact ⟨Nat.zero_le _, fun i hi hin => absurd hi (by omega)⟩
  · cases k with
    | zero => exact Nat.zero_le _
    | succ k => exact absurd (quiet_succ_iff.1 hk).2 (hmoved htop)

/-- Every turn keeps the count right. -/
theorem Counts.turn (h : Counts calm level n l) (hturn : l.Turn q d l')
    (hcalm : calm n ↔ d.Calm q) (hlevel : level (n + 1) = l'.level) :
    Counts calm level (n + 1) l' := by
  have hbefore := h.level_eq
  cases hturn with
  | forced hforced =>
    refine .anew hlevel rfl fun _ hn => ?_
    rw [(hcalm.1 hn.1).1] at hforced
    cases hforced
  | drop _ hhigh =>
    refine .anew hlevel rfl fun _ hn => ?_
    rw [(hcalm.1 hn.1).not_high] at hhigh
    cases hhigh
  | stall _ _ hcalm' =>
    refine .anew hlevel rfl fun _ hn => ?_
    rw [(hcalm.1 hn.1).2] at hcalm'
    cases hcalm'
  | best _ htop => exact .anew hlevel rfl fun htop' => absurd htop htop'
  | rise =>
    refine .anew hlevel rfl fun _ hn => ?_
    dsimp only at hlevel
    omega
  | wait hcalm' htop =>
    have hn : calm n ∧ level (n + 1) = level n := ⟨hcalm.2 hcalm', hlevel.trans hbefore.symm⟩
    refine ⟨hlevel, quiet_succ_iff.2 ⟨h.quiet, hn⟩, fun _ k hk => ?_⟩
    cases k with
    | zero => exact Nat.zero_le _
    | succ k => exact Nat.succ_le_succ (h.longest htop k (quiet_succ_iff.1 hk).1)

/-- Below the best level the window is over exactly when it was quiet throughout. -/
theorem Counts.window_iff (h : Counts calm level n l) (htop : l.level ≠ l.top) :
    q.window ≤ l.calm + 1 ↔ Quiet calm level (q.window - 1) n := by
  constructor
  · exact fun hwindow => h.quiet.mono (by omega)
  · intro hquiet
    have := h.longest htop _ hquiet
    omega

end

variable {ds es : Nat → Demand}

/-- The best level stays the same behind every history. -/
theorem behind_top (n : Nat) : (l.behind q ds n).top = l.top := by
  induction n with
  | zero => rfl
  | succ n ih => exact (next_turn q _ (ds n)).top_eq.trans ih

/-- Behind every history the level is on the ladder. -/
theorem behind_level_le (hl : l.level ≤ l.top) (n : Nat) : (l.behind q ds n).level ≤ l.top := by
  induction n with
  | zero => exact hl
  | succ n ih =>
    have hturn := next_turn q (l.behind q ds n) (ds n)
    rw [← behind_top n] at ih ⊢
    exact hturn.level_le ih

/-- Behind every history the count of the ladder is a number of quiet frames. -/
theorem behind_counts (hl : l.calm = 0) (n : Nat) :
    Counts (fun k => (ds k).Calm q) (fun k => (l.behind q ds k).level) n (l.behind q ds n) := by
  induction n with
  | zero =>
    refine ⟨rfl, ?_, fun _ k hk => Nat.le_trans hk.1 (Nat.zero_le _)⟩
    rw [behind, hl]
    exact ⟨Nat.le_refl _, nofun⟩
  | succ n ih => exact ih.turn (next_turn q _ (ds n)) Iff.rfl rfl

/-- A ladder that starts at its best level follows the rule. -/
theorem behind_follows (hlevel : l.level ≤ l.top) (hcalm : l.calm = 0) (n : Nat) :
    Follows q l.top ds (fun k => (l.behind q ds k).level) n := by
  have hturn := next_turn q (l.behind q ds n) (ds n)
  have htop : (l.behind q ds n).top = l.top := behind_top n
  have hle : (l.behind q ds n).level ≤ l.top := behind_level_le hlevel n
  have hcounts (hne : (l.behind q ds n).level ≠ l.top) :
      q.window ≤ (l.behind q ds n).calm + 1 ↔
        Quiet (fun k => (ds k).Calm q) (fun k => (l.behind q ds k).level) (q.window - 1) n :=
    (behind_counts hcalm n).window_iff (by rwa [htop])
  have hrises (hfree : (ds n).forced = none) :
      (l.behind q ds n).level < (l.behind q ds (n + 1)).level ↔
        (l.behind q ds n).level < l.top ∧ (ds n).Calm q ∧
          Quiet (fun k => (ds k).Calm q) (fun k => (l.behind q ds k).level) (q.window - 1) n := by
    refine (hturn.rises_iff hfree).trans ?_
    rw [htop]
    constructor
    · rintro ⟨hcalm, hne, hwindow⟩
      exact ⟨Nat.lt_of_le_of_ne hle hne, hcalm, (hcounts hne).1 hwindow⟩
    · rintro ⟨hlt, hcalm, hquiet⟩
      have hne := Nat.ne_of_lt hlt
      exact ⟨hcalm, hne, (hcounts hne).2 hquiet⟩
  refine ⟨hle, hturn.near, hturn.drops_iff, hrises, fun hfree hdrop hrise => ?_, ?_⟩
  · have hnot_drop := mt (hturn.drops_iff hfree).1 hdrop
    have hnot_rise := mt (hrises hfree).1 hrise
    exact Nat.le_antisymm (Nat.not_lt.1 hnot_rise) (Nat.not_lt.1 hnot_drop)
  · intro hfree hlt k hk hmoved
    obtain ⟨-, -, hquiet⟩ := (hrises hfree).1 hlt
    rcases Nat.lt_or_ge n (k + q.window) with hwindow | hwindow
    · obtain ⟨hcalm, hsame⟩ := hquiet.2 k hk (by omega)
      exact absurd hsame (hmoved.resolve_left (not_not_intro hcalm))
    · exact hwindow

/-! ## Two ladders -/

/-- A frame that asks no more of an axis than another one: the same under an override, and no more
pressure without. -/
structure Demand.Eases (d e : Demand) : Prop where
  forced_eq : d.forced = e.forced
  pressure_le : d.forced = none → d.pressure ≤ e.pressure

/-- Higher on the same ladder, or as high and as close to rising. -/
structure Above (l m : Ladder) : Prop where
  top_eq : l.top = m.top
  order : m.level < l.level ∨ m.level = l.level ∧ m.calm ≤ l.calm

/-- What asks no more than a calm frame is calm. -/
theorem Demand.Eases.calm (h : d.Eases e) (he : e.Calm q) : d.Calm q := by
  obtain ⟨hfree, hcalm⟩ := he
  rw [← h.forced_eq] at hfree
  exact ⟨hfree, Settings.Quality.isCalm_of_le (h.pressure_le hfree) hcalm⟩

/-- Where a pressure that is not high lets a level be, less pressure does not drop it either. -/
theorem Demand.Eases.le_level (h : d.Eases e) (hturn : l.Turn q d l') (hfree : e.forced = none)
    (he : q.isHigh e.pressure = false) : l.level ≤ l'.level := by
  rw [← h.forced_eq] at hfree
  refine hturn.le_level hfree ?_
  cases hd : q.isHigh d.pressure with
  | false => rfl
  | true => rw [← he, Settings.Quality.isHigh_of_le (h.pressure_le hfree) hd]

/-- Every ladder is above itself. -/
theorem Above.refl (l : Ladder) : l.Above l := ⟨rfl, .inr ⟨rfl, Nat.le_refl _⟩⟩

/-- A ladder above another one is no lower. -/
theorem Above.level_le (h : l.Above m) : m.level ≤ l.level := by
  obtain hlt | ⟨heq, -⟩ := h.order
  · exact Nat.le_of_lt hlt
  · exact Nat.le_of_eq heq

/-- Nothing is further from rising than a ladder that starts the window anew. -/
theorem Above.of_anew (htop : l.top = m.top) (hlevel : m.level ≤ l.level) (hcalm : m.calm = 0) :
    l.Above m := by
  refine ⟨htop, (Nat.lt_or_eq_of_le hlevel).imp id fun heq => ⟨heq, ?_⟩⟩
  rw [hcalm]
  exact Nat.zero_le _

/-- One frame keeps the order: the cases are what it does to the ladder below. -/
theorem Above.next (h : l.Above m) (hd : d.Eases e) : (l.next q d).Above (m.next q e) := by
  have hl := next_turn q l d
  have hm := next_turn q m e
  have htop : (l.next q d).top = (m.next q e).top := by rw [hl.top_eq, hm.top_eq, h.top_eq]
  generalize l.next q d = l' at hl htop ⊢
  generalize m.next q e = m' at hm htop ⊢
  have hle := h.level_le
  cases hm with
  | forced hforced =>
    rw [← hd.forced_eq] at hforced
    cases hl with
    | forced hforced' =>
      cases hforced.symm.trans hforced'
      refine .of_anew htop ?_ rfl
      rw [← h.top_eq]
      exact approach_mono hle _
    | drop hfree | stall hfree => rw [hfree] at hforced; cases hforced
    | best hcalm | rise hcalm | wait hcalm => rw [hcalm.1] at hforced; cases hforced
  | drop =>
    have hnear := hl.near
    exact .of_anew htop (by dsimp only; omega) rfl
  | stall hfree hhigh => exact .of_anew htop (Nat.le_trans hle (hd.le_level hl hfree hhigh)) rfl
  | best hcalm =>
    have hkept := hd.le_level hl hcalm.1 hcalm.not_high
    exact .of_anew htop (Nat.le_trans hle hkept) rfl
  | rise hcalm hne hwindow =>
    have hkept := hd.le_level hl hcalm.1 hcalm.not_high
    refine .of_anew htop ?_ rfl
    obtain hlt | ⟨heq, hcount⟩ := h.order
    · exact Nat.le_trans hlt hkept
    · -- As high, the upper ladder has counted as far, and rises too.
      obtain ⟨-, rfl⟩ | ⟨hwait, -⟩ := hl.of_calm (hd.calm hcalm) (by rwa [← heq, h.top_eq])
      · exact Nat.succ_le_succ hle
      · omega
  | wait hcalm hne =>
    have hkept := hd.le_level hl hcalm.1 hcalm.not_high
    refine ⟨htop, ?_⟩
    obtain hlt | ⟨heq, hcount⟩ := h.order
    · exact .inl (Nat.lt_of_lt_of_le hlt hkept)
    · obtain ⟨-, rfl⟩ | ⟨-, rfl⟩ := hl.of_calm (hd.calm hcalm) (by rwa [← heq, h.top_eq])
      · exact .inl (Nat.lt_succ_of_le hle)
      · exact .inr ⟨heq, Nat.succ_le_succ hcount⟩

/-- Less asked of a ladder throughout keeps it above. -/
theorem Above.behind (h : l.Above m) {n : Nat} (hd : ∀ k < n, (ds k).Eases (es k)) :
    (l.behind q ds n).Above (m.behind q es n) := by
  induction n with
  | zero => exact h
  | succ n ih =>
    have hbefore := ih fun k hk => hd k (Nat.lt_succ_of_lt hk)
    exact hbefore.next (hd n (Nat.lt_succ_self n))

end Ladder

end RenderStream
