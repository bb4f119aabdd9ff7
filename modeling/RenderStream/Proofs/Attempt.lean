import RenderStream.Attempt

/-!
# Rules for attempts

`Attempt.Ends` speaks of both ways an attempt can end: one property for the state behind a success,
another one for the state behind a failure. `Attempt.Alike` does the same for two attempts side by
side. Their rules follow the ways in which attempts are put together, so a fact about a whole frame
is assembled from facts about single commands.
-/

namespace RenderStream.Attempt

variable {ε ρ σ τ α β : Type}

/-- What is kept by noting one element holds behind all of them. `P` speaks of the elements that are
still to come. -/
theorem foldl_keeps {P : List α → σ → Prop} {note : σ → α → σ}
    (hnote : ∀ a as s, P (a :: as) s → P as (note s a)) :
    ∀ (as : List α) (s : σ), P as s → P [] (as.foldl note s)
  | [], _, h => h
  | a :: as, s, h => foldl_keeps hnote as (note s a) (hnote a as s h)

/-! ## One attempt -/

section
variable {r : Attempt ε σ} {ok ok' failed failed' : σ → Prop}
variable {step : σ → α → Attempt ε σ} {note : σ → α → σ}

/-- The state behind a success has `ok`, the state behind a failure has `failed`. -/
def Ends (r : Attempt ε σ) (ok failed : σ → Prop) : Prop :=
  match r.failure with
  | none => ok r.state
  | some _ => failed r.state

@[simp] theorem ends_ok {s : σ} : Ends (⟨s, none⟩ : Attempt ε σ) ok failed ↔ ok s := Iff.rfl

@[simp] theorem ends_failed {s : σ} {e : ε} : Ends ⟨s, some e⟩ ok failed ↔ failed s := Iff.rfl

@[simp] theorem ends_map {f : σ → τ} {ok failed : τ → Prop} :
    (r.map f).Ends ok failed ↔ r.Ends (fun s => ok (f s)) (fun s => failed (f s)) := Iff.rfl

/-- An attempt has a result just when it did not fail. -/
theorem result_ok : r.result = .ok () ↔ r.failure = none := by
  obtain ⟨s, _ | e⟩ := r
  · exact ⟨fun _ => rfl, fun _ => rfl⟩
  · exact ⟨nofun, nofun⟩

/-- The state behind a success. -/
theorem Ends.of_ok (h : r.Ends ok failed) (hr : r.failure = none) : ok r.state := by
  simpa only [Ends, hr] using h

/-- The state behind a failure. -/
theorem Ends.of_failed (h : r.Ends ok failed) {e : ε} (hr : r.failure = some e) :
    failed r.state := by
  simpa only [Ends, hr] using h

/-- One property for both ends speaks of the state alone. -/
theorem ends_self : r.Ends ok ok ↔ ok r.state := by
  obtain ⟨s, _ | e⟩ := r
  · exact Iff.rfl
  · exact Iff.rfl

/-- What holds at an end is weakened end by end. -/
theorem Ends.mono (h : r.Ends ok failed) (hok : ∀ s, ok s → ok' s)
    (hfailed : ∀ s, failed s → failed' s) : r.Ends ok' failed' := by
  obtain ⟨s, _ | e⟩ := r
  · exact hok s h
  · exact hfailed s h

/-- Of an attempt that may fail anyhow, a success is all that matters. -/
theorem Ends.imp (h : r.Ends ok failed) (hok : ∀ s, ok s → ok' s) : r.Ends ok' fun _ => True :=
  h.mono hok fun _ _ => trivial

/-- Two things that hold at an end hold together. -/
theorem Ends.and (h : r.Ends ok failed) (h' : r.Ends ok' failed') :
    r.Ends (fun s => ok s ∧ ok' s) (fun s => failed s ∧ failed' s) := by
  obtain ⟨s, _ | e⟩ := r
  · exact ⟨h, h'⟩
  · exact ⟨h, h'⟩

/-- What is known of the state holds behind a success. -/
theorem Ends.of_state (h : ok r.state) : r.Ends ok fun _ => True := by
  obtain ⟨s, _ | e⟩ := r
  · exact h
  · trivial

/-- What is known of the state comes to what is known of both ends. -/
theorem Ends.with_state {P : σ → Prop} (h : r.Ends ok failed) (hr : P r.state) :
    r.Ends (fun s => ok s ∧ P s) (fun s => failed s ∧ P s) := by
  obtain ⟨s, _ | e⟩ := r
  · exact ⟨h, hr⟩
  · exact ⟨h, hr⟩

/-- A second operation starts where the first one succeeded; a failure of either one ends both. -/
theorem Ends.andThen {next : σ → Attempt ε σ} (h : r.Ends ok failed)
    (hnext : ∀ s, ok s → (next s).Ends ok' failed) : (r.andThen next).Ends ok' failed := by
  obtain ⟨s, _ | e⟩ := r
  · exact hnext s h
  · exact h

/-- A run behind an attempt: it goes on where that succeeded, and only notes where it failed. -/
theorem Ends.andEach {as : List α} (h : r.Ends ok failed)
    (hgo : ∀ s, ok s → (Attempt.each step note s as).Ends ok' failed')
    (hlost : ∀ s, failed s → failed' (as.foldl note s)) :
    (r.andEach step note as).Ends ok' failed' := by
  obtain ⟨s, _ | e⟩ := r
  · exact hgo s h
  · exact hlost s h

/-- The rule for a run. `P` and `Q` speak of the elements that are still to come: the first one as
long as nothing failed, the second one behind a failure. -/
theorem Ends.each {P Q : List α → σ → Prop}
    (hstep : ∀ a as s, P (a :: as) s → (step s a).Ends (P as) (Q as))
    (hnote : ∀ a as s, Q (a :: as) s → Q as (note s a)) :
    ∀ (as : List α) (s : σ), P as s → (Attempt.each step note s as).Ends (P []) (Q [])
  | [], _, h => h
  | a :: as, s, h => by
    rw [each_cons]
    exact (hstep a as s h).andEach (Ends.each hstep hnote as) (foldl_keeps hnote as)

/-- A run over two lists is a run over the second one behind a run over the first one. -/
theorem each_append (as bs : List α) :
    ∀ s : σ, Attempt.each step note s (as ++ bs) =
      (Attempt.each step note s as).andEach step note bs := by
  induction as with
  | nil => exact fun s => rfl
  | cons a as ih =>
    intro s
    rw [List.cons_append, each_cons, each_cons]
    obtain ⟨s', _ | e⟩ := step s a
    · exact ih s'
    · simp only [Attempt.andEach, List.foldl_append]

/-- A run over the images of elements. -/
theorem each_image (g : β → α) (bs : List β) :
    ∀ s : σ, Attempt.each step note s (bs.map g) =
      Attempt.each (fun s b => step s (g b)) (fun s b => note s (g b)) s bs := by
  induction bs with
  | nil => exact fun s => rfl
  | cons b bs ih =>
    intro s
    rw [List.map_cons, each_cons, each_cons]
    obtain ⟨s', _ | e⟩ := step s (g b)
    · exact ih s'
    · simp only [Attempt.andEach, List.foldl_map]

/-- What every element keeps, carried out or noted, is kept by a run. -/
theorem each_keeps {P : σ → Prop} (hstep : ∀ a s, P s → P (step s a).state)
    (hnote : ∀ a s, P s → P (note s a)) (as : List α) :
    ∀ s, P s → P (Attempt.each step note s as).state := by
  intro s h
  have hstep' : ∀ a (_ : List α) s, P s → (step s a).Ends P P :=
    fun a _ s h => ends_self.2 (hstep a s h)
  exact ends_self.1 (Ends.each (P := fun _ => P) (Q := fun _ => P) hstep'
    (fun a _ s h => hnote a s h) as s h)

/-- What an attempt leaves, and every element keeps, is left by a run behind the attempt. -/
theorem andEach_keeps {P : σ → Prop} (hstep : ∀ a s, P s → P (step s a).state)
    (hnote : ∀ a s, P s → P (note s a)) (as : List α) (h : P r.state) :
    P (r.andEach step note as).state := by
  obtain ⟨s, _ | e⟩ := r
  · exact each_keeps hstep hnote as s h
  · exact foldl_keeps (P := fun _ => P) (fun a _ s h => hnote a s h) as s h

end

/-! ## Two attempts -/

section
variable {r : Attempt ε σ} {q : Attempt ε τ} {ok ok' failed failed' : σ → τ → Prop}
variable {step : σ → α → Attempt ε σ} {note : σ → α → σ}
variable {step' : τ → β → Attempt ε τ} {note' : τ → β → τ}

/-- Both attempts succeed, with states related by `ok`, or both fail in the same way, with states
related by `failed`. -/
def Alike (ok failed : σ → τ → Prop) (r : Attempt ε σ) (q : Attempt ε τ) : Prop :=
  match r.failure, q.failure with
  | none, none => ok r.state q.state
  | some e, some e' => e = e' ∧ failed r.state q.state
  | _, _ => False

@[simp] theorem alike_ok {s : σ} {t : τ} :
    Alike ok failed (⟨s, none⟩ : Attempt ε σ) ⟨t, none⟩ ↔ ok s t := Iff.rfl

/-- Attempts that are alike fail alike. -/
theorem Alike.failure_eq (h : Alike ok failed r q) : r.failure = q.failure := by
  obtain ⟨s, _ | e⟩ := r <;> obtain ⟨t, _ | e'⟩ := q
  · rfl
  · exact h.elim
  · exact h.elim
  · exact congrArg some h.1

/-- What does not speak of the states depends only on how an attempt ends. -/
theorem Alike.ends_const {P Q : Prop} (h : Alike ok failed r q) :
    r.Ends (fun _ => P) (fun _ => Q) ↔ q.Ends (fun _ => P) (fun _ => Q) := by
  rw [Ends, Ends, h.failure_eq]

/-- What holds at either end holds of the states. -/
theorem Alike.of_state (h : Alike ok ok r q) : ok r.state q.state := by
  obtain ⟨s, _ | e⟩ := r <;> obtain ⟨t, _ | e'⟩ := q
  · exact h
  · exact h.elim
  · exact h.elim
  · exact h.2

/-- What relates two ends is weakened end by end. -/
theorem Alike.mono (h : Alike ok failed r q) (hok : ∀ s t, ok s t → ok' s t)
    (hfailed : ∀ s t, failed s t → failed' s t) : Alike ok' failed' r q := by
  obtain ⟨s, _ | e⟩ := r <;> obtain ⟨t, _ | e'⟩ := q
  · exact hok s t h
  · exact h.elim
  · exact h.elim
  · exact ⟨h.1, hfailed s t h.2⟩

/-- What is known of the right state comes to what relates both. -/
theorem Alike.with_right {P : τ → Prop} (h : Alike ok failed r q) (hq : P q.state) :
    Alike (fun s t => ok s t ∧ P t) (fun s t => failed s t ∧ P t) r q := by
  obtain ⟨s, _ | e⟩ := r <;> obtain ⟨t, _ | e'⟩ := q
  · exact ⟨h, hq⟩
  · exact h.elim
  · exact h.elim
  · exact ⟨h.1, h.2, hq⟩

/-- One attempt seen through two changes of the state. -/
theorem alike_maps {r : Attempt ε ρ} {f : ρ → σ} {g : ρ → τ} (hok : ok (f r.state) (g r.state))
    (hfailed : failed (f r.state) (g r.state)) : Alike ok failed (r.map f) (r.map g) := by
  obtain ⟨s, _ | e⟩ := r
  · exact hok
  · exact ⟨rfl, hfailed⟩

/-- Attempts that are alike go on alike. -/
theorem Alike.andThen {next : σ → Attempt ε σ} {next' : τ → Attempt ε τ}
    (h : Alike ok failed r q) (hnext : ∀ s t, ok s t → Alike ok' failed (next s) (next' t)) :
    Alike ok' failed (r.andThen next) (q.andThen next') := by
  obtain ⟨s, _ | e⟩ := r <;> obtain ⟨t, _ | e'⟩ := q
  · exact hnext s t h
  · exact h.elim
  · exact h.elim
  · exact h

/-- Two runs behind two attempts, over lists that need not be the same. -/
theorem Alike.andEach {as : List α} {bs : List β} (h : Alike ok failed r q)
    (hgo : ∀ s t, ok s t →
      Alike ok' failed' (Attempt.each step note s as) (Attempt.each step' note' t bs))
    (hlost : ∀ s t, failed s t → failed' (as.foldl note s) (bs.foldl note' t)) :
    Alike ok' failed' (r.andEach step note as) (q.andEach step' note' bs) := by
  obtain ⟨s, _ | e⟩ := r <;> obtain ⟨t, _ | e'⟩ := q
  · exact hgo s t h
  · exact h.elim
  · exact h.elim
  · exact ⟨h.1, hlost s t h.2⟩

end

section
variable {step : σ → α → Attempt ε σ} {note : σ → α → σ}
variable {step' : τ → α → Attempt ε τ} {note' : τ → α → τ}

/-- What is kept by noting one element on both sides holds behind all of them. -/
theorem foldl_keeps₂ {P : List α → σ → τ → Prop}
    (hnote : ∀ a as s t, P (a :: as) s t → P as (note s a) (note' t a)) :
    ∀ (as : List α) (s : σ) (t : τ), P as s t → P [] (as.foldl note s) (as.foldl note' t)
  | [], _, _, h => h
  | a :: as, s, t, h => foldl_keeps₂ hnote as (note s a) (note' t a) (hnote a as s t h)

/-- The rule for two runs over the same elements. -/
theorem Alike.each {going lost : List α → σ → τ → Prop}
    (hstep : ∀ a as s t, going (a :: as) s t →
      Alike (going as) (lost as) (step s a) (step' t a))
    (hnote : ∀ a as s t, lost (a :: as) s t → lost as (note s a) (note' t a)) :
    ∀ (as : List α) (s : σ) (t : τ), going as s t →
      Alike (going []) (lost []) (Attempt.each step note s as) (Attempt.each step' note' t as)
  | [], _, _, h => h
  | a :: as, s, t, h => by
    rw [each_cons, each_cons]
    exact (hstep a as s t h).andEach (Alike.each hstep hnote as) (foldl_keeps₂ hnote as)

/-- A run commutes with a change of the state if every step of it does. -/
theorem each_map {f : σ → τ} (hstep : ∀ s a, step' (f s) a = (step s a).map f)
    (hnote : ∀ s a, note' (f s) a = f (note s a)) (as : List α) :
    ∀ s : σ, Attempt.each step' note' (f s) as = (Attempt.each step note s as).map f := by
  induction as with
  | nil => exact fun s => rfl
  | cons a as ih =>
    intro s
    rw [each_cons, each_cons, hstep]
    obtain ⟨s', _ | e⟩ := step s a
    · exact ih s'
    · have hlost : as.foldl note' (f s') = f (as.foldl note s') := List.foldl_hom f hnote
      simp only [andEach, map, hlost]

/-- A run does not tell elements from their images if no step of it does. -/
theorem each_images {f : α → α} (hstep : ∀ s a, step s (f a) = step s a)
    (hnote : ∀ s a, note s (f a) = note s a) (as : List α) :
    ∀ s : σ, Attempt.each step note s (as.map f) = Attempt.each step note s as := by
  have hlost : (fun s a => note s (f a)) = note := funext fun s => funext fun a => hnote s a
  induction as with
  | nil => exact fun s => rfl
  | cons a as ih =>
    intro s
    rw [List.map_cons, each_cons, each_cons, hstep]
    obtain ⟨s', _ | e⟩ := step s a
    · exact ih s'
    · simp only [andEach, List.foldl_map, hlost]

end

end RenderStream.Attempt
