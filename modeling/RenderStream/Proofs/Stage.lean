import Mathlib.Data.List.Induction
import RenderStream.Pacing.Stage

/-!
# Stages that serve items in order

A stage that is down keeps its state, whatever it is given, so serving a list of items is a fold
that nothing interrupts: how a list was cut into deliveries cannot be told from the stage. `Sound`
is the one fact about a stage that outlives every step.

What the sink saw is told by a sink that is watched: it keeps a log of every call. The log of a
stage that served items from the beginning on is `Notice.InOrder`.
-/

namespace RenderStream

namespace Stage

variable {ι σ : Type} [Sink ι σ] {s : Stage σ} {item : ι}

/-! ## Serving -/

/-- A stage is up as long as nothing broke down and it was not told that no item comes. -/
theorem isUp_iff : s.isUp = true ↔ s.breakdown = none ∧ s.finished = false := by
  simp [isUp]

/-- A stage that is down serves nothing. -/
theorem serve_of_down (h : s.isUp = false) (item : ι) : s.serve item = s :=
  if_neg (by simp [h])

/-- An item that the sink accepts is counted. -/
theorem serve_ok (h : s.isUp = true) (hr : (Sink.accept item s.sink).failure = none) :
    s.serve item =
      { s with sink := (Sink.accept item s.sink).state, served := s.served + 1 } := by
  simp only [serve, h, if_true, hr]

/-- An item that the sink fails on takes the stage down, and the sink is told so unless it
panicked. -/
theorem serve_failed {e : Breakdown} (h : s.isUp = true)
    (hr : (Sink.accept item s.sink).failure = some e) :
    s.serve item =
      finish { s with sink := (Sink.accept item s.sink).state, breakdown := some e } := by
  simp only [serve, h, if_true, hr]

/-- A stage that was told or that panicked is not told again. -/
theorem finish_eq (h : s.finished = true ∨ s.breakdown = some .panicked) : s.finish = s :=
  if_pos (by simpa using h)

/-- A stage that was not told yet and did not panic is told. -/
theorem finish_eq_of_not (hf : s.finished = false) (hb : s.breakdown ≠ some .panicked) :
    s.finish = { s with sink := Sink.finish s.sink, finished := true } :=
  if_neg (by simpa [hf] using hb)

@[simp] theorem breakdown_finish (s : Stage σ) : s.finish.breakdown = s.breakdown := by
  rw [finish]
  split <;> rfl

@[simp] theorem served_finish (s : Stage σ) : s.finish.served = s.served := by
  rw [finish]
  split <;> rfl

/-- A stage that is finished was told, unless it panicked. -/
theorem finished_or_panicked (s : Stage σ) :
    s.finish.finished = true ∨ s.finish.breakdown = some .panicked := by
  rw [finish]
  split
  · next h => simpa using h
  · exact .inl rfl

@[simp] theorem finish_finish (s : Stage σ) : s.finish.finish = s.finish :=
  finish_eq s.finished_or_panicked

@[simp] theorem isUp_finish (s : Stage σ) : s.finish.isUp = false := by
  refine Bool.eq_false_iff.2 fun h => ?_
  rcases s.finished_or_panicked with hf | hb
  · rw [(isUp_iff.1 h).2] at hf
    exact Bool.false_ne_true hf
  · rw [(isUp_iff.1 h).1] at hb
    exact absurd hb nofun

/-- A stage that is down was told that no further item comes, unless it panicked. -/
def Sound (s : Stage σ) : Prop := s.isUp = true ∨ s.finish = s

/-- A sound stage that is down need not be finished. -/
theorem Sound.finish_eq (h : s.Sound) (hdown : s.isUp = false) : s.finish = s :=
  h.resolve_left (by simp [hdown])

/-- A finished stage is sound. -/
theorem Sound.finish (s : Stage σ) : s.finish.Sound := .inr s.finish_finish

/-- Serving an item leaves a stage sound. -/
theorem Sound.serve (h : s.Sound) (item : ι) : (s.serve item).Sound := by
  cases hup : s.isUp with
  | false => rwa [serve_of_down hup]
  | true =>
    cases hr : (Sink.accept item s.sink).failure with
    | none => exact .inl (by rwa [serve_ok hup hr])
    | some e => exact serve_failed hup hr ▸ .finish _

/-! ## Serving one after the other -/

/-- A stage that is down serves none of the items. -/
theorem foldl_serve_of_down (h : s.isUp = false) (items : List ι) : items.foldl serve s = s := by
  induction items with
  | nil => rfl
  | cons item rest ih => rw [List.foldl_cons, serve_of_down h, ih]

/-- To serve all items is to serve one after the other. -/
theorem serveAll_fst (s : Stage σ) (items : List ι) :
    (s.serveAll items).1 = items.foldl serve s := by
  induction items generalizing s with
  | nil => rfl
  | cons item rest ih =>
    rw [serveAll]
    split
    · exact ih _
    · next hdown => exact (foldl_serve_of_down (Bool.eq_false_iff.2 hdown) _).symm

/-- A stage that is up behind an item was up before it. -/
theorem isUp_of_serve (h : (s.serve item).isUp = true) : s.isUp = true := by
  by_contra hdown
  rw [serve_of_down (Bool.eq_false_iff.2 hdown)] at h
  exact hdown h

/-- An item behind which the stage is up was counted. -/
theorem served_serve (h : (s.serve item).isUp = true) : (s.serve item).served = s.served + 1 := by
  have hup : s.isUp = true := isUp_of_serve h
  cases hr : (Sink.accept item s.sink).failure with
  | none => rw [serve_ok hup hr]
  | some e =>
    rw [serve_failed hup hr, isUp_finish] at h
    exact absurd h Bool.false_ne_true

/-- The item that takes the stage down was not counted. -/
theorem served_serve_of_failed (hup : s.isUp = true) (h : (s.serve item).isUp = false) :
    (s.serve item).served = s.served := by
  cases hr : (Sink.accept item s.sink).failure with
  | none =>
    rw [serve_ok hup hr] at h
    exact absurd hup (Bool.eq_false_iff.1 h)
  | some e => rw [serve_failed hup hr, served_finish]

/-- A stage that is down behind an item has not served it. -/
theorem served_serve_of_down (h : (s.serve item).isUp = false) :
    (s.serve item).served = s.served := by
  cases hup : s.isUp with
  | true => exact served_serve_of_failed hup h
  | false => rw [serve_of_down hup]

/-- An item is served once at most. -/
theorem served_serve_le (s : Stage σ) (item : ι) : (s.serve item).served ≤ s.served + 1 := by
  cases hserved : (s.serve item).isUp with
  | true => exact Nat.le_of_eq (served_serve hserved)
  | false => exact Nat.le_succ_of_le (Nat.le_of_eq (served_serve_of_down hserved))

/-- A stage behind items that it was given from the beginning on. -/
def fed (sink : σ) (items : List ι) : Stage σ := items.foldl serve { sink }

/-- Items are fed one after the other. -/
theorem fed_append (sink : σ) (items more : List ι) :
    fed sink (items ++ more) = more.foldl serve (fed sink items) :=
  List.foldl_append

/-- A stage that went down did not serve everything. -/
theorem served_foldl_lt {items : List ι} (hup : s.isUp = true)
    (h : (items.foldl serve s).isUp = false) :
    (items.foldl serve s).served < s.served + items.length := by
  induction items generalizing s with
  | nil => exact absurd hup (Bool.eq_false_iff.1 h)
  | cons item rest ih =>
    rw [List.foldl_cons] at h ⊢
    rw [List.length_cons]
    cases hs : (s.serve item).isUp with
    | true =>
      have := ih hs h
      rw [served_serve hs] at this
      omega
    | false =>
      rw [foldl_serve_of_down hs, served_serve_of_failed hup hs]
      omega

end Stage

/-! ## Watched sinks -/

/-- A call of a sink. -/
inductive Notice (ι : Type) where
  /-- An item, and what became of it. -/
  | item (item : ι) (failure : Option Breakdown)
  /-- No further item comes. -/
  | finish
deriving DecidableEq

/-- A sink with a log of its calls. -/
structure Watched (ι σ : Type) where
  sink : σ
  log : List (Notice ι) := []
deriving DecidableEq

instance {ι σ : Type} [Sink ι σ] : Sink ι (Watched ι σ) where
  accept item w :=
    let r := Sink.accept item w.sink
    ⟨⟨r.state, w.log ++ [.item item r.failure]⟩, r.failure⟩
  finish w := ⟨Sink.finish w.sink, w.log ++ [.finish]⟩

/-- The log of a sink that got items in order, served `n` of them and either failed on the next one
or got all of them, and was told once, at the end, that no further item comes. -/
def Notice.InOrder {ι : Type} (items : List ι) (n : Nat) (error : Option PipelineError)
    (log : List (Notice ι)) : Prop :=
  match error with
  | none => n = items.length ∧ log = items.map (.item · none) ++ [.finish]
  | some e => ∃ bad, items[n]? = some bad ∧
      log = (items.take n).map (.item · none) ++ [.item bad (some (.failed e)), .finish]

namespace Stage

variable {ι σ : Type} [Sink ι σ]

def unwatched (s : Stage (Watched ι σ)) : Stage σ := { s with sink := s.sink.sink }

/-- Whether a stage is watched does not matter to its finish. -/
theorem unwatched_finish (s : Stage (Watched ι σ)) : s.finish.unwatched = s.unwatched.finish := by
  rw [finish, finish]
  exact apply_ite unwatched _ _ _

/-- Nothing changes for a sink that is watched. -/
theorem unwatched_serve (s : Stage (Watched ι σ)) (item : ι) :
    (s.serve item).unwatched = s.unwatched.serve item := by
  cases hup : s.isUp with
  | false => rw [serve_of_down hup, serve_of_down (s := s.unwatched) hup]
  | true =>
    cases hr : (Sink.accept item s.sink.sink).failure with
    | none => rw [serve_ok hup hr, serve_ok (s := s.unwatched) hup hr]; rfl
    | some e =>
      rw [serve_failed hup hr, serve_failed (s := s.unwatched) hup hr, unwatched_finish]
      rfl

/-- Whether a stage is watched does not matter to what it is fed. -/
theorem unwatched_fed (sink : σ) (items : List ι) :
    (fed (⟨sink, []⟩ : Watched ι σ) items).unwatched = fed sink items := by
  induction items using List.reverseRecOn with
  | nil => rfl
  | append_singleton items item ih =>
    rw [fed_append, fed_append, List.foldl_cons, List.foldl_cons, List.foldl_nil, List.foldl_nil,
      unwatched_serve, ih]

/-- A watched stage gives the account of the stage. -/
theorem account_finish_fed (sink : σ) (items : List ι) :
    (fed (⟨sink, []⟩ : Watched ι σ) items).finish.account = (fed sink items).finish.account := by
  rw [← unwatched_fed sink items, ← unwatched_finish]
  rfl

/-- A watched stage ends with the error of the stage. -/
theorem error?_finish_fed (sink : σ) (items : List ι) :
    (fed (⟨sink, []⟩ : Watched ι σ) items).finish.error? = (fed sink items).finish.error? := by
  rw [← unwatched_fed sink items, ← unwatched_finish]
  rfl

/-- What the log says of a stage that was given items from the beginning on. -/
def Tells (items : List ι) (s : Stage (Watched ι σ)) : Prop :=
  match s.breakdown with
  | none => s.finished = false ∧ s.served = items.length ∧ s.sink.log = items.map (.item · none)
  | some .panicked => True
  | some (.failed e) => s.finished = true ∧ Notice.InOrder items s.served (some e) s.sink.log

/-- What a watched stage has seen goes on with the item that it serves. -/
theorem Tells.serve {items : List ι} {s : Stage (Watched ι σ)} (h : s.Tells items) (item : ι) :
    (s.serve item).Tells (items ++ [item]) := by
  cases hb : s.breakdown with
  | none =>
    simp only [Tells, hb] at h
    obtain ⟨hf, hserved, hlog⟩ := h
    have hup : s.isUp = true := isUp_iff.2 ⟨hb, hf⟩
    cases hr : (Sink.accept item s.sink.sink).failure with
    | none =>
      rw [serve_ok hup hr]
      simp only [Tells, hb]
      refine ⟨hf, by rw [hserved, List.length_append]; rfl, ?_⟩
      change s.sink.log ++ [.item item (Sink.accept item s.sink.sink).failure] = _
      rw [hr, hlog, List.map_append]
      rfl
    | some e =>
      rw [serve_failed hup hr]
      cases e with
      | panicked => simp only [Tells, breakdown_finish]
      | failed e =>
        rw [finish_eq_of_not (by exact hf) (by simp)]
        refine ⟨rfl, item, ?_, ?_⟩
        · change (items ++ [item])[s.served]? = some item
          rw [hserved, List.getElem?_concat_length]
        · change s.sink.log ++ [.item item (Sink.accept item s.sink.sink).failure] ++ [.finish] =
            ((items ++ [item]).take s.served).map (.item · none) ++ _
          rw [hr, hserved, List.take_left, hlog, List.append_assoc]
          rfl
  | some b =>
    rw [serve_of_down (by simp [isUp, hb])]
    cases b with
    | panicked => simp only [Tells, hb]
    | failed e =>
      simp only [Tells, hb] at h ⊢
      obtain ⟨hf, bad, hbad, hlog⟩ := h
      have hlt : s.served < items.length := (List.getElem?_eq_some_iff.1 hbad).1
      refine ⟨hf, bad, ?_, ?_⟩
      · rw [List.getElem?_append_left hlt, hbad]
      · rw [List.take_append_of_le_length (Nat.le_of_lt hlt), hlog]

/-- A watched stage has seen what it was fed, up to the item that took it down. -/
theorem tells_fed (sink : σ) (items : List ι) :
    (fed (⟨sink, []⟩ : Watched ι σ) items).Tells items := by
  induction items using List.reverseRecOn with
  | nil => exact ⟨rfl, rfl, rfl⟩
  | append_singleton items item ih =>
    rw [fed_append]
    exact ih.serve item

/-- The log of a stage that was given items without a panic and then finished. -/
theorem inOrder_finish_fed {sink : σ} {items : List ι} (hcalm : (fed sink items).panicked = false) :
    let s := (fed (⟨sink, []⟩ : Watched ι σ) items).finish
    Notice.InOrder items s.account s.error? s.sink.log := by
  rw [← unwatched_fed] at hcalm
  have h := tells_fed sink items
  generalize fed (⟨sink, []⟩ : Watched ι σ) items = s at hcalm h
  have hcalm : s.panicked = false := hcalm
  have haccount : s.finish.account = s.served := by
    have hcalm : s.finish.panicked = false := by rwa [panicked, breakdown_finish]
    rw [account, hcalm, served_finish]
    rfl
  have herror : s.finish.error? = s.error? := by rw [error?, breakdown_finish]; rfl
  change Notice.InOrder items s.finish.account s.finish.error? s.finish.sink.log
  rw [haccount, herror]
  cases hb : s.breakdown with
  | none =>
    simp only [Tells, hb] at h
    obtain ⟨hf, hserved, hlog⟩ := h
    rw [finish_eq_of_not hf (by simp [hb]), error?, hb]
    exact ⟨hserved, congrArg (· ++ [Notice.finish]) hlog⟩
  | some b =>
    cases b with
    | panicked => simp [panicked, hb] at hcalm
    | failed e =>
      simp only [Tells, hb] at h
      rw [finish_eq (.inl h.1)]
      simp only [error?, hb]
      exact h.2

end Stage

end RenderStream
