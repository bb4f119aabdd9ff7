/-!
# Attempts

An operation that may fail still leaves a state behind. An attempt is that state with the failure,
if there was one; what follows a failure does not run.
-/

namespace RenderStream

/-- What an operation leaves. -/
structure Attempt (ε σ : Type) where
  state : σ
  failure : Option ε := none
deriving DecidableEq

namespace Attempt

variable {ε σ τ α : Type}

/-- A second operation, unless the first one failed. -/
def andThen (a : Attempt ε σ) (next : σ → Attempt ε σ) : Attempt ε σ :=
  match a.failure with
  | none => next a.state
  | some _ => a

def map (a : Attempt ε σ) (f : σ → τ) : Attempt ε τ := ⟨f a.state, a.failure⟩

/-- One step for every element, in order. After a failure the elements that are left are only
noted. -/
def each (step : σ → α → Attempt ε σ) (note : σ → α → σ) (s : σ) : List α → Attempt ε σ
  | [] => ⟨s, none⟩
  | a :: rest =>
    let r := step s a
    match r.failure with
    | none => each step note r.state rest
    | some e => ⟨rest.foldl note r.state, some e⟩

/-- One step for every element behind an attempt; if that failed, the elements are only noted. -/
def andEach (a : Attempt ε σ) (step : σ → α → Attempt ε σ) (note : σ → α → σ) (as : List α) :
    Attempt ε σ :=
  match a.failure with
  | none => each step note a.state as
  | some e => ⟨as.foldl note a.state, some e⟩

def result (a : Attempt ε σ) : Except ε Unit :=
  match a.failure with
  | none => .ok ()
  | some e => .error e

@[simp] theorem andThen_ok (s : σ) (next : σ → Attempt ε σ) :
    andThen ⟨s, none⟩ next = next s := rfl

@[simp] theorem andThen_failed (s : σ) (e : ε) (next : σ → Attempt ε σ) :
    andThen ⟨s, some e⟩ next = ⟨s, some e⟩ := rfl

theorem each_cons (step : σ → α → Attempt ε σ) (note : σ → α → σ) (s : σ) (a : α) (as : List α) :
    each step note s (a :: as) = (step s a).andEach step note as := rfl

@[simp] theorem map_state (a : Attempt ε σ) (f : σ → τ) : (a.map f).state = f a.state := rfl

@[simp] theorem map_failure (a : Attempt ε σ) (f : σ → τ) : (a.map f).failure = a.failure := rfl

end Attempt

end RenderStream
