/-!
Going on after a failure. A computation that fails leaves its state where it came to; an attempt
at it yields the failure as a value.
-/
namespace Frontend

/-- Runs a computation and yields its result, also a failure. -/
def attempt {ε σ α : Type} (x : EStateM ε σ α) : EStateM ε σ (Except ε α) := fun s =>
  match x s with
  | .ok a s => .ok (.ok a) s
  | .error e s => .ok (.error e) s

/-- How a computation that starts in a state ends: `done` holds of its value and of the state then,
or `failed` of the state where it fails. -/
def Runs {ε σ α : Type} (x : EStateM ε σ α) (s : σ) (done : α → σ → Prop) (failed : σ → Prop) :
    Prop :=
  match x s with
  | .ok a s' => done a s'
  | .error _ s' => failed s'

namespace Runs

variable {ε σ α β : Type} {x : EStateM ε σ α} {k : α → EStateM ε σ β} {s : σ}
  {mid done done' : α → σ → Prop} {final : β → σ → Prop} {failed failed' : σ → Prop}

theorem mono (h : Runs x s done failed) (value : ∀ a s', done a s' → done' a s')
    (failure : ∀ s', failed s' → failed' s') : Runs x s done' failed' := by
  unfold Runs at h ⊢
  cases run : x s with
  | ok a s' =>
    rw [run] at h
    exact value a s' h
  | error d s' =>
    rw [run] at h
    exact failure s' h

theorem bind (first : Runs x s mid failed)
    (then_ : ∀ a s', mid a s' → Runs (k a) s' final failed) : Runs (x >>= k) s final failed := by
  unfold Runs at first
  simp only [Runs, Bind.bind, EStateM.bind]
  cases run : x s with
  | ok a s' =>
    rw [run] at first
    exact then_ a s' first
  | error d s' =>
    rw [run] at first
    exact first

theorem modify_bind {f : σ → σ} {k : PUnit → EStateM ε σ β} (then_ : Runs (k ⟨⟩) (f s) final failed) :
    Runs (modify f >>= k) s final failed :=
  then_

/-- An attempt never fails. What the computation comes to is told, also a failure. -/
theorem attempt (h : Runs x s done failed) : Runs (attempt x) s (fun found s' =>
    match found with
    | .ok a => done a s'
    | .error _ => failed s') failed' := by
  unfold Runs at h
  simp only [Runs, Frontend.attempt]
  cases run : x s with
  | ok a s' =>
    rw [run] at h
    exact h
  | error d s' =>
    rw [run] at h
    exact h

end Runs

end Frontend
