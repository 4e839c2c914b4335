import BoxLayout.Event

/-!
# Logged computations

A computation over a tree that may fail and that reports events. What it reported before a failure
stays reported.

* `Logged` — the outcome with the log; a monad.
* `Logged.report`, `Logged.ofAttempt` — the two things a step can do: report, or succeed or fail.
-/

namespace BoxLayout

/-- An outcome and the events up to it. -/
structure Logged (α β : Type) where
  outcome : Attempt α β
  log : List (Event α)

namespace Logged

variable {α β γ : Type}

/-- A computation after another. A failure ends both. -/
def andThen (x : Logged α β) (next : β → Logged α γ) : Logged α γ :=
  match x.outcome with
  | .error e => ⟨.error e, x.log⟩
  | .ok value =>
    let y := next value
    ⟨y.outcome, x.log ++ y.log⟩

instance : Monad (Logged α) where
  pure value := ⟨.ok value, []⟩
  bind := andThen

def report (events : List (Event α)) : Logged α Unit := ⟨.ok (), events⟩

def ofAttempt (outcome : Attempt α β) : Logged α β := ⟨outcome, []⟩

def fail (e : LayoutError ViewId α) : Logged α β := ⟨.error e, []⟩

/-! ## The two views of a sequence

The outcome of a sequence is the sequence of outcomes, whatever was reported. -/

@[simp] theorem outcome_pure (value : β) : (pure value : Logged α β).outcome = .ok value := rfl

@[simp] theorem log_pure (value : β) : (pure value : Logged α β).log = [] := rfl

@[simp] theorem outcome_bind (x : Logged α β) (next : β → Logged α γ) :
    (x >>= next).outcome = x.outcome.bind fun value => (next value).outcome := by
  show (andThen x next).outcome = _
  unfold andThen
  cases x.outcome <;> rfl

/-- The log of a sequence is the logs one after another, up to a failure. -/
theorem log_bind (x : Logged α β) (next : β → Logged α γ) :
    (x >>= next).log = x.log ++ match x.outcome with
      | .error _ => []
      | .ok value => (next value).log := by
  show (andThen x next).log = _
  unfold andThen
  cases x.outcome with
  | error _ => exact (List.append_nil _).symm
  | ok _ => rfl

@[simp] theorem outcome_report (events : List (Event α)) :
    (report events).outcome = .ok () := rfl

@[simp] theorem outcome_ofAttempt (outcome : Attempt α β) :
    (ofAttempt outcome).outcome = outcome := rfl

@[simp] theorem outcome_fail (e : LayoutError ViewId α) :
    (fail e : Logged α β).outcome = .error e := rfl

end Logged

end BoxLayout
