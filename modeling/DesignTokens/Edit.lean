/-!
# Edits

An edit runs on a state and either answers or fails; what a failure leaves of the state is part of
its outcome, so that "a rejected edit changes nothing" is a statement and not a convention.
-/

namespace DesignTokens

/-- An edit of a state `σ` that answers an `α` or fails with an `ε`. -/
abbrev Edit (ε σ α : Type) := EStateM ε σ α

namespace Edit

variable {ε σ τ α : Type}

/-- A check that touches no state. -/
def check : Except ε α → Edit ε σ α
  | .ok a => pure a
  | .error e => throw e

/-- The state after the edit, whatever the outcome. -/
def stateAfter (edit : Edit ε σ α) (s : σ) : σ :=
  match edit.run s with
  | .ok _ s => s
  | .error _ s => s

def result (edit : Edit ε σ α) (s : σ) : Except ε α :=
  match edit.run s with
  | .ok a _ => .ok a
  | .error e _ => .error e

/-- An edit of a part of the state, with its failures renamed. -/
def onPart {δ : Type} (part : σ → τ) (replace : τ → σ → σ) (wrap : δ → ε) (edit : Edit δ τ α) :
    Edit ε σ α := fun s =>
  match edit.run (part s) with
  | .ok a t => .ok a (replace t s)
  | .error e t => .error (wrap e) (replace t s)

@[simp] theorem run_check_ok (a : α) (s : σ) :
    (check (.ok a) : Edit ε σ α).run s = .ok a s := rfl

@[simp] theorem run_check_error (e : ε) (s : σ) :
    (check (.error e) : Edit ε σ α).run s = .error e s := rfl

end Edit
end DesignTokens
