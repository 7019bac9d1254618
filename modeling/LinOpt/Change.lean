import LinOpt.Error

/-!
# Changes in place

Problems and tableaux are changed in place. A change may be refused, and there is still a value
then: what was changed before the refusal stays changed. Methods that keep what they are given take
`Change.result`, which is the changed value or the reason why there is none.
-/

namespace LinOpt

/-- Changes of a value in place that may be refused. -/
abbrev Change (α σ : Type) := EStateM (Error α) σ

namespace Change

variable {σ α : Type}

/-- The value that is left, by a refused change as well. -/
def state (c : Change α σ Unit) (s : σ) : σ :=
  match c.run s with
  | .ok _ s => s
  | .error _ s => s

/-- The changed value, or the reason for the refusal. -/
def result (c : Change α σ Unit) (s : σ) : Except (Error α) σ :=
  match c.run s with
  | .ok _ s => .ok s
  | .error e _ => .error e

end Change
end LinOpt
