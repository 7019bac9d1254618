import LinOpt.Change

/-!
# Building problems

Problems grow by one variable or one constraint at a time. Coefficients that a constraint does not
give are zero, whether the constraint was short when it came or a variable was added after it; a
constraint with more coefficients than there are variables is refused.
-/

namespace LinOpt

variable {α : Type} [Scalar α]

/-- Appends zero coefficients up to `n`. -/
def Constraint.padTo (n : Nat) (c : Constraint α) : Constraint α :=
  { c with coefficients := c.coefficients ++ List.replicate (n - c.coefficients.length) 0 }

namespace Problem

/-- The problem without variables and constraints. -/
def empty (sense : Sense) : Problem α := { sense }

/-- Adds a variable behind the others, with coefficient zero in the constraints there are. -/
def addVariable (p : Problem α) (objective : α) (restriction : Restriction) : Problem α :=
  let index := p.numVariables
  { p with
    vars := p.vars ++ [⟨index, objective, restriction⟩]
    constraints := p.constraints.map (·.padTo (index + 1)) }

/-- The problem with an objective over non-negative variables and no constraint. -/
def ofObjective (sense : Sense) (objective : List α) : Problem α :=
  objective.foldl (fun p c => p.addVariable c .nonNegative) (empty sense)

/-- Restricts all variables anew, in order, unless their number is another one. -/
def restrict (restrictions : List Restriction) : Change α (Problem α) Unit := do
  let p : Problem α ← get
  if restrictions.length ≠ p.numVariables then
    throw (.dimensionMismatch p.numVariables restrictions.length)
  let restricted := p.vars.zipWith (fun v r => { v with restriction := r }) restrictions
  set { p with vars := restricted }

/-- The problem with other restrictions. -/
def withRestrictions (p : Problem α) (restrictions : List Restriction) :
    Except (Error α) (Problem α) := (restrict restrictions).result p

/-- Adds a constraint behind the others, unless it has more coefficients than there are
variables. -/
def pushConstraint (c : Constraint α) : Change α (Problem α) Unit := do
  let p ← get
  if p.numVariables < c.coefficients.length then
    throw (.dimensionMismatch p.numVariables c.coefficients.length)
  set { p with constraints := p.constraints ++ [c.padTo p.numVariables] }

/-- The problem with one constraint more. -/
def addConstraint (p : Problem α) (c : Constraint α) : Except (Error α) (Problem α) :=
  (pushConstraint c).result p

end Problem
end LinOpt
