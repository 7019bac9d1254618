import LinOpt.Problem.Basic
import LinOpt.Selection

/-!
# Violated constraints

`Problem.violations` lists the constraints that a point does not satisfy, the worst first and
equally bad ones in order of the problem. Restrictions of the variables are not looked at.
-/

namespace LinOpt

/-- A constraint that does not hold at a point: `actual` is its left-hand side there. -/
structure Violation (α : Type) where
  constraint : Nat
  relation : Relation
  required : α
  actual : α
  amount : α

variable {α : Type} [Scalar α]

/-- By how much the left-hand side `lhs` misses the comparison. -/
def Relation.excess (r : Relation) (lhs rhs : α) : α :=
  match r with
  | .le => lhs - rhs
  | .ge => rhs - lhs
  | .eq => Scalar.abs (lhs - rhs)

/-- The violation of constraint number `i` at a point, if it is one. -/
def Constraint.violation? (values : List α) (tolerance : α) (i : Nat) (c : Constraint α) :
    Option (Violation α) :=
  if c.IsSatisfied values tolerance then none
  else
    let lhs := c.lhs values
    some ⟨i, c.relation, c.rhs, lhs, c.relation.excess lhs c.rhs⟩

/-- The violated constraints, worst first. -/
def Problem.violations (p : Problem α) (values : List α) (tolerance : α) : List (Violation α) :=
  Selection.sortStable (fun v w => decide (w.amount < v.amount))
    ((p.constraints.mapIdx fun i c => c.violation? values tolerance i).filterMap id)

end LinOpt
