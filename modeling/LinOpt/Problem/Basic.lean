import LinOpt.Scalar

/-!
# Linear and mixed-integer problems

A problem has a sense, decision variables with an objective coefficient and a restriction each, and
linear constraints. The types here hold what a caller writes down; `LinOpt.Problem.Build` adds
variables and constraints so that every constraint has one coefficient per variable, and
`LinOpt.Problem.Violations` says where a point fails.
-/

namespace LinOpt

/-- Whether the objective is to be large or small. -/
inductive Sense where
  | maximize
  | minimize
  deriving DecidableEq

/-- What values a variable may take. `continuous` restricts as `nonNegative` does and marks a
variable of a mixed problem as not integral. -/
inductive Restriction where
  | nonNegative
  | nonPositive
  | unrestricted
  | integer
  | binary
  | continuous
  deriving DecidableEq

/-- Whether a restriction asks for an integral value. -/
def Restriction.isIntegral : Restriction → Bool
  | .integer | .binary => true
  | _ => false

/-- The comparison of a constraint. -/
inductive Relation where
  | le
  | ge
  | eq
  deriving DecidableEq

/-- A decision variable, with its position in the problem. -/
structure Variable (α : Type) where
  index : Nat
  objective : α
  restriction : Restriction

/-- A linear constraint: the coefficients of the variables, a comparison and a right-hand side. -/
structure Constraint (α : Type) where
  coefficients : List α
  relation : Relation
  rhs : α

/-- A linear or mixed-integer problem. -/
structure Problem (α : Type) where
  sense : Sense
  vars : List (Variable α) := []
  constraints : List (Constraint α) := []

variable {α : Type} [Scalar α]

namespace Constraint

/-- The constraint that compares the one variable `index` of `n` with `rhs`. -/
def bound (n index : Nat) (relation : Relation) (rhs : α) : Constraint α :=
  ⟨Scalar.unit n index, relation, rhs⟩

/-- The left-hand side at a point. -/
def lhs (c : Constraint α) (values : List α) : α := Scalar.dot c.coefficients values

/-- Whether a point satisfies the constraint within a tolerance. -/
def IsSatisfied (c : Constraint α) (values : List α) (tolerance : α) : Prop :=
  match c.relation with
  | .le => c.lhs values ≤ c.rhs + tolerance
  | .ge => c.lhs values ≥ c.rhs - tolerance
  | .eq => Scalar.abs (c.lhs values - c.rhs) ≤ tolerance

instance (c : Constraint α) (values : List α) (tolerance : α) :
    Decidable (c.IsSatisfied values tolerance) := by
  unfold IsSatisfied
  split <;> infer_instance

end Constraint

namespace Problem

/-- Number of decision variables. -/
def numVariables (p : Problem α) : Nat := p.vars.length

/-- Number of constraints. -/
def numConstraints (p : Problem α) : Nat := p.constraints.length

/-- The objective coefficients in order of the variables. -/
def objective (p : Problem α) : List α := p.vars.map (·.objective)

/-- Positions of the variables that are to be integral. -/
def integerVariables (p : Problem α) : List Nat :=
  (p.vars.filter (·.restriction.isIntegral)).map (·.index)

/-- The objective at a point. -/
def objectiveValue (p : Problem α) (values : List α) : α := Scalar.dot p.objective values

end Problem
end LinOpt
