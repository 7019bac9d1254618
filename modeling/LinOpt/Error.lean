import LinOpt.Problem.Basic

/-!
# Errors

The causes for which an operation gives no answer. A problem without optimum is not one of them: it
is answered by a solution with another status. `LinOpt.Text.Wording` writes an error as text.
-/

namespace LinOpt

/-- Why an operation was refused. -/
inductive Error (α : Type) where
  /-- The pivot element is not larger than the tolerance. -/
  | degeneratePivot (row column : Nat) (value : α)
  /-- A list of values has the wrong length. -/
  | dimensionMismatch (expected found : Nat)
  /-- A tableau needs at least one column. -/
  | emptyTableau
  /-- A row or a column lies outside the tableau. -/
  | outOfRange
  /-- The standard row does not convert to `≤` with a non-negative right-hand side. -/
  | noSlackBasis (row : Nat) (relation : Relation) (rhs : α)
  /-- A constraint is added before anything was solved. -/
  | noPriorSolve
  /-- A fractional variable is basic in no row. -/
  | notBasic (variableIndex : Nat)
  /-- A knapsack problem maximizes. -/
  | knapsackSense
  /-- A knapsack problem has one constraint. -/
  | knapsackConstraints (found : Nat)
  /-- The constraint of a knapsack problem is `≤`. -/
  | knapsackRelation (found : Relation)
  /-- Values and weights of a knapsack problem are not negative. -/
  | knapsackItem (variableIndex : Nat)
  deriving DecidableEq

end LinOpt
