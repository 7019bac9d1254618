import LinOpt.Problem.Basic
import LinOpt.Solution.ColumnName
import LinOpt.Solution.BranchPath

/-!
# What a solver has to say

The messages of a solution, as what they say rather than as text: `LinOpt.Text.Wording` writes them.
A caller may add remarks of its own (`Message.other`).
-/

namespace LinOpt

/-- How a solve ended. -/
inductive Status where
  | notSolved
  | optimal
  | infeasible
  | unbounded
  /-- A limit or an interrupt ended the solve. -/
  | limitReached
  deriving DecidableEq

/-- The two phases of the dual method. -/
inductive Phase where
  /-- Negative right-hand sides are removed. -/
  | feasibility
  /-- Negative entries of the objective row are removed. -/
  | optimality
  deriving DecidableEq

/-- The number a phase is written with. -/
def Phase.number : Phase → Nat
  | .feasibility => 1
  | .optimality => 2

/-- What a branch-and-bound search did with its nodes. -/
structure SearchStats where
  nodesExplored : Nat := 0
  branches : Nat := 0
  prunedByBound : Nat := 0
  prunedInfeasible : Nat := 0
  abandoned : Nat := 0
  integralCandidates : Nat := 0
  deriving DecidableEq

/-- A constraint added to a solved problem, with the name of its auxiliary column. -/
structure AddedConstraint (α : Type) where
  constraint : Constraint α
  name : ColumnName

/-- A cut as it is announced: its number, the row it was read from, the fractional variable behind
it and its right-hand side. -/
structure CutNote (α : Type) where
  number : Nat
  mixed : Bool
  row : Nat
  variableIndex : Nat
  value : α
  rhs : α

/-- A remark in a solution. -/
inductive Message (α : Type) where
  | optimalValue (value : α)
  -- limits and interrupts
  | iterationLimit (limit : Nat)
  | interrupted
  | interruptedAfter (iterations : Nat)
  | phaseLimit (phase : Phase) (limit : Nat)
  | phaseInterrupted (phase : Phase)
  -- no optimum
  | columnUnbounded (column : Nat)
  | directionUnbounded (column : Nat)
  /-- A column of the dual method, by its auxiliary name or its position. -/
  | growsUnbounded (column : Nat) (name : Option ColumnName)
  | rowInfeasible (row : Nat) (rhs : α)
  | artificialPositive (name : ColumnName)
  -- additions
  | added (constraint : AddedConstraint α)
  -- branch-and-bound
  | everyVariableInteger
  | relaxationUnbounded
  | relaxationWithoutOptimum
  | openNodes (count : Nat)
  | nodeTooDeep (path : BranchPath)
  | nodeAbandoned (path : BranchPath) (status : Status)
  | explored (stats : SearchStats)
  | bestInteger (value : α) (path : BranchPath)
  | searchIncomplete
  | noIntegerSolution
  -- cutting planes
  | integralAfter (cuts : Nat)
  | maximumCuts (cuts : Nat) (bound : α)
  | cutsStalled (bound : α) (window : Nat)
  | objectiveTrace (values : List α)
  -- knapsack
  | itemRanking (items : List Nat)
  | packing (number : Nat) (value weight : α) (items : List Nat)
  | noPackingYet
  | negativeCapacity
  | bestPacking (number : Nat) (value : α)
  /-- A remark of the caller. -/
  | other (text : String)

end LinOpt
