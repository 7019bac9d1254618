import LinOpt.Solution.Message
import LinOpt.Tableau.Basic

/-!
# The audit trail

A solver that records steps leaves a labelled trail of tableaux and short descriptions, in the order
in which they came about.
-/

namespace LinOpt

/-- What a recorded step is called. -/
inductive StepLabel (α : Type) where
  | initial
  /-- A pivot of the primal method. -/
  | iteration (number row column : Nat)
  /-- A basis exchange of the revised method. -/
  | exchange (number : Nat)
  /-- A pivot of the dual method, numbered within its phase. -/
  | pivot (phase : Phase) (number row column : Nat)
  | added (constraint : AddedConstraint α)
  | cut (note : CutNote α)
  /-- A node of a search. -/
  | node (path : BranchPath)
  | other (text : String)

/-- A recorded description. -/
inductive StepText (α : Type) where
  | exchange (entering leaving : Nat) (reducedCost : α) (basis : List Nat) (values : List α)
  -- branch-and-bound nodes
  | infeasible
  | cannotBeat (value incumbent : α)
  | integral (value : α) (isIncumbent : Bool)
  | branching (value : α) (variableIndex : Nat) (variableValue : α)
  -- knapsack nodes
  | overfull
  | boundTooLow (bound : α)
  | packing (number : Nat) (value : α)
  | branchingItem (bound : α) (variableIndex : Nat)
  | other (text : String)

/-- What a recorded step holds. -/
inductive StepContent (α : Type) where
  | tableau (tableau : Tableau α)
  | text (text : StepText α)

/-- A recorded step. -/
structure Step (α : Type) where
  label : StepLabel α
  content : StepContent α

end LinOpt
