import LinOpt.Solution.Step

/-!
# Solutions

The answer of every solver. A solution that is not optimal has no optimal value
(`Solution.terminate` takes it away); values, trail and messages are kept as they have grown.
-/

namespace LinOpt

/-- Number of tableau columns of each kind; decision columns come first and auxiliary columns follow
in order of their rows. -/
structure Counts where
  decision : Nat := 0
  slack : Nat := 0
  excess : Nat := 0
  artificial : Nat := 0
  deriving DecidableEq

namespace Counts

/-- Number of auxiliary columns. -/
def auxiliary (c : Counts) : Nat := c.slack + c.excess + c.artificial

/-- Number of all columns. -/
def total (c : Counts) : Nat := c.decision + c.auxiliary

/-- Number of auxiliary columns of a kind. -/
def ofKind (c : Counts) : AuxKind → Nat
  | .slack => c.slack
  | .excess => c.excess
  | .artificial => c.artificial

/-- Counts one more auxiliary column. -/
def add (c : Counts) : AuxKind → Counts
  | .slack => { c with slack := c.slack + 1 }
  | .excess => { c with excess := c.excess + 1 }
  | .artificial => { c with artificial := c.artificial + 1 }

end Counts

/-- How the optimal value changes with the right-hand side of a constraint. -/
structure ShadowPrice (α : Type) where
  name : ColumnName
  value : α

/-- How the optimal value changes with a variable that is not basic. -/
structure ReducedCost (α : Type) where
  variableIndex : Nat
  value : α
  reducedCost : α
  isBasic : Bool

/-- Sensitivity of an optimum. A constraint is binding when its auxiliary value is zero. -/
structure Analysis (α : Type) where
  shadowPrices : List (ShadowPrice α)
  reducedCosts : List (ReducedCost α)
  binding : List ColumnName

/-- The answer of a solver. -/
structure Solution (α : Type) where
  status : Status := .notSolved
  optimalValue : Option α := none
  values : Valuation α := {}
  steps : List (Step α) := []
  messages : List (Message α) := []
  tableau : Option (Tableau α) := none
  counts : Counts := {}
  analysis : Option (Analysis α) := none

namespace Solution

variable {α : Type}

/-- Whether an optimum was found. -/
def isOptimal (s : Solution α) : Bool := s.status = .optimal

/-- The value of a name. -/
def value? (s : Solution α) (name : ColumnName) : Option α := s.values.get? name

/-- Values of the first `n` decision variables; a missing one reads as zero. -/
def decisionValues [Scalar α] (s : Solution α) (n : Nat) : List α :=
  (List.range n).map fun i => (s.value? (.decision i)).getD 0

/-- Adds a message. -/
def log (s : Solution α) (m : Message α) : Solution α := { s with messages := s.messages ++ [m] }

/-- Adds messages. -/
def logAll (s : Solution α) (ms : List (Message α)) : Solution α :=
  { s with messages := s.messages ++ ms }

/-- Adds a step. -/
def record (s : Solution α) (step : Step α) : Solution α := { s with steps := s.steps ++ [step] }

/-- Adds a described step. -/
def recordText (s : Solution α) (label : StepLabel α) (text : StepText α) : Solution α :=
  s.record ⟨label, .text text⟩

/-- Adds a tableau. -/
def recordTableau (s : Solution α) (label : StepLabel α) (t : Tableau α) : Solution α :=
  s.record ⟨label, .tableau t⟩

/-- Ends the solve with a status and a reason, without an optimal value. -/
def terminate (s : Solution α) (status : Status) (reason : Message α) : Solution α :=
  { s with status, optimalValue := none }.log reason

/-- Ends the solve with an optimum. -/
def settle (s : Solution α) (value : α) : Solution α :=
  { s with status := .optimal, optimalValue := some value }

end Solution
end LinOpt
