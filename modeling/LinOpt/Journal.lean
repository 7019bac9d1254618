import LinOpt.Solution.Message

/-!
# The journal of a run

Solvers report what they do while they do it, and they ask now and then whether to stop. Both go
through a journal that is handed from call to call. It keeps the events in the order in which they
came and counts the questions, so a stop signal is a function of the journal and nothing outside it:
an `Interrupt` may watch for events, as an observer of the log would, or answer by the number of
questions, as a clock would.
-/

namespace LinOpt

/-- Weight of an event. -/
inductive Level where
  | debug
  | info
  | warn
  deriving DecidableEq

/-- What a solver reports while it runs. -/
inductive Event (α : Type) where
  -- primal method
  | primalPivot (iteration row column : Nat)
  | primalStopped (iterations : Nat)
  | primalUnbounded (iterations : Nat)
  | primalOptimal (value : α) (iterations : Nat)
  -- revised method
  | revisedExchange (iteration column row : Nat)
  | revisedUnbounded (iterations : Nat)
  | revisedOptimal (value : α) (iterations : Nat)
  -- dual method
  | dualBuilt (decisionColumns constraintRows : Nat)
  | dualPivot (phase : Phase) (iteration row column : Nat)
  | dualStopped (phase : Phase) (iterations : Nat)
  | dualFinished (status : Status) (pivots : Nat) (objective : Option α)
  | constraintAdded (constraint : AddedConstraint α)
  | rowAppended (name : ColumnName) (column : Nat)
  -- branch-and-bound
  | searchInterrupted (openNodes : Nat)
  | nodeTooDeep (path : BranchPath)
  | incumbentFound (value : α) (path : BranchPath)
  | branched (variableIndex : Nat) (value : α) (path : BranchPath) (down up : Status)
  | searchFinished (stats : SearchStats)
  -- cutting planes
  | cutMade (note : CutNote α)
  | cutsIntegral (value : α) (cuts : Nat)
  | cutsStopped (cuts : Nat) (bound : α)
  | cutsStalled (bound : α) (cuts : Nat)
  | relaxationLost (status : Status) (cuts : Nat)
  -- knapsack
  | packingInterrupted (openNodes : Nat)
  | packingOverfull (path : BranchPath)
  | packingPruned (path : BranchPath) (bound : α)
  | packingFound (number : Nat) (value : α)
  | packingTooDeep (path : BranchPath)
  | packingFinished (value : α) (candidates : Nat)

/-- The weight of an event. -/
def Event.level {α : Type} : Event α → Level
  | .primalPivot .. | .revisedExchange .. | .dualBuilt .. | .dualPivot .. | .constraintAdded .. |
    .rowAppended .. | .branched .. | .cutMade .. | .packingOverfull .. | .packingPruned .. |
    .packingFound .. => .debug
  | .primalUnbounded .. | .primalOptimal .. | .revisedUnbounded .. | .revisedOptimal .. |
    .dualFinished .. | .incumbentFound .. | .searchFinished .. | .cutsIntegral .. |
    .packingFinished .. => .info
  | .primalStopped .. | .dualStopped .. | .searchInterrupted .. | .nodeTooDeep .. |
    .cutsStopped .. | .cutsStalled .. | .relaxationLost .. | .packingInterrupted .. |
    .packingTooDeep .. => .warn

/-- A stop signal: the events it watches for, and its answer to a question, given how many questions
came before and how many watched events. -/
structure Interrupt (α : Type) where
  watches : Event α → Bool := fun _ => false
  answer : (questions seen : Nat) → Bool := fun _ _ => false

/-- The signal that never stops a run. -/
def Interrupt.never {α : Type} : Interrupt α := {}

/-- The signal that stops a run at the first question. -/
def Interrupt.raised {α : Type} : Interrupt α := { answer := fun _ _ => true }

/-- What happened so far: the events, the latest first, the number of questions asked and the number
of events that the interrupt watched for. -/
structure Journal (α : Type) where
  latestFirst : List (Event α) := []
  questions : Nat := 0
  seen : Nat := 0

namespace Journal

variable {α : Type}

/-- The events in the order in which they came. -/
def events (j : Journal α) : List (Event α) := j.latestFirst.reverse

/-- Reports an event. -/
def emit (j : Journal α) (i : Interrupt α) (e : Event α) : Journal α :=
  { j with
    latestFirst := e :: j.latestFirst
    seen := if i.watches e then j.seen + 1 else j.seen }

/-- Asks whether to stop. -/
def ask (j : Journal α) (i : Interrupt α) : Bool × Journal α :=
  (i.answer j.questions j.seen, { j with questions := j.questions + 1 })

end Journal
end LinOpt
