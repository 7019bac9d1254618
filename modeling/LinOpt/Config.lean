import LinOpt.Journal
import LinOpt.Solution.Basic

/-!
# Configuration

Tolerances, penalties and limits, shared by all solvers.
-/

namespace LinOpt

/-- Settings of a solver. -/
structure Config (α : Type) where
  /-- For pivot sizes, optimality and feasibility. -/
  tolerance : α
  /-- Distance from an integer up to which a value counts as integral. -/
  integralityTolerance : α
  /-- Penalty on artificial columns. -/
  bigM : α
  maxPhase1Iterations : Nat := 100
  maxPhase2Iterations : Nat := 1000
  maxBranchDepth : Nat := 25
  maxCuts : Nat := 50
  /-- Whether solvers leave an audit trail. -/
  recordSteps : Bool := true
  interrupt : Interrupt α := {}

namespace Config

variable {α : Type}

/-- The settings used where nothing else is asked for. -/
def standard [Scalar α] : Config α where
  tolerance := Scalar.ofDecimal ⟨1, -9⟩
  integralityTolerance := Scalar.ofDecimal ⟨1, -6⟩
  bigM := Scalar.ofDecimal (.ofNat 1000)

/-- Adds a step to a solution if steps are recorded. -/
def record (c : Config α) (label : StepLabel α) (content : StepContent α) (s : Solution α) :
    Solution α :=
  if c.recordSteps then s.record ⟨label, content⟩ else s

/-- Limit on the iterations of a phase of the dual method. -/
def phaseLimit (c : Config α) : Phase → Nat
  | .feasibility => c.maxPhase1Iterations
  | .optimality => c.maxPhase2Iterations

/-- Reports an event. -/
def emit (c : Config α) (j : Journal α) (e : Event α) : Journal α := j.emit c.interrupt e

/-- Asks whether to stop. -/
def ask (c : Config α) (j : Journal α) : Bool × Journal α := j.ask c.interrupt

end Config
end LinOpt
