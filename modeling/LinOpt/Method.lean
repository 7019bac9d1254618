import LinOpt.Integer.BranchAndBound
import LinOpt.Integer.CuttingPlane
import LinOpt.Integer.Knapsack
import LinOpt.Simplex.Revised

/-!
# Methods

The six ways to solve a problem, behind one call. A solver (`Solver`) can be used again: it keeps
what its last call left, which the next call drops before anything else (`Solver.clear`).
-/

namespace LinOpt

/-- A way to solve a problem. -/
inductive Method where
  /-- The primal simplex method on a tableau. -/
  | primal
  /-- The primal simplex method on a basis inverse. -/
  | revised
  /-- The dual simplex method, for all relations. -/
  | dual
  /-- Branch-and-bound over the dual method. -/
  | branchAndBound
  /-- Cutting planes over the dual method. -/
  | cuttingPlane
  /-- The knapsack search; `prune` skips nodes that cannot beat the best packing. -/
  | knapsack (prune : Bool)
  deriving DecidableEq

/-- The method a name stands for; pruning concerns the knapsack search only. -/
def Method.ofName? (name : String) (prune : Bool) : Option Method :=
  match name with
  | "primal" => some .primal
  | "revised" => some .revised
  | "dual" => some .dual
  | "branch-and-bound" => some .branchAndBound
  | "cutting-plane" => some .cuttingPlane
  | "knapsack" => some (.knapsack prune)
  | _ => none

/-- A solver: its configuration and what its last call left. -/
inductive Solver (α : Type) where
  | primal (config : Config α)
  | revised (config : Config α)
  | dual (solver : DualSimplex α)
  | branchAndBound (config : Config α) (stats : SearchStats)
  | cuttingPlane (config : Config α) (trace : CuttingPlane.Trace α)
  | knapsack (config : Config α) (prune : Bool) (candidates : List (Knapsack.Candidate α))

variable {α : Type}

/-- A solver that has not solved anything yet. -/
def Method.solver (m : Method) (c : Config α) : Solver α :=
  match m with
  | .primal => .primal c
  | .revised => .revised c
  | .dual => .dual { config := c }
  | .branchAndBound => .branchAndBound c {}
  | .cuttingPlane => .cuttingPlane c {}
  | .knapsack prune => .knapsack c prune []

namespace Solver

/-- Drops what the last call left. The session of the dual solver stays: a problem that is refused
leaves it its model. -/
def clear : Solver α → Solver α
  | .primal c => .primal c
  | .revised c => .revised c
  | .dual d => .dual d
  | .branchAndBound c _ => .branchAndBound c {}
  | .cuttingPlane c _ => .cuttingPlane c {}
  | .knapsack c prune _ => .knapsack c prune []

variable [Scalar α]

/-- Solves a problem on top of what the solver holds. -/
def solveFrom (s : Solver α) (p : Problem α) (j : Journal α) : Call (Solver α) α :=
  match s with
  | .primal c => ⟨PrimalSimplex.solve c p j, .primal c⟩
  | .revised c => ⟨RevisedSimplex.solve c p j, .revised c⟩
  | .dual d =>
    let call := d.solve p j
    ⟨call.toAnswer, .dual call.state⟩
  | .branchAndBound c stats =>
    let call := BranchAndBound.solveFrom c p j stats
    ⟨call.toAnswer, .branchAndBound c call.state⟩
  | .cuttingPlane c trace =>
    let call := CuttingPlane.solveFrom c p j trace
    ⟨call.toAnswer, .cuttingPlane c call.state⟩
  | .knapsack c prune candidates =>
    let call := Knapsack.solveFrom c prune p j candidates
    ⟨call.toAnswer, .knapsack c prune call.state⟩

/-- Solves a problem; what the last call left is dropped first. -/
def solve (s : Solver α) (p : Problem α) (j : Journal α) : Call (Solver α) α :=
  s.clear.solveFrom p j

end Solver

/-- Solves a problem with a new solver. -/
def Method.solve [Scalar α] (m : Method) (c : Config α) (p : Problem α) (j : Journal α) :
    Answer α :=
  ((m.solver c).solve p j).toAnswer

end LinOpt
