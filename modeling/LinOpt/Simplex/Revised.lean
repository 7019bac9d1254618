import LinOpt.Simplex.Inverse
import LinOpt.Simplex.Primal

/-!
# The revised simplex method

The same problems as `LinOpt.PrimalSimplex`, without a tableau: the method keeps a list of basic
columns and the inverse of their matrix, computed anew after every exchange. The column that enters
is the one with the greatest reduced cost `c_j - y A_j`.
-/

namespace LinOpt

/-- A basis of the system `[A | I] x = b`, with the objective `c` to maximize. -/
structure Basis (α : Type) where
  matrix : List (List α)
  rhs : List α
  objective : List α
  /-- The basic column of each row. -/
  columns : List Nat
  /-- The inverse of the basic columns. -/
  inverse : List (List α)
  /-- The values of the basic columns. -/
  values : List α

namespace Basis

variable {α : Type} [Scalar α]

/-- The basis of the slack columns. -/
def ofStandardForm (f : StandardForm α) : Except (Error α) (Basis α) :=
  f.slackRows.map fun rows =>
    let n := f.columns.numColumns
    let m := rows.length
    { matrix := rows.mapIdx fun i row => row.1 ++ Scalar.unit m i
      rhs := rows.map (·.2)
      objective := f.maxObjective ++ List.replicate m 0
      columns := List.range' n m
      inverse := Matrix.identity m
      values := rows.map (·.2) }

/-- Objective coefficient of a column. -/
def cost (b : Basis α) (col : Nat) : α := b.objective.getD col 0

/-- One column of the matrix. -/
def matrixColumn (b : Basis α) (col : Nat) : List α := b.matrix.map (·.getD col 0)

/-- The multipliers of the rows, `c_B B⁻¹`. -/
def multipliers (b : Basis α) : List α :=
  (List.range b.rhs.length).map fun k =>
    Scalar.dot (b.columns.map b.cost) (b.inverse.map (·.getD k 0))

/-- Change of the objective with a column, given the multipliers. -/
def reducedCost (b : Basis α) (y : List α) (col : Nat) : α :=
  b.cost col - Scalar.dot y (b.matrixColumn col)

/-- Change of the basic values with a column, `B⁻¹ A_col`. -/
def direction (b : Basis α) (col : Nat) : List α :=
  b.inverse.map fun row => Scalar.dot row (b.matrixColumn col)

/-- The column with the greatest reduced cost above the tolerance, and that cost. -/
def entering (b : Basis α) (tolerance : α) : Option (Nat × α) :=
  let y := b.multipliers
  Selection.firstBest (fun v => decide (v > tolerance)) (fun v w => decide (v > w))
    ((List.range b.objective.length).map fun col =>
      if b.columns.contains col then none else some (b.reducedCost y col))

/-- The row whose basic value is used up first along a direction. -/
def leaving (b : Basis α) (direction : List α) (tolerance : α) : Option Nat :=
  (Tableau.leastRatio (direction.zipWith
    (fun d x => if d > tolerance then some (x / d) else none) b.values)).map (·.1)

/-- Makes a column basic in a row and computes inverse and values anew. -/
def exchange (b : Basis α) (row col : Nat) (tolerance : α) : Except (Error α) (Basis α) :=
  let columns := b.columns.set row col
  let basic := b.matrix.map fun r => columns.map (r.getD · 0)
  (Matrix.invert basic tolerance).map fun inverse =>
    { b with columns, inverse, values := inverse.map fun r => Scalar.dot r b.rhs }

/-- Value of the objective. -/
def objectiveValue (b : Basis α) : α := Scalar.dot (b.columns.map b.cost) b.values

/-- Values of all columns; columns outside the basis are zero. -/
def columnValues (b : Basis α) : List α :=
  (b.columns.zip b.values).foldl (fun vs e => vs.set e.1 e.2)
    (List.replicate b.objective.length 0)

end Basis

namespace RevisedSimplex

variable {α : Type} [Scalar α]

/-- Exchanges columns until no reduced cost is positive, a direction is unbounded or a limit is
met. -/
def iterate (c : Config α) (f : StandardForm α) :
    (remaining iteration : Nat) → Basis α → Solution α → Journal α → Answer α
  | 0, k, _, s, j => ⟨.ok (s.terminate .limitReached (.iterationLimit k)), j⟩
  | remaining + 1, k, b, s, j =>
    let (interrupted, j) := c.ask j
    if interrupted then ⟨.ok (s.terminate .limitReached (.interruptedAfter k)), j⟩
    else match b.entering c.tolerance with
      | none =>
        let value := PrimalSimplex.ofMaximized f.sense b.objectiveValue
        let values := PrimalSimplex.namedValues f.columns b.columnValues
        ⟨.ok (({ s with values }.settle value).log (.optimalValue value)),
          c.emit j (.revisedOptimal value k)⟩
      | some (col, cost) =>
        match b.leaving (b.direction col) c.tolerance with
        | none =>
          ⟨.ok (s.terminate .unbounded (.directionUnbounded col)), c.emit j (.revisedUnbounded k)⟩
        | some row =>
          match b.exchange row col c.tolerance with
          | .error e => ⟨.error e, j⟩
          | .ok b =>
            iterate c f remaining (k + 1) b
              (c.record (.exchange (k + 1)) (.text (.exchange col row cost b.columns b.values)) s)
              (c.emit j (.revisedExchange (k + 1) col row))

/-- Solves a problem with the revised simplex method. -/
def solve (c : Config α) (p : Problem α) (j : Journal α) : Answer α :=
  let start := do
    let f ← StandardForm.ofProblem p
    return (f, ← Basis.ofStandardForm f)
  match start with
  | .error e => ⟨.error e, j⟩
  | .ok (f, b) =>
    let counts := { decision := f.columns.numColumns, slack := b.rhs.length }
    iterate c f c.maxPhase2Iterations 0 b { counts } j

end RevisedSimplex
end LinOpt
