import LinOpt.Tableau.Basic
import LinOpt.Selection

/-!
# Reading a tableau

The tests and choices of the simplex method: whether the tableau is optimal and feasible, which
column enters and which row leaves, and in which row a column is basic. Basic columns are recognised
by their entries, not kept in a list, so several columns may look basic in one row.
-/

namespace LinOpt.Tableau

variable {α : Type} [Scalar α]

/-- The objective row without its right-hand side. -/
def reducedCosts (t : Tableau α) : List α := t.objective.take t.rhsCol

/-- No entry of the objective row is below zero by more than the tolerance. -/
def IsOptimal (t : Tableau α) (tolerance : α) : Prop := ∀ v ∈ t.reducedCosts, v ≥ -tolerance

/-- No right-hand side is below zero by more than the tolerance. -/
def IsFeasible (t : Tableau α) (tolerance : α) : Prop := ∀ b ∈ t.rhsColumn, b ≥ -tolerance

instance (t : Tableau α) (tolerance : α) : Decidable (t.IsOptimal tolerance) := by
  unfold IsOptimal
  infer_instance

instance (t : Tableau α) (tolerance : α) : Decidable (t.IsFeasible tolerance) := by
  unfold IsFeasible
  infer_instance

/-- Position and value of the least entry below the negative tolerance, the first of several. -/
def mostNegative (tolerance : α) (entries : List (Option α)) : Option (Nat × α) :=
  Selection.firstBest (fun v => decide (v < -tolerance)) (fun v w => decide (v < w)) entries

/-- Position and value of the least ratio, the first of several. -/
def leastRatio (ratios : List (Option α)) : Option (Nat × α) :=
  Selection.firstBest Scalar.belowInfinity (fun v w => decide (v < w)) ratios

/-- The eligible column with the most negative entry in the objective row. -/
def enteringWhere (t : Tableau α) (tolerance : α) (eligible : Nat → Bool) : Option Nat :=
  (mostNegative tolerance
    (t.reducedCosts.mapIdx fun j v => if eligible j then some v else none)).map (·.1)

/-- The column with the most negative entry in the objective row. -/
def entering (t : Tableau α) (tolerance : α) : Option Nat := t.enteringWhere tolerance fun _ => true

/-- The row whose right-hand side is used up first when column `j` grows, among the rows with an
entry above the tolerance. -/
def leaving (t : Tableau α) (j : Nat) (tolerance : α) : Option Nat :=
  (leastRatio (t.constraints.map fun r =>
    let v := r.getD j 0
    if v > tolerance then some (r.getD t.rhsCol 0 / v) else none)).map (·.1 + 1)

/-- The position of the only `target` in a column that is zero elsewhere, given the position found
so far. -/
def unitPosition (target tolerance : α) : Nat → Option Nat → List α → Option Nat
  | _, found, [] => found
  | i, found, v :: rest =>
    if Scalar.abs (v - target) ≤ tolerance then
      if found.isSome then none else unitPosition target tolerance (i + 1) (some i) rest
    else if Scalar.abs v > tolerance then none
    else unitPosition target tolerance (i + 1) found rest

/-- The row in which column `j` holds `target`, if all its other entries are zero. -/
def unitRow (t : Tableau α) (j : Nat) (target tolerance : α) : Option Nat :=
  if Scalar.abs (t.entry 0 j) > tolerance then none
  else unitPosition target tolerance 1 none (t.column j)

/-- The row in which column `j` is basic. -/
def basicRow (t : Tableau α) (j : Nat) (tolerance : α) : Option Nat := t.unitRow j 1 tolerance

/-- Value of column `j` in the current basic solution. -/
def columnValue (t : Tableau α) (j : Nat) (tolerance : α) : α :=
  match t.basicRow j tolerance with
  | some i => t.rhs i
  | none => 0

end LinOpt.Tableau
