import LinOpt.Answer
import LinOpt.Config
import LinOpt.StandardForm
import LinOpt.Tableau.Pivot
import LinOpt.Tableau.Rules

/-!
# The primal simplex method

One phase, for problems whose standard form converts to rows `a x ≤ b` with `b ≥ 0`: the slack
columns are a feasible basis to start from. The loop is a recursion on the iterations left.
-/

namespace LinOpt.PrimalSimplex

variable {α : Type} [Scalar α]

/-- The tableau of the slack basis. -/
def buildTableau (f : StandardForm α) : Except (Error α) (Tableau α) :=
  f.slackRows.map fun rows =>
    { objective := f.maxObjective.map (- ·) ++ List.replicate (rows.length + 1) 0
      constraints := rows.mapIdx fun i row => row.1 ++ Scalar.unit rows.length i ++ [row.2] }

/-- A value of the maximized objective as a value of the problem's own objective. -/
def ofMaximized (sense : Sense) (value : α) : α :=
  match sense with
  | .maximize => value
  | .minimize => -value

/-- The values that a column vector, decision columns first, gives to variables and slacks. -/
def namedValues (columns : ColumnMap) (columnValues : List α) : Valuation α :=
  let n := columns.numColumns
  let decisions := columns.recover (columnValues.take n)
  let slacks := columnValues.drop n
  (({} : Valuation α).insertAll (decisions.mapIdx fun i v => (.decision i, v))).insertAll
    (slacks.mapIdx fun k v => (.auxiliary .slack (k + 1), v))

/-- The optimal solution read from a tableau. -/
def optimum (c : Config α) (f : StandardForm α) (t : Tableau α) (s : Solution α) : Solution α × α :=
  let columnValues := (List.range t.rhsCol).map (t.columnValue · c.tolerance)
  let value := ofMaximized f.sense t.objectiveValue
  (({ s with values := namedValues f.columns columnValues, tableau := some t }.settle value).log
    (.optimalValue value), value)

/-- Pivots until the tableau is optimal, a column is unbounded or a limit is met. -/
def iterate (c : Config α) (f : StandardForm α) :
    (remaining iteration : Nat) → Tableau α → Solution α → Journal α → Answer α
  | remaining, k, t, s, j =>
    let finish (j : Journal α) : Answer α :=
      let (s, value) := optimum c f t s
      ⟨.ok s, c.emit j (.primalOptimal value k)⟩
    let stop (status : Status) (reason : Message α) (j : Journal α) : Answer α :=
      ⟨.ok { s.terminate status reason with tableau := some t }, j⟩
    if t.IsOptimal c.tolerance then finish j
    else match remaining with
      | 0 => stop .limitReached (.iterationLimit k) (c.emit j (.primalStopped k))
      | remaining + 1 =>
        let (interrupted, j) := c.ask j
        if interrupted then stop .limitReached .interrupted j
        else match t.entering c.tolerance with
          | none => finish j
          | some col =>
            match t.leaving col c.tolerance with
            | none =>
              stop .unbounded (.columnUnbounded col) (c.emit j (.primalUnbounded k))
            | some row =>
              match t.pivot row col c.tolerance with
              | .error e => ⟨.error e, j⟩
              | .ok t =>
                iterate c f remaining (k + 1) t
                  (c.record (.iteration (k + 1) row col) (.tableau t) s)
                  (c.emit j (.primalPivot (k + 1) row col))

/-- Solves a problem with the primal simplex method. -/
def solve (c : Config α) (p : Problem α) (j : Journal α) : Answer α :=
  let start := do
    let f ← StandardForm.ofProblem p
    return (f, ← buildTableau f)
  match start with
  | .error e => ⟨.error e, j⟩
  | .ok (f, t) =>
    let s : Solution α :=
      { counts := { decision := f.columns.numColumns, slack := t.numConstraints } }
    iterate c f c.maxPhase2Iterations 0 t (c.record .initial (.tableau t) s) j

end LinOpt.PrimalSimplex
