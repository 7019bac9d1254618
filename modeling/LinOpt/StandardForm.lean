import LinOpt.StandardForm.Columns

/-!
# Standard form

A problem over non-negative columns: the objective and the constraints carried over by the column
map, and behind the constraints one row `x ≤ 1` for every binary variable. The primal methods need
more, rows `a x ≤ b` with `b ≥ 0` that the slack columns can start from; `StandardForm.slackRows`
gives them or the first row that does not convert.
-/

namespace LinOpt

/-- A problem over non-negative columns, its rows those of the constraints and of the binary
variables. -/
structure StandardForm (α : Type) where
  sense : Sense
  objective : List α
  rows : List (Constraint α)
  columns : ColumnMap

variable {α : Type} [Scalar α]

/-- A constraint over columns. -/
def ColumnMap.constraintToColumns (m : ColumnMap) (c : Constraint α) :
    Except (Error α) (Constraint α) :=
  (m.toColumns c.coefficients).map fun a => { c with coefficients := a }

/-- The bounds `x ≤ 1` of the binary variables. -/
def Problem.binaryBounds (p : Problem α) : List (Constraint α) :=
  (p.vars.filter (·.restriction = .binary)).map fun v =>
    .bound p.numVariables v.index .le 1

namespace StandardForm

/-- The standard form of a problem; a constraint with too many coefficients is refused. -/
def ofProblem (p : Problem α) : Except (Error α) (StandardForm α) := do
  let columns := ColumnMap.ofProblem p
  let objective ← columns.toColumns p.objective
  let rows ← (p.constraints ++ p.binaryBounds).mapM columns.constraintToColumns
  return { sense := p.sense, objective, rows, columns }

/-- The objective to maximize. -/
def maxObjective (f : StandardForm α) : List α :=
  match f.sense with
  | .maximize => f.objective
  | .minimize => f.objective.map (- ·)

/-- Row number `i` as `a x ≤ b` with `b ≥ 0`; a `≥` row is negated. -/
def slackRow (i : Nat) (row : Constraint α) : Except (Error α) (List α × α) :=
  match row.relation with
  | .le => if row.rhs ≥ 0 then .ok (row.coefficients, row.rhs) else refuse
  | .ge => if row.rhs ≤ 0 then .ok (row.coefficients.map (- ·), -row.rhs) else refuse
  | .eq => refuse
where
  /-- The row does not convert. -/
  refuse : Except (Error α) (List α × α) := .error (.noSlackBasis i row.relation row.rhs)

/-- All rows as `a x ≤ b` with `b ≥ 0`. -/
def slackRows (f : StandardForm α) : Except (Error α) (List (List α × α)) :=
  (f.rows.mapIdx fun i row => slackRow i row).mapM id

end StandardForm
end LinOpt
