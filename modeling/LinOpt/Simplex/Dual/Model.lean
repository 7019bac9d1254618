import LinOpt.Config
import LinOpt.StandardForm
import LinOpt.Tableau.Pivot
import LinOpt.Tableau.Rules

/-!
# The model behind the dual simplex method

A model is a problem with the tableau that stands for it. Every standard row has one auxiliary
column: a `≥` row is negated first, an `=` row when its right-hand side is negative, so that the
column enters with `1`. The column of an `=` row is artificial; it must end at zero, which a penalty
in the objective row pushes it to and a bar against entering keeps it at.

A model keeps a counter for every kind of auxiliary column. The counter is raised when a column of
its kind comes, and the column is named by it.

`Model.build` makes the model of a problem and `Model.extend` adds a constraint to a model that may
have been pivoted since: the new row is cleared under the columns that are basic at that time, so
that the basis is kept.
-/

namespace LinOpt

/-- An auxiliary column: its kind, its number among those of its kind, and whether its row was
negated. -/
structure AuxColumn where
  kind : AuxKind
  number : Nat
  negated : Bool
  deriving DecidableEq

/-- The name of the column's value. -/
def AuxColumn.name (a : AuxColumn) : ColumnName := .auxiliary a.kind a.number

/-- The kind of auxiliary column that a relation calls for. -/
def Relation.auxKind : Relation → AuxKind
  | .le => .slack
  | .ge => .excess
  | .eq => .artificial

/-- A problem and its tableau: decision columns first, then one auxiliary column per row. The counts
are those of the columns that have come so far. -/
structure Model (α : Type) where
  problem : Problem α
  columns : ColumnMap
  tableau : Tableau α
  aux : List AuxColumn
  counts : Counts

variable {α : Type} [Scalar α]

/-- Whether a row is negated before it gets its auxiliary column. -/
def Constraint.isNegated (c : Constraint α) : Bool :=
  match c.relation with
  | .le => false
  | .ge => true
  | .eq => decide (c.rhs < 0)

/-- The sign a row is multiplied by. -/
def Constraint.rowSign (c : Constraint α) : α := if c.isNegated then -1 else 1

/-- The auxiliary column of a row, at the counters before it: the counter of its kind is raised and
is its number. -/
def AuxColumn.ofRow (counts : Counts) (row : Constraint α) : AuxColumn :=
  let kind := row.relation.auxKind
  ⟨kind, (counts.add kind).ofKind kind, row.isNegated⟩

/-- Adds the auxiliary column of a row to a list and raises the counter of its kind. -/
def AuxColumn.pushRow (s : List AuxColumn × Counts) (row : Constraint α) :
    List AuxColumn × Counts :=
  (s.1 ++ [.ofRow s.2 row], s.2.add row.relation.auxKind)

/-- Puts the penalty on the artificial column `col` of row `row` and clears it again in the
objective row. -/
def Tableau.penalize (t : Tableau α) (row col : Nat) (bigM : α) : Tableau α :=
  (t.set 0 col bigM).subtractRow 0 row bigM

namespace Model

/-- Number of decision columns. -/
def numDecisions (m : Model α) : Nat := m.columns.numColumns

/-- The auxiliary column at a position of the tableau. -/
def auxAt? (m : Model α) (col : Nat) : Option AuxColumn :=
  if col < m.numDecisions then none else m.aux[col - m.numDecisions]?

/-- Whether a column is artificial. -/
def isArtificial (m : Model α) (col : Nat) : Bool := (m.auxAt? col).any (·.kind = .artificial)

/-! ## Building -/

/-- A standard row as a tableau row: its auxiliary column is number `i` of `m`. -/
def tableauRow (m i : Nat) (row : Constraint α) : List α :=
  row.coefficients.map (row.rowSign * ·) ++ Scalar.unit m i ++ [row.rowSign * row.rhs]

/-- The tableau of a standard form before penalties. -/
def plainTableau (f : StandardForm α) : Tableau α :=
  { objective := f.maxObjective.map (- ·) ++ List.replicate (f.rows.length + 1) 0
    constraints := f.rows.mapIdx (tableauRow f.rows.length) }

/-- The model of a problem, at the basis of the auxiliary columns. -/
def build (bigM : α) (p : Problem α) : Except (Error α) (Model α) :=
  (StandardForm.ofProblem p).map fun f =>
    let (aux, counts) := f.rows.foldl AuxColumn.pushRow ([], { decision := f.columns.numColumns })
    let penalize (t : Tableau α) (i : Nat) (a : AuxColumn) : Tableau α :=
      if a.kind = .artificial then t.penalize (i + 1) (f.columns.numColumns + i) bigM else t
    { problem := p
      columns := f.columns
      tableau := aux.zipIdx.foldl (fun t (a, i) => penalize t i a) (plainTableau f)
      aux, counts }

/-! ## Growing -/

/-- Clears row `row` under decision columns that are basic in the rows listed, column by column. -/
def clearBasics (tolerance : α) (row : Nat) (basics : List (Option Nat)) (t : Tableau α) :
    Tableau α :=
  basics.zipIdx.foldl (fun t (basic, col) =>
    match basic with
    | none => t
    | some b =>
      let factor := t.entry row col
      if Scalar.abs factor > tolerance then t.subtractRow row b factor else t) t

/-- The tableau with the row of one more constraint, given by its coefficients over columns. -/
def extendTableau (m : Model α) (c : Config α) (k : Constraint α) : Tableau α :=
  let t := m.tableau
  let basics := (List.range m.numDecisions).map (t.basicRow · c.tolerance)
  let row := t.numRows
  let col := t.rhsCol
  let entries := k.coefficients.map (k.rowSign * ·) ++ List.replicate m.aux.length 0
    ++ [1, k.rowSign * k.rhs]
  let t := clearBasics c.tolerance row basics (t.insertColumn.appendRow entries)
  let t := if t.entry row col < 0 then t.negateRow row else t
  if k.relation = .eq then t.penalize row col c.bigM else t

/-- Adds a constraint over the problem's variables. -/
def extend (m : Model α) (c : Config α) (k : Constraint α) : Except (Error α) (Model α) := do
  let row ← m.columns.constraintToColumns k
  let problem ← m.problem.addConstraint k
  return { m with
    problem
    tableau := m.extendTableau c row
    aux := m.aux ++ [.ofRow m.counts k]
    counts := m.counts.add k.relation.auxKind }

/-- Adds the row `coefficients · columns + s = rhs` with a slack column `s` of its own. It belongs
to no constraint of the problem. -/
def appendRow (m : Model α) (coefficients : List α) (rhs : α) : Model α :=
  { m with
    tableau := m.tableau.insertColumn.appendRow (coefficients ++ [1, rhs])
    aux := m.aux ++ [.ofRow m.counts ⟨coefficients, .le, rhs⟩]
    counts := m.counts.add .slack }

/-! ## Reading -/

/-- Value of a column. A column of a `≥` row may also show as `-1` alone in its column. -/
def columnValue (m : Model α) (tolerance : α) (col : Nat) : α :=
  match m.tableau.basicRow col tolerance with
  | some i => m.tableau.rhs i
  | none =>
    if (m.auxAt? col).any (·.kind = .excess) then
      match m.tableau.unitRow col (-1) tolerance with
      | some i => -m.tableau.rhs i
      | none => 0
    else 0

/-- Values of the auxiliary columns with their descriptions. -/
def auxValues (m : Model α) (tolerance : α) : List (AuxColumn × α) :=
  m.aux.mapIdx fun k a => (a, m.columnValue tolerance (m.numDecisions + k))

/-- Values of the variables. -/
def variableValues (m : Model α) (tolerance : α) : List α :=
  m.columns.recover ((List.range m.numDecisions).map (m.columnValue tolerance))

/-- The first artificial column whose value is above the tolerance. -/
def positiveArtificial? (m : Model α) (tolerance : α) : Option ColumnName :=
  ((m.auxValues tolerance).find? fun (a, v) => a.kind = .artificial && decide (v > tolerance)).map
    (·.1.name)

end Model
end LinOpt
