import LinOpt.Change

/-!
# Simplex tableaux

A tableau is an objective row over constraint rows. The last entry of every row is its right-hand
side and the others are the entries of the columns. Rows are numbered from the objective row, which
is row `0`; a position outside the tableau reads as zero, and `LinOpt.Tableau.Checked` offers the
same operations with such positions refused.

Nothing here asks that all rows have one length; `Tableau.ofRows` makes sure of it and every
operation keeps it (`Tableau.Rectangular`).
-/

namespace LinOpt

/-- A simplex tableau. -/
structure Tableau (α : Type) where
  objective : List α
  constraints : List (List α)
  deriving DecidableEq

namespace Tableau

variable {α : Type}

/-- All rows, the objective row first. -/
def rows (t : Tableau α) : List (List α) := t.objective :: t.constraints

/-- Number of rows. -/
def numRows (t : Tableau α) : Nat := t.constraints.length + 1

/-- Number of columns, the right-hand side included. -/
def numCols (t : Tableau α) : Nat := t.objective.length

/-- Number of constraint rows. -/
def numConstraints (t : Tableau α) : Nat := t.constraints.length

/-- Position of the right-hand side. -/
def rhsCol (t : Tableau α) : Nat := t.numCols - 1

/-- All rows are as long as the objective row, which has a right-hand side. -/
def Rectangular (t : Tableau α) : Prop :=
  0 < t.numCols ∧ ∀ r ∈ t.constraints, r.length = t.numCols

instance (t : Tableau α) : Decidable t.Rectangular := by
  unfold Rectangular
  infer_instance

/-- One row, empty outside the tableau. -/
def row (t : Tableau α) (i : Nat) : List α := t.rows.getD i []

/-- Changes every row, given its number. -/
def mapRows (f : Nat → List α → List α) (t : Tableau α) : Tableau α :=
  ⟨f 0 t.objective, t.constraints.mapIdx fun i r => f (i + 1) r⟩

/-- Changes one row. -/
def modifyRow (i : Nat) (f : List α → List α) (t : Tableau α) : Tableau α :=
  t.mapRows fun k r => if k = i then f r else r

/-- Changes one entry. -/
def set (t : Tableau α) (i j : Nat) (value : α) : Tableau α := t.modifyRow i fun r => r.set j value

variable [Scalar α]

/-- Builds a tableau from its rows, the objective row first. -/
def ofRows : List (List α) → Except (Error α) (Tableau α)
  | [] | [] :: _ => .error .emptyTableau
  | objective :: constraints =>
    match constraints.find? (·.length ≠ objective.length) with
    | some r => .error (.dimensionMismatch objective.length r.length)
    | none => .ok ⟨objective, constraints⟩

/-- The tableau of zeros. -/
def zero (constraints columns : Nat) : Tableau α :=
  let row := List.replicate (columns + 1) 0
  ⟨row, List.replicate constraints row⟩

/-- One entry. -/
def entry (t : Tableau α) (i j : Nat) : α := (t.row i).getD j 0

/-- Right-hand side of a row. -/
def rhs (t : Tableau α) (i : Nat) : α := t.entry i t.rhsCol

/-- Right-hand side of the objective row. -/
def objectiveValue (t : Tableau α) : α := t.rhs 0

/-- The constraint entries of a column, from the first constraint row on. -/
def column (t : Tableau α) (j : Nat) : List α := t.constraints.map (·.getD j 0)

/-- The right-hand sides of the constraint rows. -/
def rhsColumn (t : Tableau α) : List α := t.column t.rhsCol

/-! ## Growing -/

/-- Inserts a zero in front of the right-hand side of a row. -/
def insertEntry (at_ : Nat) (r : List α) : List α := r.take at_ ++ 0 :: r.drop at_

/-- Inserts a zero column in front of the right-hand side. -/
def insertColumn (t : Tableau α) : Tableau α := t.mapRows fun _ r => insertEntry t.rhsCol r

/-- Appends a constraint row as it is. -/
def appendRow (t : Tableau α) (r : List α) : Tableau α :=
  { t with constraints := t.constraints ++ [r] }

/-- Appends a constraint row of the right length. -/
def pushRow (t : Tableau α) (r : List α) : Except (Error α) (Tableau α) :=
  if r.length ≠ t.numCols then .error (.dimensionMismatch t.numCols r.length)
  else .ok (t.appendRow r)

/-! ## Row operations -/

/-- Subtracts a multiple of another row, entry by entry. -/
def subtractMultiple (factor : α) (source target : List α) : List α :=
  target.zipWith (fun t s => t - factor * s) source

/-- Subtracts `factor` times row `source` from row `target`; nothing happens for the factor zero and
within one row. -/
def subtractRow (t : Tableau α) (target source : Nat) (factor : α) : Tableau α :=
  if factor == 0 || target == source then t
  else t.modifyRow target (subtractMultiple factor (t.row source))

/-- Changes the sign of a row. -/
def negateRow (t : Tableau α) (i : Nat) : Tableau α := t.modifyRow i (·.map (- ·))

end Tableau
end LinOpt
