import LinOpt.Tableau.Pivot
import LinOpt.Tableau.Rules

/-!
# Checked positions

Outside a tableau an entry reads as zero and a change does nothing, which is what the solvers want
of positions that they compute themselves. For positions that come from elsewhere this module offers
the same operations with a position outside the tableau refused (`Error.outOfRange`). An operation
refuses exactly the positions that it would read: a row operation that does nothing reads none, and
the ratio test reads its column only where there are constraint rows.
-/

namespace LinOpt.Tableau

variable {α : Type} [Scalar α]

/-- Goes on if a position condition holds. -/
def guardRange {β : Type} (inRange : Bool) (result : β) : Except (Error α) β :=
  if inRange then .ok result else .error .outOfRange

/-- Whether there is such a row. -/
def hasRow (t : Tableau α) (i : Nat) : Bool := i < t.numRows

/-- Whether there is such a column, the right-hand side included. -/
def hasColumn (t : Tableau α) (j : Nat) : Bool := j < t.numCols

/-- One entry. -/
def entryChecked (t : Tableau α) (i j : Nat) : Except (Error α) α :=
  guardRange (t.hasRow i && t.hasColumn j) (t.entry i j)

/-- Changes one entry. -/
def setChecked (t : Tableau α) (i j : Nat) (value : α) : Except (Error α) (Tableau α) :=
  guardRange (t.hasRow i && t.hasColumn j) (t.set i j value)

/-- Subtracts a multiple of a row from another. -/
def subtractRowChecked (t : Tableau α) (target source : Nat) (factor : α) :
    Except (Error α) (Tableau α) :=
  if factor == 0 || target == source then .ok t
  else guardRange (t.hasRow target && t.hasRow source) (t.subtractRow target source factor)

/-- Changes the sign of a row. -/
def negateRowChecked (t : Tableau α) (i : Nat) : Except (Error α) (Tableau α) :=
  guardRange (t.hasRow i) (t.negateRow i)

/-- Pivots on a position. -/
def pivotChecked (t : Tableau α) (i j : Nat) (tolerance : α) : Except (Error α) (Tableau α) :=
  if t.hasRow i && t.hasColumn j then t.pivot i j tolerance else .error .outOfRange

/-- The leaving row for a column. -/
def leavingChecked (t : Tableau α) (j : Nat) (tolerance : α) : Except (Error α) (Option Nat) :=
  guardRange (t.constraints.isEmpty || t.hasColumn j) (t.leaving j tolerance)

/-- The row in which a column holds `target` and is zero elsewhere. -/
def unitRowChecked (t : Tableau α) (j : Nat) (target tolerance : α) :
    Except (Error α) (Option Nat) :=
  guardRange (t.hasColumn j) (t.unitRow j target tolerance)

end LinOpt.Tableau
