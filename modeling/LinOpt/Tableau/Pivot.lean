import LinOpt.Tableau.Basic

/-!
# Pivoting

`Tableau.pivot` divides a row by its entry in a column and clears the column in all other rows. The
cleared entries are set to zero rather than left to the subtraction, which need not cancel exactly,
and a row that has zero there is not touched at all.
-/

namespace LinOpt.Tableau

variable {α : Type} [Scalar α]

/-- Clears column `j` of a row by means of a row that has `1` there. -/
def clear (pivotRow : List α) (j : Nat) (r : List α) : List α :=
  let factor := r.getD j 0
  if factor == 0 then r else (subtractMultiple factor pivotRow r).set j 0

/-- Divides row `i` by its entry in column `j` and clears the column elsewhere. -/
def eliminate (t : Tableau α) (i j : Nat) : Tableau α :=
  let p := t.entry i j
  let pivotRow := (t.row i).map (· / p)
  t.mapRows fun k r => if k = i then pivotRow else clear pivotRow j r

/-- Pivots on row `i` and column `j` in place; a pivot element within the tolerance of zero is
refused. -/
def pivotInPlace (i j : Nat) (tolerance : α) : Change α (Tableau α) Unit := do
  let p := (← get).entry i j
  unless Scalar.abs p > tolerance do
    throw (.degeneratePivot i j p)
  modify (·.eliminate i j)

/-- The tableau after a pivot. -/
def pivot (t : Tableau α) (i j : Nat) (tolerance : α) : Except (Error α) (Tableau α) :=
  (pivotInPlace i j tolerance).result t

end LinOpt.Tableau
