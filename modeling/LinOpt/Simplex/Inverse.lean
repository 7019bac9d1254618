import LinOpt.Error

/-!
# Matrix inversion

Gauss-Jordan elimination on a square matrix with the identity beside it. In every column the row
with the greatest magnitude comes up, the last of several; a column whose greatest magnitude is
within the tolerance of zero makes the matrix count as singular.
-/

namespace LinOpt.Matrix

variable {α : Type} [Scalar α]

/-- The identity matrix. -/
def identity (n : Nat) : List (List α) := (List.range n).map (Scalar.unit n)

/-- The last row from `col` on whose entry in column `col` has the greatest magnitude. -/
def pivotRow (rows : List (List α)) (col : Nat) : Nat :=
  let magnitude (i : Nat) : Option α := some (Scalar.abs ((rows.getD i []).getD col 0))
  (List.range' (col + 1) (rows.length - (col + 1))).foldl
    (fun best i => if Scalar.rankLe (magnitude best) (magnitude i) then i else best) col

/-- Exchanges two rows. -/
def swapRows (rows : List (List α)) (i k : Nat) : List (List α) :=
  (rows.set i (rows.getD k [])).set k (rows.getD i [])

/-- Makes column `col` a unit column by means of row `col`. -/
def eliminate (rows : List (List α)) (col : Nat) : List (List α) :=
  let row := rows.getD col []
  let p := row.getD col 0
  let row := row.map (· / p)
  rows.mapIdx fun i r =>
    if i = col then row
    else
      let factor := r.getD col 0
      if factor == 0 then r else r.zipWith (fun v q => v - factor * q) row

/-- Eliminates the columns from `col` on, as many as are left. -/
def reduceFrom (tolerance : α) : (left col : Nat) → List (List α) → Except (Error α) (List (List α))
  | 0, _, rows => .ok rows
  | left + 1, col, rows =>
    let i := pivotRow rows col
    let p := (rows.getD i []).getD col 0
    if Scalar.abs p ≤ tolerance then .error (.degeneratePivot i col p)
    else reduceFrom tolerance left (col + 1) (eliminate (swapRows rows col i) col)

/-- The inverse of a square matrix. -/
def invert (matrix : List (List α)) (tolerance : α) : Except (Error α) (List (List α)) :=
  let n := matrix.length
  let augmented := matrix.zipWith (· ++ ·) (identity n)
  (reduceFrom tolerance n 0 augmented).map fun rows => rows.map (·.drop n)

end LinOpt.Matrix
