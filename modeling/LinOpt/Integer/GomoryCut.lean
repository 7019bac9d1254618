import LinOpt.Tableau.Checked

/-!
# Gomory cuts

A cut read from one row of a tableau. When all columns with a non-zero entry take integer values,
the cut is made of the fractional parts of the entries; otherwise of the mixed-integer rounding of
the row, which holds for continuous columns as well. `GomoryCut.coefficients` and `GomoryCut.bound`
give it as `coefficients · y ≤ bound` over the columns `y`.
-/

namespace LinOpt

/-- A number as an integer and a rest from `0` to below `1`. -/
structure SplitValue (α : Type) where
  integer : α
  fraction : α

/-- A cut with the row it was read from. -/
structure GomoryCut (α : Type) where
  sourceRow : Nat
  entries : List α
  rhs : α
  splitEntries : List (SplitValue α)
  splitRhs : SplitValue α
  /-- Which columns take integer values. -/
  integerColumns : List Bool
  /-- Whether a continuous column has an entry in the row. -/
  mixed : Bool

variable {α : Type} [Scalar α]

/-- Splits a value. A rest within the tolerance of `0` or `1` is snapped to the integer. -/
def SplitValue.of (tolerance value : α) : SplitValue α :=
  let integer := Scalar.trunc value
  let fraction := value - integer
  let (integer, fraction) :=
    if fraction < 0 then (integer - 1, fraction + 1) else (integer, fraction)
  if fraction < tolerance then ⟨integer, 0⟩
  else if fraction > 1 - tolerance then ⟨integer + 1, 0⟩
  else ⟨integer, fraction⟩

namespace GomoryCut

/-- Reads the cut of a row; columns past the end of `integerColumns` are continuous. -/
def ofRow (t : Tableau α) (row : Nat) (integerColumns : List Bool) (tolerance : α) : GomoryCut α :=
  let entries := (t.row row).take t.rhsCol
  let integerColumns := (List.range t.rhsCol).map fun j => integerColumns.getD j false
  { sourceRow := row
    entries
    rhs := t.rhs row
    splitEntries := entries.map (.of tolerance)
    splitRhs := .of tolerance (t.rhs row)
    integerColumns
    mixed := (entries.zip integerColumns).any fun (a, isInteger) =>
      !isInteger && decide (Scalar.abs a > tolerance) }

/-- The weight of a column in a cut whose row has right-hand side rest `f₀`: the column has entry
`a` with rest `f`. -/
def weight (mixed : Bool) (f₀ : α) (isInteger : Bool) (f a : α) : α :=
  if !mixed then f
  else if isInteger then (if f ≤ f₀ then f else f₀ * (1 - f) / (1 - f₀))
  else if a ≥ 0 then a
  else -a * f₀ / (1 - f₀)

/-- The coefficients of the cut, minus the weights of the columns. -/
def coefficients (cut : GomoryCut α) : List α :=
  ((cut.splitEntries.zip cut.entries).zip cut.integerColumns).map fun ((s, a), isInteger) =>
    let g := weight cut.mixed cut.splitRhs.fraction isInteger s.fraction a
    if g == 0 then 0 else -g

/-- The right-hand side of the cut. -/
def bound (cut : GomoryCut α) : α := -cut.splitRhs.fraction

/-- Reads the cut of a row that may lie outside the tableau. -/
def ofRowChecked (t : Tableau α) (row : Nat) (integerColumns : List Bool) (tolerance : α) :
    Except (Error α) (GomoryCut α) :=
  Tableau.guardRange (t.hasRow row) (ofRow t row integerColumns tolerance)

end GomoryCut
end LinOpt
