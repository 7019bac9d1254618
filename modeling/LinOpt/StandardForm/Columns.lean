import LinOpt.Problem.Build

/-!
# Columns for variables

Tableau columns are non-negative. A variable is placed in them according to its restriction: as it
is, negated, or as the difference of two columns. A `ColumnMap` lists the placements in order of the
variables; columns are numbered from the left, so where a variable starts follows from the widths
before it. `ColumnMap.toColumns` takes coefficients of variables to coefficients of columns and
`ColumnMap.recover` takes column values back to variable values.
-/

namespace LinOpt

/-- How a variable is placed in non-negative columns. -/
inductive Placement where
  /-- One column that holds the variable. -/
  | direct
  /-- One column that holds the variable negated. -/
  | negated
  /-- Two columns whose difference is the variable. -/
  | split
  deriving DecidableEq

/-- The placement a restriction calls for. -/
def Restriction.placement : Restriction → Placement
  | .nonPositive => .negated
  | .unrestricted => .split
  | _ => .direct

namespace Placement

/-- Number of columns. -/
def width : Placement → Nat
  | .split => 2
  | _ => 1

/-- Number of columns of several variables. -/
def totalWidth : List Placement → Nat
  | [] => 0
  | p :: ps => p.width + totalWidth ps

variable {α : Type} [Scalar α]

/-- Coefficients of the columns for a coefficient of the variable. -/
def spread : Placement → α → List α
  | .direct, a => [a]
  | .negated, a => [-a]
  | .split, a => [a, -a]

/-- Value of the variable for the values of the columns from its first one on; a column without
value reads as zero. -/
def gather : Placement → List α → α
  | .direct, ys => ys.getD 0 0
  | .negated, ys => -ys.getD 0 0
  | .split, ys => ys.getD 0 0 - ys.getD 1 0

end Placement

/-- The placements of all variables, in order. -/
structure ColumnMap where
  placements : List Placement
  deriving DecidableEq

namespace ColumnMap

/-- The placements for the variables of a problem. -/
def ofProblem {α : Type} (p : Problem α) : ColumnMap :=
  ⟨p.vars.map (·.restriction.placement)⟩

/-- Number of columns. -/
def numColumns (m : ColumnMap) : Nat := Placement.totalWidth m.placements

/-- Number of variables. -/
def numVariables (m : ColumnMap) : Nat := m.placements.length

/-- First column of a variable; the positive part if it has two. -/
def firstColumn? (m : ColumnMap) (index : Nat) : Option Nat :=
  if index < m.numVariables then some (Placement.totalWidth (m.placements.take index))
  else none

/-- The column that holds a variable as it is, if there is one. -/
def directColumn? (m : ColumnMap) (index : Nat) : Option Nat :=
  match m.placements[index]? with
  | some .direct => m.firstColumn? index
  | _ => none

variable {α : Type} [Scalar α]

/-- `-1` for a variable that is stored negated, `1` for others. -/
def sign (m : ColumnMap) (index : Nat) : α :=
  match m.placements[index]? with
  | some .negated => -1
  | _ => 1

/-- Spreads coefficients over columns; variables without coefficient have zero columns. -/
def spreadAll : List Placement → List α → List α
  | [], _ => []
  | p :: ps, [] => List.replicate p.width 0 ++ spreadAll ps []
  | p :: ps, a :: as => p.spread a ++ spreadAll ps as

/-- Gathers variable values from column values. -/
def gatherAll : List Placement → List α → List α
  | [], _ => []
  | p :: ps, ys => p.gather ys :: gatherAll ps (ys.drop p.width)

/-- Coefficients of variables as coefficients of columns. More coefficients than variables are
refused. -/
def toColumns (m : ColumnMap) (coefficients : List α) : Except (Error α) (List α) :=
  if m.numVariables < coefficients.length then
    .error (.dimensionMismatch m.numVariables coefficients.length)
  else .ok (spreadAll m.placements coefficients)

/-- Values of the variables for values of the columns. -/
def recover (m : ColumnMap) (columnValues : List α) : List α := gatherAll m.placements columnValues

end ColumnMap
end LinOpt
