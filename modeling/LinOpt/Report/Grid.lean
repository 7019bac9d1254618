import LinOpt.Tableau.Basic
import LinOpt.Number.Layout
import LinOpt.Scalar.Float

/-!
# Tableaux as text

A tableau is written one row per line, with a label, four places per entry and a bar in front of the
right-hand sides. Entries that would show as zero are written as zero, so that no sign stands in
front of them.
-/

namespace LinOpt.Tableau

/-- Entries below this magnitude show as zero. -/
def shownAsZero : Float := Scalar.ofDecimal ⟨5, -5⟩

/-- One entry. -/
def cell (x : Float) : String :=
  " " ++ padLeft 9 (fixed 4 (if x.abs < shownAsZero then 0.0 else x))

/-- The entries of a row. -/
def cells : List Float → String
  | [] => ""
  | [x] => " |" ++ cell x
  | x :: rest => cell x ++ cells rest

/-- The label of a row. -/
def rowLabel (i : Nat) : String := if i = 0 then "z" else "r" ++ toString i

/-- The lines of a tableau. -/
def grid (t : Tableau Float) : List String :=
  t.rows.mapIdx fun i r => padLeft 4 (rowLabel i) ++ " |" ++ cells r

end LinOpt.Tableau
