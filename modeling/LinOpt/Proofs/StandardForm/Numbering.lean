import LinOpt.Proofs.StandardForm.Point

/-!
# Columns by number

A `ColumnMap` says how every variable is placed, and reads off the widths where its columns are. One
may as well go through the variables with a counter and give each the next columns, by number
(`ColumnMap.number`): the counter ends at the number of columns (`ColumnMap.number_counter`), and a
variable gets as its first column what the widths before it come to (`ColumnMap.number_specs`).

Working with numbers is working with placements. Coefficients are spread by writing each at the
columns of its variable into zeros (`ColumnMap.toColumns_eq_write`), and values are gathered by
reading them there (`ColumnMap.recover_eq_read`).
-/

namespace LinOpt

open Placement (totalWidth)

/-- The columns of a variable, by number. -/
inductive ColumnSpec where
  | direct (column : ℕ)
  | negated (column : ℕ)
  | split (positive negative : ℕ)
  deriving DecidableEq

namespace ColumnSpec

/-- The columns from the counter on for a placement. -/
def ofPlacement (counter : ℕ) : Placement → ColumnSpec
  | .direct => .direct counter
  | .negated => .negated counter
  | .split => .split counter (counter + 1)

/-- The first column; the positive part if there are two. -/
def first : ColumnSpec → ℕ
  | .direct c | .negated c | .split c _ => c

/-- The column that holds the variable as it is. -/
def direct? : ColumnSpec → Option ℕ
  | .direct c => some c
  | _ => none

variable {α : Type} [Scalar α]

/-- `-1` for a variable that is stored negated. -/
def sign : ColumnSpec → α
  | .negated _ => -1
  | _ => 1

/-- Writes a coefficient of the variable into coefficients of columns. -/
def write (out : List α) : ColumnSpec → α → List α
  | .direct c, a => out.set c a
  | .negated c, a => out.set c (-a)
  | .split p n, a => (out.set p a).set n (-a)

/-- Reads the value of the variable from values of columns. -/
def read (values : List α) : ColumnSpec → α
  | .direct c => values.getD c 0
  | .negated c => -values.getD c 0
  | .split p n => values.getD p 0 - values.getD n 0

/-- Writing at the end of a list into zeros appends what the placement spreads. -/
theorem write_append (p : Placement) (done : List α) (n : ℕ) (a : α) :
    write (done ++ List.replicate (p.width + n) 0) (ofPlacement done.length p) a =
      (done ++ p.spread a) ++ List.replicate n 0 := by
  have hone : List.replicate (1 + n) (0 : α) = 0 :: List.replicate n 0 := by
    rw [Nat.add_comm, List.replicate_succ]
  have htwo : List.replicate (2 + n) (0 : α) = 0 :: 0 :: List.replicate n 0 := by
    rw [Nat.add_comm, List.replicate_succ, List.replicate_succ]
  cases p <;> simp [write, ofPlacement, Placement.width, Placement.spread, hone, htwo]

/-- Reading from a column on is gathering what is left of the values there. -/
theorem read_ofPlacement (p : Placement) (values : List α) (counter : ℕ) :
    read values (ofPlacement counter p) = p.gather (values.drop counter) := by
  cases p <;> simp [read, ofPlacement, Placement.gather]

end ColumnSpec

namespace ColumnMap

/-- Gives the variables of the placements their columns, one after the other, from a counter on.
Besides the columns it returns where the counter stands at the end. -/
def number : ℕ → List Placement → List ColumnSpec × ℕ
  | counter, [] => ([], counter)
  | counter, p :: ps =>
    let (specs, last) := number (counter + p.width) ps
    (.ofPlacement counter p :: specs, last)

/-- The columns of every variable. -/
def specs (m : ColumnMap) : List ColumnSpec := (number 0 m.placements).1

/-- The counter has moved on by the widths. -/
theorem number_counter (counter : ℕ) (ps : List Placement) :
    (number counter ps).2 = counter + totalWidth ps := by
  induction ps generalizing counter with
  | nil => rfl
  | cons p ps ih =>
    show (number (counter + p.width) ps).2 = _
    rw [ih, totalWidth, Nat.add_assoc]

/-- Every variable has the columns behind those of the variables before it. -/
theorem number_specs (counter : ℕ) (ps : List Placement) (i : ℕ) :
    (number counter ps).1[i]? =
      ps[i]?.map (.ofPlacement (counter + totalWidth (ps.take i))) := by
  induction ps generalizing counter i with
  | nil => rfl
  | cons p ps ih =>
    cases i with
    | zero => rfl
    | succ i =>
      show (number (counter + p.width) ps).1[i]? = _
      rw [ih, List.getElem?_cons_succ, List.take_succ_cons, totalWidth, Nat.add_assoc]

variable (m : ColumnMap)

/-- The counter counts the columns of the map. -/
theorem numColumns_eq_counter : m.numColumns = (number 0 m.placements).2 := by
  rw [number_counter, Nat.zero_add]
  rfl

/-- The columns of a variable of the map. -/
theorem getElem?_specs (i : ℕ) :
    m.specs[i]? = m.placements[i]?.map (.ofPlacement (totalWidth (m.placements.take i))) := by
  rw [specs, number_specs]
  simp only [Nat.zero_add]

/-- There are columns for every variable. -/
theorem length_specs : m.specs.length = m.numVariables := by
  have hlen : ∀ (counter : ℕ) (ps : List Placement), (number counter ps).1.length = ps.length := by
    intro counter ps
    induction ps generalizing counter with
    | nil => rfl
    | cons p ps ih => exact congrArg (· + 1) (ih _)
  exact hlen 0 m.placements

/-- Where a variable starts is the first of its columns. -/
theorem firstColumn?_eq (i : ℕ) : m.firstColumn? i = m.specs[i]?.map ColumnSpec.first := by
  rw [getElem?_specs, firstColumn?, numVariables]
  split_ifs with hi
  · rw [List.getElem?_eq_getElem hi]
    cases m.placements[i] <;> rfl
  · rw [List.getElem?_eq_none (not_lt.1 hi)]
    rfl

/-- The column that holds a variable as it is is its only one, if it is not negated. -/
theorem directColumn?_eq (i : ℕ) : m.directColumn? i = m.specs[i]?.bind ColumnSpec.direct? := by
  rw [directColumn?, firstColumn?_eq, getElem?_specs]
  cases hp : m.placements[i]? with
  | none => rfl
  | some p => cases p <;> rfl

variable {α : Type} [Scalar α]

/-- Variables that there are not have the sign of those that are not negated. -/
theorem sign_eq (i : ℕ) : (m.sign i : α) = (m.specs[i]?.map ColumnSpec.sign).getD 1 := by
  rw [sign, getElem?_specs]
  cases hp : m.placements[i]? with
  | none => rfl
  | some p => cases p <;> rfl

/-- Without coefficients all columns have zero. -/
theorem spreadAll_nil (ps : List Placement) :
    spreadAll ps ([] : List α) = List.replicate (totalWidth ps) 0 := by
  induction ps with
  | nil => rfl
  | cons p ps ih => rw [spreadAll, ih, totalWidth, List.replicate_add]

/-- Coefficients are spread by writing each of them at the columns of its variable. -/
theorem foldl_write (ps : List Placement) (as done : List α) :
    ((number done.length ps).1.zip as).foldl (fun out e => e.1.write out e.2)
        (done ++ List.replicate (totalWidth ps) 0) = done ++ spreadAll ps as := by
  -- the columns written so far are `done`, and the counter stands at their number
  induction ps generalizing as done with
  | nil => rfl
  | cons p ps ih =>
    cases as with
    | nil => rw [List.zip_nil_right, List.foldl_nil, spreadAll_nil]
    | cons a as =>
      show List.foldl _ (ColumnSpec.write _ (.ofPlacement done.length p) a)
        ((number (done.length + p.width) ps).1.zip as) = _
      have hlen : done.length + p.width = (done ++ p.spread a).length := by
        rw [List.length_append, Placement.length_spread]
      rw [totalWidth, ColumnSpec.write_append, hlen, ih, spreadAll, List.append_assoc]

/-- Values are gathered by reading each variable at its columns. -/
theorem map_read (ps : List Placement) (values : List α) (counter : ℕ) :
    (number counter ps).1.map (·.read values) = gatherAll ps (values.drop counter) := by
  induction ps generalizing counter with
  | nil => rfl
  | cons p ps ih =>
    show ColumnSpec.read values _ :: (number (counter + p.width) ps).1.map _ = _
    rw [ColumnSpec.read_ofPlacement, ih, gatherAll, List.drop_drop]

/-- Coefficients of columns are written into zeros, unless there are too many. -/
theorem toColumns_eq_write (as : List α) : m.toColumns as =
    if m.specs.length < as.length then .error (.dimensionMismatch m.specs.length as.length)
    else .ok ((m.specs.zip as).foldl (fun out e => e.1.write out e.2)
      (List.replicate (number 0 m.placements).2 0)) := by
  rw [toColumns, length_specs, ← numColumns_eq_counter]
  refine if_congr Iff.rfl rfl (congrArg Except.ok ?_)
  exact (foldl_write m.placements as []).symm

/-- Values of variables are read at their columns. -/
theorem recover_eq_read (values : List α) :
    m.recover values = m.specs.map (·.read values) := (map_read m.placements values 0).symm

end ColumnMap

/-- One variable of each placement: four columns. -/
example : ColumnMap.number 0 [.negated, .split, .direct] =
    ([.negated 0, .split 1 2, .direct 3], 4) := by decide

end LinOpt
