import LinOpt.Problem.Build
import LinOpt.Tableau.Pivot
import Mathlib.Tactic.SplitIfs
import Mathlib.Data.Nat.Notation

/-!
# Changes in place, by cases

A problem takes a constraint or other restrictions, and a tableau is pivoted, in place. Each of
these is refused by its first statement, before anything is changed, or it goes through. So what a
refused change leaves is what there was (`Change.Careful`).
-/

namespace LinOpt

/-- A change that leaves everything as it was where it is refused. -/
def Change.Careful {α σ : Type} (c : Change α σ Unit) : Prop :=
  ∀ (s s' : σ) (e : Error α), c.run s = .error e s' → s' = s

/-- What is left of a change that is not refused is its result. -/
theorem Change.state_of_ok {α σ : Type} (c : Change α σ Unit) {s s' : σ}
    (h : c.result s = .ok s') : c.state s = s' := by
  unfold result at h
  unfold state
  cases hrun : c.run s with
  | ok _ _ => rw [hrun] at h; exact Except.ok.inj h
  | error _ _ => rw [hrun] at h; cases h

/-- What is left of a careful change that is refused is what there was. -/
theorem Change.Careful.state_eq {α σ : Type} {c : Change α σ Unit} (h : c.Careful) {s : σ}
    {e : Error α} (he : c.result s = .error e) : c.state s = s := by
  unfold result at he
  unfold state
  cases hrun : c.run s with
  | ok _ s' => rw [hrun] at he; cases he
  | error e' s' => exact h s s' e' hrun

variable {α : Type}

namespace Problem

/-- Restricting anew is refused, or it changes the restrictions of all variables. -/
theorem run_restrict (p : Problem α) (rs : List Restriction) :
    (restrict rs).run p = if rs.length ≠ p.numVariables
      then .error (.dimensionMismatch p.numVariables rs.length) p
      else .ok () { p with vars := p.vars.zipWith (fun v r => { v with restriction := r }) rs } := by
  by_cases h : rs.length = p.numVariables <;> simp [restrict, h]

/-- The problem with other restrictions, or the reason why there is none. -/
theorem withRestrictions_eq (p : Problem α) (rs : List Restriction) :
    p.withRestrictions rs = if rs.length ≠ p.numVariables
      then .error (.dimensionMismatch p.numVariables rs.length)
      else .ok { p with vars := p.vars.zipWith (fun v r => { v with restriction := r }) rs } := by
  rw [withRestrictions, Change.result, run_restrict]
  split_ifs <;> rfl

/-- Restricting variables is careful: the number of restrictions is checked first. -/
theorem careful_restrict (rs : List Restriction) :
    (restrict rs : Change α (Problem α) Unit).Careful := by
  intro p q e h
  rw [run_restrict] at h
  split_ifs at h
  exact (EStateM.Result.error.inj h).2.symm

variable [Scalar α]

/-- A constraint is refused, or it comes behind the others with a coefficient for every variable. -/
theorem run_pushConstraint (p : Problem α) (k : Constraint α) :
    (pushConstraint k).run p = if p.numVariables < k.coefficients.length
      then .error (.dimensionMismatch p.numVariables k.coefficients.length) p
      else .ok () { p with constraints := p.constraints ++ [k.padTo p.numVariables] } := by
  by_cases h : p.numVariables < k.coefficients.length <;> simp [pushConstraint, h]

/-- The problem with one constraint more, or the reason why there is none. -/
theorem addConstraint_eq (p : Problem α) (k : Constraint α) :
    p.addConstraint k = if p.numVariables < k.coefficients.length
      then .error (.dimensionMismatch p.numVariables k.coefficients.length)
      else .ok { p with constraints := p.constraints ++ [k.padTo p.numVariables] } := by
  rw [addConstraint, Change.result, run_pushConstraint]
  split_ifs <;> rfl

/-- Adding a constraint is careful: its length is checked first. -/
theorem careful_pushConstraint (k : Constraint α) : (pushConstraint k).Careful := by
  intro p q e h
  rw [run_pushConstraint] at h
  split_ifs at h
  exact (EStateM.Result.error.inj h).2.symm

end Problem

namespace Tableau

variable [Scalar α]

/-- A pivot is refused for its element, or it eliminates. -/
theorem run_pivotInPlace (t : Tableau α) (i j : ℕ) (tolerance : α) :
    (pivotInPlace i j tolerance).run t = if tolerance < Scalar.abs (t.entry i j)
      then .ok () (t.eliminate i j) else .error (.degeneratePivot i j (t.entry i j)) t := by
  by_cases h : tolerance < Scalar.abs (t.entry i j) <;> simp [pivotInPlace, h]

/-- The tableau after a pivot, or the reason why there is none. -/
theorem pivot_eq (t : Tableau α) (i j : ℕ) (tolerance : α) :
    t.pivot i j tolerance = if tolerance < Scalar.abs (t.entry i j)
      then .ok (t.eliminate i j) else .error (.degeneratePivot i j (t.entry i j)) := by
  rw [pivot, Change.result, run_pivotInPlace]
  split_ifs <;> rfl

/-- An element outside the tolerance is not refused. -/
theorem pivot_of_lt {t : Tableau α} {i j : ℕ} {tolerance : α}
    (h : tolerance < Scalar.abs (t.entry i j)) :
    t.pivot i j tolerance = .ok (t.eliminate i j) := (pivot_eq ..).trans (if_pos h)

/-- Pivoting in place is careful: the pivot is checked first. -/
theorem careful_pivotInPlace (i j : ℕ) (tolerance : α) : (pivotInPlace i j tolerance).Careful := by
  intro t t' e h
  rw [run_pivotInPlace] at h
  split_ifs at h
  exact (EStateM.Result.error.inj h).2.symm

end Tableau
end LinOpt
