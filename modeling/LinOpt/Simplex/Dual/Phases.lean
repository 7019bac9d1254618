import LinOpt.Simplex.Dual.Model

/-!
# The two phases of the dual simplex method

The first phase removes negative right-hand sides by dual ratio pivots, the second runs the primal
method on what it leaves. Both are the same loop over a plan: what a phase makes of the tableau
before it. The phases differ in when the limits are looked at. The second finds a column unbounded
before it asks whether it may go on, the first finds a row infeasible only after.
-/

namespace LinOpt

/-- How a phase ends. -/
inductive Verdict (α : Type) where
  | done
  | infeasible (row : Nat) (rhs : α)
  | unbounded (column : Nat) (name : Option ColumnName)
  | limit (phase : Phase) (limit : Nat)
  | interrupted (phase : Phase)

/-- What a phase makes of a tableau. -/
inductive Plan (α : Type) where
  /-- The phase is over, whatever the limits say. -/
  | settled (verdict : Verdict α)
  /-- The phase is over if the limits allow to go on. -/
  | stuck (verdict : Verdict α)
  /-- A pivot is next. -/
  | pivot (row column : Nat)

/-- What the phases change. -/
structure Progress (α : Type) where
  tableau : Tableau α
  trail : Solution α
  pivots : Nat
  journal : Journal α

variable {α : Type} [Scalar α]

namespace Model

/-- The first phase: the most negative right-hand side leaves, by the least dual ratio. -/
def feasibilityPlan (m : Model α) (tolerance : α) (t : Tableau α) : Plan α :=
  match Tableau.mostNegative tolerance (t.rhsColumn.map some) with
  | none => .settled .done
  | some (i, rhs) =>
    let ratios := ((t.row (i + 1)).take t.rhsCol).mapIdx fun col a =>
      if a < -tolerance && !m.isArtificial col then some (Scalar.abs (t.entry 0 col / a)) else none
    match Tableau.leastRatio ratios with
    | none => .stuck (.infeasible (i + 1) rhs)
    | some (col, _) => .pivot (i + 1) col

/-- The second phase: the most negative entry of the objective row enters, by the least ratio. -/
def optimalityPlan (m : Model α) (tolerance : α) (t : Tableau α) : Plan α :=
  match t.enteringWhere tolerance fun col => !m.isArtificial col with
  | none => .settled .done
  | some col =>
    match t.leaving col tolerance with
    | none => .settled (.unbounded col ((m.auxAt? col).map AuxColumn.name))
    | some row => .pivot row col

/-- The plan of a phase. -/
def plan (m : Model α) (tolerance : α) : Phase → Tableau α → Plan α
  | .feasibility => m.feasibilityPlan tolerance
  | .optimality => m.optimalityPlan tolerance

end Model

namespace Progress

/-- Takes over the tableau after pivot number `k` of a phase. -/
def pivoted (s : Progress α) (c : Config α) (phase : Phase) (k row col : Nat) (t : Tableau α) :
    Progress α :=
  { tableau := t
    trail := c.record (.pivot phase k row col) (.tableau t) s.trail
    pivots := s.pivots + 1
    journal := c.emit s.journal (.dualPivot phase k row col) }

/-- Runs a phase for as many pivots as are left; `k` were made. -/
def runPhase (c : Config α) (phase : Phase) (plan : Tableau α → Plan α) :
    (remaining k : Nat) → Progress α → Progress α × Except (Error α) (Verdict α)
  | remaining, k, s =>
    match plan s.tableau with
    | .settled v => (s, .ok v)
    | next =>
      match remaining with
      | 0 =>
        ({ s with journal := c.emit s.journal (.dualStopped phase k) },
          .ok (.limit phase (c.phaseLimit phase)))
      | remaining + 1 =>
        let (interrupted, journal) := c.ask s.journal
        let s := { s with journal }
        if interrupted then (s, .ok (.interrupted phase))
        else match next with
          | .settled v | .stuck v => (s, .ok v)
          | .pivot row col =>
            match s.tableau.pivot row col c.tolerance with
            | .error e => (s, .error e)
            | .ok t => runPhase c phase plan remaining (k + 1) (s.pivoted c phase (k + 1) row col t)

/-- Runs a phase from its start. -/
def phase (s : Progress α) (c : Config α) (m : Model α) (phase : Phase) :
    Progress α × Except (Error α) (Verdict α) :=
  runPhase c phase (m.plan c.tolerance phase) (c.phaseLimit phase) 0 s

/-- Runs the first phase and, if it leaves nothing negative on the right, the second. -/
def phases (s : Progress α) (c : Config α) (m : Model α) :
    Progress α × Except (Error α) (Verdict α) :=
  match s.phase c m .feasibility with
  | (s, .ok .done) => s.phase c m .optimality
  | other => other

end Progress
end LinOpt
