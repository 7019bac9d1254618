import LinOpt.Simplex.Dual.Phases
import LinOpt.Simplex.Primal

/-!
# Sessions of the dual simplex method

A session is a model under way, with the solution it has come to and the pivots made so far. It is
started from a problem, grown by constraints or by rows of its own, and optimized again from the
basis it stands at. Sessions are plain values, so a search may go on from one in two directions.
-/

namespace LinOpt

/-- A model under way. `trail` is the latest solution with all messages and steps so far. -/
structure Session (α : Type) where
  model : Model α
  trail : Solution α := {}
  pivots : Nat := 0

variable {α : Type} [Scalar α]

namespace Model

/-- The factor between the maximized objective and the problem's own. -/
def senseSign (m : Model α) : α :=
  match m.problem.sense with
  | .maximize => 1
  | .minimize => -1

/-- Shadow price of a row: the objective entry of its auxiliary column, without the penalty, in the
sign of the row and of the problem. -/
def shadowPrice (m : Model α) (c : Config α) (k : Nat) (a : AuxColumn) : ShadowPrice α :=
  let entry := m.tableau.entry 0 (m.numDecisions + k)
  let entry := if a.kind = .artificial then entry - c.bigM else entry
  let entry := if a.negated then -entry else entry
  ⟨a.name, Scalar.clean c.tolerance (m.senseSign * entry)⟩

/-- Reduced cost of a variable, zero when its first column is basic. -/
def reducedCost (m : Model α) (c : Config α) (i : Nat) (value : α) : ReducedCost α :=
  let col := (m.columns.firstColumn? i).getD 0
  let isBasic := col < m.numDecisions && (m.tableau.basicRow col c.tolerance).isSome
  let rate := -m.senseSign * m.columns.sign i * m.tableau.entry 0 col
  ⟨i, value, if isBasic then 0 else Scalar.clean c.tolerance rate, isBasic⟩

/-- Sensitivity of the optimum that the tableau shows. -/
def analyze (m : Model α) (c : Config α) (values : List α) : Analysis α where
  shadowPrices := m.aux.mapIdx (m.shadowPrice c)
  reducedCosts := values.mapIdx (m.reducedCost c)
  binding := ((m.auxValues c.tolerance).filter fun (_, v) =>
    decide (Scalar.abs v ≤ c.tolerance)).map (·.1.name)

/-- The optimum that the tableau shows, with its analysis. -/
def optimum (m : Model α) (c : Config α) (s : Solution α) : Solution α :=
  let values := m.variableValues c.tolerance
  let value := PrimalSimplex.ofMaximized m.problem.sense m.tableau.objectiveValue
  let named := (({} : Valuation α).insertAll
      (values.mapIdx fun i v => (.decision i, Scalar.clean c.tolerance v))).insertAll
    ((m.auxValues c.tolerance).map fun (a, v) => (a.name, Scalar.clean c.tolerance v))
  let s := ({ s with values := named }.settle value).log (.optimalValue value)
  { s with analysis := some (m.analyze c values) }

/-- The solution after the phases ended with a verdict. A tableau without anything negative is still
infeasible while an artificial column is positive. -/
def conclude (m : Model α) (c : Config α) (trail : Solution α) (v : Verdict α) : Solution α :=
  let s := { trail with
    values := {}, analysis := none, tableau := some m.tableau, counts := m.counts }
  match v with
  | .done =>
    match m.positiveArtificial? c.tolerance with
    | some name => s.terminate .infeasible (.artificialPositive name)
    | none => m.optimum c s
  | .infeasible row rhs => s.terminate .infeasible (.rowInfeasible row rhs)
  | .unbounded col name => s.terminate .unbounded (.growsUnbounded col name)
  | .limit phase n => s.terminate .limitReached (.phaseLimit phase n)
  | .interrupted phase => s.terminate .limitReached (.phaseInterrupted phase)

end Model

namespace Session

/-- The session of a problem, before the first pivot. -/
def start (c : Config α) (p : Problem α) (j : Journal α) :
    Except (Error α) (Session α × Journal α) :=
  (Model.build c.bigM p).map fun m =>
    ({ model := m, trail := c.record .initial (.tableau m.tableau) {} },
      c.emit j (.dualBuilt m.numDecisions m.tableau.numConstraints))

/-- Optimizes from the present basis. -/
def optimize (s : Session α) (c : Config α) (j : Journal α) : Call (Session α) α :=
  let (p, verdict) := Progress.phases ⟨s.model.tableau, s.trail, s.pivots, j⟩ c s.model
  let m := { s.model with tableau := p.tableau }
  match verdict with
  | .error e => ⟨⟨.error e, p.journal⟩, ⟨m, p.trail, p.pivots⟩⟩
  | .ok v =>
    let solution := m.conclude c p.trail v
    let j := c.emit p.journal (.dualFinished solution.status p.pivots solution.optimalValue)
    ⟨⟨.ok solution, j⟩, ⟨m, solution, p.pivots⟩⟩

/-- Adds a constraint and optimizes again. A constraint that is refused changes nothing. -/
def addConstraint (s : Session α) (c : Config α) (k : Constraint α) (j : Journal α) :
    Call (Session α) α :=
  match s.model.extend c k with
  | .error e => ⟨⟨.error e, j⟩, s⟩
  | .ok m =>
    let added : AddedConstraint α := ⟨k, (AuxColumn.ofRow s.model.counts k).name⟩
    let trail := c.record (.added added) (.tableau m.tableau) (s.trail.log (.added added))
    optimize ⟨m, trail, s.pivots⟩ c (c.emit j (.constraintAdded added))

/-- Appends the row of a cut, without optimizing. -/
def appendCut (s : Session α) (c : Config α) (coefficients : List α) (note : CutNote α)
    (j : Journal α) : Session α × Journal α :=
  let name := (AuxColumn.ofRow s.model.counts ⟨coefficients, .le, note.rhs⟩).name
  let col := s.model.tableau.rhsCol
  let m := s.model.appendRow coefficients note.rhs
  (⟨m, c.record (.cut note) (.tableau m.tableau) s.trail, s.pivots⟩,
    c.emit j (.rowAppended name col))

end Session

/-! ## The solver -/

/-- The dual simplex solver: its settings and the session of the last problem whose model could be
built. -/
structure DualSimplex (α : Type) where
  config : Config α
  session : Option (Session α) := none

namespace DualSimplex

/-- The latest solution. -/
def solution (d : DualSimplex α) : Solution α := (d.session.map (·.trail)).getD {}

/-- The solver after a call on its session. -/
def after (d : DualSimplex α) (call : Call (Session α) α) : Call (DualSimplex α) α :=
  ⟨call.toAnswer, { d with session := some call.state }⟩

/-- Solves a problem. The trail starts anew; a problem that is refused leaves the former model
without a trail. -/
def solve (d : DualSimplex α) (p : Problem α) (j : Journal α) : Call (DualSimplex α) α :=
  match Session.start d.config p j with
  | .error e => ⟨⟨.error e, j⟩, { d with session := d.session.map fun s => { model := s.model } }⟩
  | .ok (s, j) => d.after (s.optimize d.config j)

/-- Adds a constraint to the problem solved last and optimizes from its basis. -/
def addConstraint (d : DualSimplex α) (k : Constraint α) (j : Journal α) :
    Call (DualSimplex α) α :=
  match d.session with
  | none => ⟨⟨.error .noPriorSolve, j⟩, d⟩
  | some s => d.after (s.addConstraint d.config k j)

end DualSimplex
end LinOpt
