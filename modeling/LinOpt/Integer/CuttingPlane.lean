import LinOpt.Integer.Fractional
import LinOpt.Integer.GomoryCut
import LinOpt.Simplex.Dual.Session

/-!
# Cutting planes

As long as the optimum of the relaxation is fractional, the row of the most fractional variable
gives a cut, whose row is appended to the tableau with a slack column of its own; the dual method
goes on from there. Which columns are integral must be known for the next cut: those of the integer
variables themselves, those of rows with integral data over integral columns, artificial columns,
and the slack columns of cuts that are not mixed.

A round adds one cut (`Run.round`); the loop goes round by recursion on the cuts left.
-/

namespace LinOpt.CuttingPlane

variable {α : Type} [Scalar α]

/-- Cuts over which the bound must move. -/
def stallWindow : Nat := 10

/-- What a run leaves: the optimum of the relaxation at first and after every cut, and the cuts. -/
structure Trace (α : Type) where
  values : List α := []
  cuts : List (GomoryCut α) := []

/-- Whether the bound has hardly moved over the last cuts. -/
def Trace.isStalled (t : Trace α) (tolerance : α) : Bool :=
  match t.values.getLast?, t.values.reverse[stallWindow]? with
  | some latest, some earlier =>
    decide (Scalar.abs (earlier - latest) ≤ tolerance * (1 + Scalar.abs latest))
  | _, _ => false

/-- Whether the auxiliary column of a row is integral, given the integral decision columns. -/
def isIntegralRow (tolerance : α) (integerColumns : List Bool) (row : Constraint α) : Bool :=
  row.relation = .eq ||
    (Fractional.isIntegral tolerance row.rhs &&
      (row.coefficients.zip integerColumns).all fun (a, isInteger) =>
        a == 0 || (isInteger && Fractional.isIntegral tolerance a))

/-- The columns that are integral wherever the candidate variables are. -/
def integerColumns (f : StandardForm α) (candidates : List Nat) (tolerance : α) : List Bool :=
  let direct := candidates.filterMap f.columns.directColumn?
  let decisions := (List.range f.columns.numColumns).map direct.contains
  decisions ++ f.rows.map (isIntegralRow tolerance decisions)

/-- What a run looks for: the number of variables and the variables to be integral, those that have
a column of their own paired with it. -/
structure Goal where
  numVariables : Nat
  direct : List (Nat × Nat)

/-- The variables to be integral: those restricted so, or all if none is. -/
def candidates (p : Problem α) : List Nat :=
  if p.integerVariables.isEmpty then List.range p.numVariables else p.integerVariables

/-- A run under way. -/
structure Run (α : Type) where
  session : Session α
  solution : Solution α
  /-- Optimum of the present relaxation. -/
  bound : α
  integerColumns : List Bool
  trace : Trace α
  journal : Journal α

/-- The end of a run: the trace is added to the messages. -/
def Run.finish (r : Run α) (s : Solution α) : Call (Trace α) α :=
  ⟨⟨.ok (s.log (.objectiveTrace r.trace.values)), r.journal⟩, r.trace⟩

/-- The integral optimum, its values rounded. -/
def Run.integral (r : Run α) (c : Config α) (g : Goal) : Call (Trace α) α :=
  let values := g.direct.foldl (fun (v : Valuation α) e => v.modify (.decision e.1) Scalar.round)
    r.solution.values
  let cuts := r.trace.cuts.length
  { r with journal := c.emit r.journal (.cutsIntegral r.bound cuts) }.finish
    ({ r.solution with values }.log (.integralAfter cuts))

/-- The cut that the row of a variable gives, with its announcement. -/
def Run.cut (r : Run α) (c : Config α) (row : Nat) (at_ : Fractional.Candidate α) :
    GomoryCut α × CutNote α :=
  let cut := GomoryCut.ofRow r.session.model.tableau row r.integerColumns c.integralityTolerance
  (cut, ⟨r.trace.cuts.length + 1, cut.mixed, row, at_.index, at_.value, cut.bound⟩)

/-- The most fractional of the variables to be integral. -/
def Run.pick (r : Run α) (c : Config α) (g : Goal) : Option (Fractional.Candidate α) :=
  let values := r.solution.decisionValues g.numVariables
  Fractional.most c.integralityTolerance (g.direct.map fun e => ⟨e.1, values.getD e.1 0⟩)

/-- The row in which the column of a variable is basic. -/
def Run.sourceRow (r : Run α) (c : Config α) (g : Goal) (index : Nat) : Option Nat := do
  let (_, col) ← g.direct.find? (·.1 = index)
  r.session.model.tableau.basicRow col c.tolerance

/-- Appends the row of a cut. Its slack column is integral unless the cut is mixed. -/
def Run.addCut (r : Run α) (c : Config α) (row : Nat) (at_ : Fractional.Candidate α) : Run α :=
  let (cut, note) := r.cut c row at_
  let (session, journal) :=
    r.session.appendCut c cut.coefficients note (c.emit r.journal (.cutMade note))
  { r with
    session
    integerColumns := r.integerColumns ++ [!cut.mixed]
    trace := { r.trace with cuts := r.trace.cuts ++ [cut] }
    journal }

/-- What a round makes of a run: the run goes on, or it ends with an answer. -/
inductive Round (α : Type) where
  | next (run : Run α)
  | ended (run : Run α) (answer : Call (Trace α) α)

/-- Optimizes after a cut. The run ends when the relaxation has no optimum any more. -/
def Run.reoptimize (r : Run α) (c : Config α) : Round α :=
  let call := r.session.optimize c r.journal
  let r := { r with session := call.state, journal := call.journal }
  match call.result with
  | .error e => .ended r ⟨⟨.error e, r.journal⟩, r.trace⟩
  | .ok solution =>
    match solution.status, solution.optimalValue with
    | .optimal, some value =>
      .next { r with
        solution
        bound := value
        trace := { r.trace with values := r.trace.values ++ [value] } }
    | status, _ =>
      let journal := c.emit r.journal (.relaxationLost status r.trace.cuts.length)
      .ended r ({ r with journal }.finish solution)

/-- One round at a fractional optimum: a cut from the row of its most fractional variable. -/
def Run.round (r : Run α) (c : Config α) (g : Goal) (at_ : Fractional.Candidate α) : Round α :=
  if r.trace.isStalled c.integralityTolerance then
    let journal := c.emit r.journal (.cutsStalled r.bound r.trace.cuts.length)
    .ended r ({ r with journal }.finish
      (r.solution.terminate .limitReached (.cutsStalled r.bound stallWindow)))
  else
    let (interrupted, journal) := c.ask r.journal
    let r := { r with journal }
    if interrupted then
      .ended r (r.finish (r.solution.terminate .limitReached .interrupted))
    else
      match r.sourceRow c g at_.index with
      | none => .ended r ⟨⟨.error (.notBasic at_.index), r.journal⟩, r.trace⟩
      | some row => (r.addCut c row at_).reoptimize c

/-- Goes round until the optimum is integral, the run ends or no cuts are left. -/
def iterate (c : Config α) (g : Goal) : (left : Nat) → Run α → Call (Trace α) α
  | left, r =>
    match r.pick c g with
    | none => r.integral c g
    | some at_ =>
      match left with
      | 0 =>
        let cuts := r.trace.cuts.length
        { r with journal := c.emit r.journal (.cutsStopped cuts r.bound) }.finish
          (r.solution.terminate .limitReached (.maximumCuts cuts r.bound))
      | left + 1 =>
        match r.round c g at_ with
        | .next r => iterate c g left r
        | .ended _ answer => answer

/-- The run that starts from an optimal relaxation. -/
def begin (c : Config α) (p : Problem α) (root : Call (Session α) α) (solution : Solution α)
    (value : α) : Except (Error α) (Goal × Run α) :=
  (StandardForm.ofProblem p).map fun f =>
    let candidates := candidates p
    let direct := candidates.filterMap fun i => (f.columns.directColumn? i).map fun col => (i, col)
    (⟨p.numVariables, direct⟩,
      { session := root.state
        solution
        bound := value
        integerColumns := integerColumns f candidates c.tolerance
        trace := { values := [value] }
        journal := root.journal })

/-- A run whose trace goes on from one that is there. -/
def Run.onto (r : Run α) (t : Trace α) : Run α :=
  { r with trace := ⟨t.values ++ r.trace.values, t.cuts ++ r.trace.cuts⟩ }

/-- Solves an integer problem by cuts, which are added to `trace`; the state is the trace at the
end. A relaxation without optimum is the answer as it is. -/
def solveFrom (c : Config α) (p : Problem α) (j : Journal α) (trace : Trace α) :
    Call (Trace α) α :=
  match Session.start c p j with
  | .error e => ⟨⟨.error e, j⟩, trace⟩
  | .ok (session, j) =>
    let root := session.optimize c j
    match root.result with
    | .error e => ⟨⟨.error e, root.journal⟩, trace⟩
    | .ok solution =>
      match solution.status, solution.optimalValue with
      | .optimal, some value =>
        match begin c p root solution value with
        | .error e => ⟨⟨.error e, root.journal⟩, trace⟩
        | .ok (g, r) => iterate c g c.maxCuts (r.onto trace)
      | _, _ => ⟨⟨.ok solution, root.journal⟩, trace⟩

/-- Solves an integer problem by cuts, with a trace that starts empty. -/
def solve (c : Config α) (p : Problem α) (j : Journal α) : Call (Trace α) α := solveFrom c p j {}

end LinOpt.CuttingPlane
