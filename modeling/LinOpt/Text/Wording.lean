import LinOpt.Config
import LinOpt.Integer.Knapsack
import LinOpt.Number.Layout
import LinOpt.Problem.Violations
import LinOpt.Scalar.Float

/-!
# Wording

The texts for what the solvers report: errors, violations, messages, steps and journal events.
Indices of variables, columns and constraints are written from one on, tableau rows and columns of
pivots as they are.
-/

namespace LinOpt

/-! ## Pieces -/

/-- Display name of a variable. -/
def variableName (index : Nat) : String := (ColumnName.decision index).text

/-- A list in brackets. -/
def bracketed (items : List String) : String := "[" ++ ", ".intercalate items ++ "]"

/-- The written relation. -/
def Relation.symbol : Relation → String
  | .le => "<="
  | .ge => ">="
  | .eq => "="

/-- The written status. -/
def Status.text : Status → String
  | .notSolved => "NotSolved"
  | .optimal => "Optimal"
  | .infeasible => "Infeasible"
  | .unbounded => "Unbounded"
  | .limitReached => "LimitReached"

/-- The written sense. -/
def Sense.text : Sense → String
  | .maximize => "Maximize"
  | .minimize => "Minimize"

/-- The written counters of a search. -/
def SearchStats.text (s : SearchStats) : String :=
  "SearchStats \x7b nodes_explored: " ++ toString s.nodesExplored ++
  ", branches: " ++ toString s.branches ++
  ", pruned_by_bound: " ++ toString s.prunedByBound ++
  ", pruned_infeasible: " ++ toString s.prunedInfeasible ++
  ", abandoned: " ++ toString s.abandoned ++
  ", integral_candidates: " ++ toString s.integralCandidates ++ " \x7d"

namespace Wording

/-- A number with six places. -/
def six (x : Float) : String := fixed 6 x

/-- A number that may be missing. -/
def maybeNumber : Option Float → String
  | none => "None"
  | some x => "Some(" ++ Layout.exact.write x ++ ")"

/-- The term of a variable, with the sign in front unless it is the first term and positive. -/
def term (isFirst : Bool) (a : Float) (index : Nat) : String :=
  let name := variableName index
  if isFirst then
    if a == 1.0 then name
    else if a == -1.0 then "-" ++ name
    else Layout.plain.write a ++ name
  else
    let sign := if a < 0.0 then " - " else " + "
    let magnitude := a.abs
    sign ++ (if magnitude == 1.0 then name else Layout.plain.write magnitude ++ name)

/-- A linear form without its zero terms. -/
def linearForm (coefficients : List Float) : String :=
  let terms := coefficients.zipIdx.filter fun (a, _) => !(a == 0.0)
  if terms.isEmpty then "0"
  else String.join (terms.mapIdx fun k (a, i) => term (k == 0) a i)

/-- The label of a packing. -/
def packingLabel (number : Nat) : String := String.ofList (Knapsack.label number)

/-- Names of the variables with given indices. -/
def names (indices : List Nat) : String := ", ".intercalate (indices.map variableName)

end Wording

open Wording

/-! ## Errors and violations -/

/-- Why an operation was refused. -/
def Error.message : Error Float → String
  | .degeneratePivot row column value =>
    s!"pivot element {Layout.scientific.write value} at row {row}, column {column} " ++
      "is below tolerance"
  | .dimensionMismatch expected found =>
    s!"constraint has {found} coefficients but the problem has {expected} variables"
  | .outOfRange => "position outside the tableau"
  | .emptyTableau => "invalid operation: tableau needs at least one column"
  | .noSlackBasis row relation rhs =>
    s!"invalid operation: constraint {row + 1} ({relation.symbol} {Layout.plain.write rhs}) " ++
      "has no slack basis; use the dual simplex"
  | .noPriorSolve =>
    "invalid operation: incremental re-optimization requires a prior solve"
  | .notBasic index => s!"invalid operation: fractional {variableName index} is not basic"
  | .knapsackSense => "invalid operation: knapsack search requires a maximize objective"
  | .knapsackConstraints found =>
    s!"invalid operation: knapsack search requires exactly one capacity constraint, found {found}"
  | .knapsackRelation found =>
    s!"invalid operation: knapsack capacity constraint must be <=, found {found.symbol}"
  | .knapsackItem index =>
    s!"invalid operation: knapsack item {variableName index} needs non-negative value and weight"

/-- How a constraint is violated. -/
def Violation.description (v : Violation Float) : String :=
  let number := v.constraint + 1
  let four := fixed 4
  match v.relation with
  | .le => s!"constraint {number} exceeds maximum of {four v.required} by {four v.amount}"
  | .ge => s!"constraint {number} is below minimum of {four v.required} by {four v.amount}"
  | .eq => s!"constraint {number} requires exactly {four v.required} but got {four v.actual}"

/-! ## Messages -/

/-- A constraint that was added. -/
def AddedConstraint.text (a : AddedConstraint Float) : String :=
  let k := a.constraint
  s!"Added constraint {linearForm k.coefficients} {k.relation.symbol} " ++
    s!"{Layout.plain.write k.rhs} with {a.name.text}"

/-- A cut that was made. -/
def CutNote.text (n : CutNote Float) : String :=
  let kind := if n.mixed then "mixed-integer" else "fractional"
  s!"Cut {n.number} ({kind}) from row {n.row} ({variableName n.variableIndex} = {six n.value}), " ++
    s!"right-hand side {six n.rhs}"

/-- A column of the dual method. -/
def tableauColumnName (column : Nat) (name : Option ColumnName) : String :=
  match name with
  | none => s!"c{column + 1}"
  | some name => name.text

/-- A remark in a solution. -/
def Message.text : Message Float → String
  | .optimalValue value => s!"Optimal value: {six value}"
  | .iterationLimit limit => s!"Limit exceeded: iteration limit of {limit} reached"
  | .interrupted => "Limit exceeded: interrupted"
  | .interruptedAfter iterations => s!"Limit exceeded: interrupted after {iterations} iterations"
  | .phaseLimit phase limit =>
    s!"Limit exceeded: phase {phase.number} iteration limit of {limit} reached"
  | .phaseInterrupted phase => s!"Limit exceeded: interrupted during phase {phase.number}"
  | .columnUnbounded column => s!"Unbounded: column {column + 1} has no positive entry"
  | .directionUnbounded column =>
    s!"Unbounded: column {column + 1} has no positive direction entry"
  | .growsUnbounded column name =>
    s!"Unbounded: column {tableauColumnName column name} can increase without bound"
  | .rowInfeasible row rhs =>
    s!"Infeasible: row {row} has negative right-hand side {six rhs} " ++
      "and no negative coefficient to pivot on"
  | .artificialPositive name =>
    s!"Infeasible: artificial variable {name.text} remains positive"
  | .added constraint => constraint.text
  | .everyVariableInteger =>
    "No integer restrictions declared; treating every variable as integer"
  | .relaxationUnbounded => "LP relaxation is unbounded; branch-and-bound not started"
  | .relaxationWithoutOptimum => "No feasible integer solution: LP relaxation has no optimum"
  | .openNodes count => s!"Limit exceeded: interrupted with {count} open nodes"
  | .nodeTooDeep path => s!"Limit exceeded: node {path.label} abandoned at depth {path.depth}"
  | .nodeAbandoned path status => s!"Node {path.label} abandoned: {status.text}"
  | .explored stats =>
    s!"Explored {stats.nodesExplored} nodes ({stats.branches} branches, " ++
      s!"{stats.prunedByBound} pruned by bound, {stats.prunedInfeasible} infeasible, " ++
      s!"{stats.abandoned} abandoned)"
  | .bestInteger value path =>
    s!"Best integer solution z = {six value} found at node {path.label}"
  | .searchIncomplete => "Search incomplete: best integer solution is not proven optimal"
  | .noIntegerSolution => "No feasible integer solution"
  | .integralAfter cuts => s!"Integral optimum after {cuts} cuts"
  | .maximumCuts cuts bound =>
    s!"Limit exceeded: maximum cuts reached ({cuts}), bound {six bound}"
  | .cutsStalled bound window =>
    s!"Limit exceeded: cuts stalled, bound {six bound} unchanged over the last {window} cuts"
  | .objectiveTrace values => "Objective trace: " ++ ", ".intercalate (values.map six)
  | .itemRanking items => "Items by value/weight ratio: " ++ names items
  | .packing number value weight items =>
    s!"Candidate {packingLabel number}: value {six value}, weight {six weight}, items " ++
      bracketed (items.map variableName)
  | .noPackingYet => "No packing found before the search was interrupted"
  | .negativeCapacity => "No feasible packing: capacity is negative"
  | .bestPacking number value => s!"Best candidate {packingLabel number}: value {six value}"
  | .other text => text

/-! ## Steps -/

/-- What a recorded step is called. -/
def StepLabel.text : StepLabel Float → String
  | .initial => "Initial tableau"
  | .iteration number row column => s!"Iteration {number}: pivot row {row}, column {column}"
  | .exchange number => s!"Iteration {number}"
  | .pivot phase number row column =>
    s!"Phase {phase.number}, iteration {number}: pivot row {row}, column {column}"
  | .added constraint => constraint.text
  | .cut note => note.text
  | .node path => s!"Node {path.label}"
  | .other text => text

/-- A recorded description. -/
def StepText.text : StepText Float → String
  | .exchange entering leaving reducedCost basis values =>
    s!"entering column {entering + 1}, leaving row {leaving + 1}, " ++
      s!"reduced cost {six reducedCost}, basis {bracketed (basis.map toString)}, " ++
      s!"xB {bracketed (values.map Layout.exact.write)}"
  | .infeasible => "infeasible, pruned"
  | .cannotBeat value incumbent =>
    s!"z = {six value} cannot beat incumbent {six incumbent}, pruned"
  | .integral value isIncumbent =>
    s!"integral, z = {six value}" ++ (if isIncumbent then ", new incumbent" else "")
  | .branching value index at_ =>
    s!"z = {six value}, branching on {variableName index} = {six at_}"
  | .overfull => "fixed items exceed capacity"
  | .boundTooLow bound => s!"bound {six bound} cannot beat incumbent, pruned"
  | .packing number value => s!"candidate {packingLabel number}: value {six value}"
  | .branchingItem bound index => s!"bound {six bound}, branching on {variableName index}"
  | .other text => text

/-! ## Events -/

/-- The written weight of an event. -/
def Level.text : Level → String
  | .debug => "DEBUG"
  | .info => "INFO"
  | .warn => "WARN"

/-- What a solver reports while it runs. -/
def Event.text : Event Float → String
  | .primalPivot iteration row column =>
    s!"primal pivot {iteration}: row {row}, column {column}"
  | .primalStopped iterations => s!"primal simplex stopped after {iterations} iterations"
  | .primalUnbounded iterations => s!"primal simplex: unbounded after {iterations} iterations"
  | .primalOptimal value iterations =>
    s!"primal simplex: optimal {Layout.plain.write value} after {iterations} iterations"
  | .revisedExchange iteration column row =>
    s!"revised iteration {iteration}: column {column} enters at row {row + 1}"
  | .revisedUnbounded iterations => s!"revised simplex: unbounded after {iterations} iterations"
  | .revisedOptimal value iterations =>
    s!"revised simplex: optimal {Layout.plain.write value} after {iterations} iterations"
  | .dualBuilt columns rows =>
    s!"dual simplex: {columns} decision columns, {rows} constraint rows"
  | .dualPivot phase iteration row column =>
    s!"phase {phase.number} pivot {iteration}: row {row}, column {column}"
  | .dualStopped phase iterations =>
    s!"dual phase {phase.number} stopped after {iterations} iterations"
  | .dualFinished status pivots objective =>
    s!"dual simplex finished: {status.text} after {pivots} pivots, " ++
      s!"objective {maybeNumber objective}"
  | .constraintAdded constraint => constraint.text
  | .rowAppended name column => s!"appended row with slack {name.text} at column {column}"
  | .searchInterrupted openNodes =>
    s!"branch-and-bound interrupted with {openNodes} open nodes"
  | .nodeTooDeep path => s!"abandoning node {path.label} at depth {path.depth}"
  | .incumbentFound value path => s!"new incumbent {six value} at node {path.label}"
  | .branched index value path down up =>
    s!"branching on {variableName index} = {six value}: " ++
      s!"{(path.child .first).text} ({down.text}), {(path.child .second).text} ({up.text})"
  | .searchFinished stats => s!"branch-and-bound finished: {stats.text}"
  | .cutMade note => note.text
  | .cutsIntegral value cuts => s!"cutting planes: integral at {six value} after {cuts} cuts"
  | .cutsStopped cuts bound => s!"cutting planes stopped at {cuts} cuts, bound {six bound}"
  | .cutsStalled bound cuts =>
    s!"cutting planes stalled at bound {six bound} after {cuts} cuts"
  | .relaxationLost status cuts => s!"relaxation became {status.text} after cut {cuts}"
  | .packingInterrupted openNodes =>
    s!"knapsack search interrupted with {openNodes} open nodes"
  | .packingOverfull path => s!"knapsack node {path.label} overflows capacity"
  | .packingPruned path bound => s!"knapsack node {path.label} pruned at bound {six bound}"
  | .packingFound number value => s!"knapsack candidate {packingLabel number} = {six value}"
  | .packingTooDeep path => s!"knapsack node {path.label} reached depth {path.depth}"
  | .packingFinished value candidates =>
    s!"knapsack search: {six value} from {candidates} candidates"

end LinOpt
