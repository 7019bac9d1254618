import LinOpt.Report.Grid
import LinOpt.Report.Json

/-!
# The plain report

What is printed about a solution, line by line: the trail of steps, the result with its messages,
and the sensitivity analysis. Names are padded on the right and numbers on the left, so that they
stand in columns.
-/

namespace LinOpt

/-- Lines as a text, a line end behind each. -/
def unlines (lines : List String) : String := String.join (lines.map (· ++ "\n"))

namespace Report

/-- The headline of a status. -/
def headline : Status → String
  | .optimal => "OPTIMAL"
  | .infeasible => "INFEASIBLE"
  | .unbounded => "UNBOUNDED"
  | .limitReached => "LIMIT REACHED"
  | .notSolved => "NOT SOLVED"

/-- A name and a number in columns. -/
def entry (places : Nat) (name : String) (x : Float) : String :=
  "  " ++ padRight 10 name ++ " " ++ padLeft 12 (fixed places x)

/-- A section behind a blank line, nothing at all if it has no lines. -/
def optionalSection (title : String) (lines : List String) : List String :=
  if lines.isEmpty then [] else "" :: title :: lines

/-! ## Result -/

/-- The decision variables of a solution. -/
def decisions (s : Solution Float) (n : Nat) : List String :=
  (s.decisionValues n).mapIdx fun i x => entry 6 (variableName i) x

/-- The values that belong to no decision variable, in byte order of their names. -/
def auxiliaries (s : Solution Float) : List String :=
  (s.values.sorted.filter fun e => e.1.toList.head? != some 'x').map fun e => entry 6 e.1 e.2

/-- The optimum of a problem with `n` variables, if there is one. -/
def optimum (s : Solution Float) (n : Nat) : List String :=
  match s.optimalValue with
  | none => []
  | some value =>
    ("Optimal value: " ++ fixed 6 value) :: "" :: "Variables:" :: decisions s n ++
      optionalSection "Auxiliary:" (auxiliaries s)

/-- The result for a problem with `n` variables. -/
def result (s : Solution Float) (n : Nat) : List String :=
  ("Status: " ++ headline s.status) :: optimum s n ++
    optionalSection "Messages:" (s.messages.map ("  " ++ ·.text))

/-! ## Steps -/

/-- A recorded step. -/
def step (s : Step Float) : List String :=
  "" :: s.label.text ::
    match s.content with
    | .tableau t => t.grid
    | .text t => ["  " ++ t.text]

/-- The trail of steps. -/
def steps (s : Solution Float) : List String := "Steps:" :: s.steps.flatMap step ++ [""]

/-! ## Analysis -/

/-- A reduced cost. -/
def reducedCost (r : ReducedCost Float) : String :=
  let basis := if r.isBasic then "basic" else "nonbasic"
  entry 4 (variableName r.variableIndex) r.reducedCost ++
    "  (" ++ basis ++ ", value " ++ fixed 4 r.value ++ ")"

/-- The binding constraints. -/
def binding (names : List ColumnName) : List String :=
  if names.isEmpty then []
  else "Binding constraints:" :: names.map ("  - " ++ ·.text) ++ [""]

/-- The sensitivity analysis. -/
def analysis (s : Solution Float) : List String :=
  match s.analysis with
  | none => ["Analysis: not available for this method"]
  | some a =>
    "Analysis:" :: "" :: binding a.binding ++
      "Shadow prices:" :: a.shadowPrices.map (fun p => entry 4 p.name.text p.value) ++
      "" :: "Reduced costs:" :: a.reducedCosts.map reducedCost

end Report
end LinOpt
