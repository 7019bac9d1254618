import LinOpt.Json
import LinOpt.Text.Wording

/-!
# Solutions as JSON

The JSON form of a solution: its fields in order of their declaration, the texts of its messages and
steps, and its values in byte order of the names.
-/

namespace LinOpt

/-- The values with their written names, in byte order of the names. -/
def Valuation.sorted (v : Valuation Float) : List (String × Float) :=
  Selection.sortStable (fun e f => decide (e.1 < f.1)) (v.entries.map fun e => (e.1.text, e.2))

/-- A tableau as its rows. -/
def Tableau.toJson (t : Tableau Float) : Json :=
  .object [("data", .ofList (.ofList .number) t.rows)]

/-- What a step holds. -/
def StepContent.toJson : StepContent Float → Json
  | .tableau t => .object [("Tableau", t.toJson)]
  | .text t => .object [("Text", .text t.text)]

/-- A recorded step. -/
def Step.toJson (s : Step Float) : Json :=
  .object [("label", .text s.label.text), ("content", s.content.toJson)]

/-- Numbers of columns. -/
def Counts.toJson (c : Counts) : Json :=
  .object [
    ("decision", .natural c.decision),
    ("slack", .natural c.slack),
    ("excess", .natural c.excess),
    ("artificial", .natural c.artificial)]

/-- A shadow price. -/
def ShadowPrice.toJson (p : ShadowPrice Float) : Json :=
  .object [("constraint", .text p.name.text), ("value", .number p.value)]

/-- A reduced cost. -/
def ReducedCost.toJson (r : ReducedCost Float) : Json :=
  .object [
    ("variable", .text (variableName r.variableIndex)),
    ("value", .number r.value),
    ("reduced_cost", .number r.reducedCost),
    ("is_basic", .bool r.isBasic)]

/-- A sensitivity analysis. -/
def Analysis.toJson (a : Analysis Float) : Json :=
  .object [
    ("shadow_prices", .ofList ShadowPrice.toJson a.shadowPrices),
    ("reduced_costs", .ofList ReducedCost.toJson a.reducedCosts),
    ("binding_constraints", .ofList (.text ·.text) a.binding)]

/-- A solution. -/
def Solution.toJson (s : Solution Float) : Json :=
  .object [
    ("status", .text s.status.text),
    ("optimal_value", .ofOption .number s.optimalValue),
    ("values", .object (s.values.sorted.map fun e => (e.1, .number e.2))),
    ("steps", .ofList Step.toJson s.steps),
    ("messages", .ofList (.text ·.text) s.messages),
    ("tableau", .ofOption Tableau.toJson s.tableau),
    ("counts", s.counts.toJson),
    ("analysis", .ofOption Analysis.toJson s.analysis)]

end LinOpt
