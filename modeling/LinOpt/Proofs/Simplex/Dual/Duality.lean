import Mathlib.Tactic.LinearCombination
import LinOpt.Proofs.Simplex.Dual.Vertex

/-!
# The analysis of an optimum as a certificate of duality

The shadow prices and reduced costs that an optimum reports are a dual solution
(`Analysis.Certifies`): the prices times the right-hand sides make the optimal value, the reduced
cost of a variable is its coefficient less the prices times its column, and both have the signs that
make them a bound on every feasible point.

Row `0` of the tableau states one identity about all solutions (`Model.Describes.row_zero`), in
which the auxiliary columns carry the prices. Where the decision columns are zero it is the equation
of the values (`Model.Describes.dot_prices_rhs`), and from there to the point at which the first
column of a variable is one it changes by the equation of that variable
(`Model.Describes.entry_zero_eq`).
-/

namespace LinOpt

open Placement (totalWidth)

/-! ## Certificates -/

/-- The sign of the shadow price of a row, for an objective to maximize. -/
def Relation.Prices : Relation → ℚ → Prop
  | .le, price => 0 ≤ price
  | .ge, price => price ≤ 0
  | .eq, _ => True

/-- The sign of the reduced cost of a variable, for an objective to maximize. -/
def Restriction.Costs : Restriction → ℚ → Prop
  | .nonPositive, cost => 0 ≤ cost
  | .unrestricted, cost => cost = 0
  | _, cost => cost ≤ 0

/-- The shadow prices, row by row. -/
def Analysis.prices (a : Analysis ℚ) : List ℚ := a.shadowPrices.map (·.value)

/-- An analysis is a dual solution of value `v` to the problem that stands, with a price for every
row and a reduced cost for every variable. -/
structure Analysis.Certifies (a : Analysis ℚ) (q : Posed ℚ) (v : ℚ) : Prop where
  length_prices : a.prices.length = q.rows.length
  length_reducedCosts : a.reducedCosts.length = q.problem.numVariables
  value_eq : Scalar.dot a.prices (q.rows.map (·.rhs)) = v
  cost_eq : ∀ (i : ℕ) (r : ReducedCost ℚ), a.reducedCosts[i]? = some r → r.variableIndex = i ∧
    r.reducedCost = q.problem.objective.getD i 0 -
      Scalar.dot a.prices (q.rows.map (·.coefficients.getD i 0))
  price_sign : ∀ (k : ℕ) (row : Constraint ℚ) (price : ℚ), q.rows[k]? = some row →
    a.prices[k]? = some price →
      row.relation.Prices (PrimalSimplex.ofMaximized q.problem.sense price)
  cost_sign : ∀ (i : ℕ) (x : Variable ℚ) (r : ReducedCost ℚ), q.problem.vars[i]? = some x →
    a.reducedCosts[i]? = some r →
      x.restriction.Costs (PrimalSimplex.ofMaximized q.problem.sense r.reducedCost)

/-! ## The identity of row zero -/

namespace Model

variable {m : Model ℚ} {bigM : ℚ} {q : Posed ℚ} {c : Config ℚ}

/-- What a model says of its sense: a value of the maximized objective, and back. -/
theorem ofMaximized_eq (m : Model ℚ) (v : ℚ) :
    PrimalSimplex.ofMaximized m.problem.sense v = m.senseSign * v := by
  unfold PrimalSimplex.ofMaximized senseSign
  cases m.problem.sense
  · exact (one_mul v).symm
  · exact (neg_one_mul v).symm

/-- The sign of a sense is plus or minus one. -/
theorem senseSign_mul_self (m : Model ℚ) : m.senseSign * m.senseSign = (1 : ℚ) := by
  rw [senseSign]
  cases m.problem.sense <;> norm_num

/-- The entry of row `0` in the auxiliary column of row `k`, without the penalty. -/
def rowPrice (m : Model ℚ) (bigM : ℚ) (k : ℕ) : ℚ :=
  m.tableau.entry 0 (m.numDecisions + k) - if m.isArtificial (m.numDecisions + k) then bigM else 0

/-- Row `0` at a solution: the penalty on the artificial columns is part of the prices. -/
theorem Describes.row_zero (h : m.Describes bigM q) {y : ℕ → ℚ} (hy : m.columns.Holds q.rows y) :
    ∑ j ∈ Finset.range m.numDecisions, m.tableau.entry 0 j * y j +
      ∑ k ∈ Finset.range q.rows.length, m.rowPrice bigM k * y (m.numDecisions + k) +
      m.senseSign * Scalar.dot q.problem.objective (m.columns.point y) =
        m.tableau.objectiveValue := by
  have hz := h.states.objective_eq y hy
  have hsense : PrimalSimplex.ofMaximized q.problem.sense
      (q.problem.objectiveValue (m.columns.point y)) =
        m.senseSign * Scalar.dot q.problem.objective (m.columns.point y) := by
    rw [← m.ofMaximized_eq, h.problem_eq]
    rfl
  have hprices : ∑ k ∈ Finset.range q.rows.length, m.rowPrice bigM k * y (m.numDecisions + k) =
      ∑ k ∈ Finset.range q.rows.length,
        m.tableau.entry 0 (m.numDecisions + k) * y (m.numDecisions + k) -
      bigM * m.columns.artificialSum q.rows y := by
    rw [h.artificialSum_eq, Finset.mul_sum, ← Finset.sum_sub_distrib]
    refine Finset.sum_congr rfl fun k _ => ?_
    rw [rowPrice, sub_mul, ite_mul, zero_mul, mul_ite, mul_zero]
  have hrow : m.tableau.rowSum 0 y =
      ∑ j ∈ Finset.range m.numDecisions, m.tableau.entry 0 j * y j +
        ∑ k ∈ Finset.range q.rows.length,
          m.tableau.entry 0 (m.numDecisions + k) * y (m.numDecisions + k) := by
    rw [Tableau.rowSum, h.rhsCol_eq]
    exact Finset.sum_range_add _ _ _
  rw [Posed.penalized, ← h.columns_eq, hsense, hrow] at hz
  rw [hprices, ← hz]
  ring

/-! ## Prices -/

/-- At tolerance zero the shadow price of a row is its entry of row `0`, without the penalty, in the
sign of the row and of the problem. -/
theorem Describes.value_shadowPrice (h : m.Describes c.bigM q) (ht : c.tolerance = 0) {k : ℕ}
    {row : Constraint ℚ} {a : AuxColumn} (hrow : q.rows[k]? = some row)
    (ha : m.aux[k]? = some a) :
    (m.shadowPrice c k a).value = m.senseSign * (row.rowSign * m.rowPrice c.bigM k) := by
  have hart : m.isArtificial (m.numDecisions + k) = decide (a.kind = .artificial) := by
    rw [isArtificial, auxAt?, if_neg (by omega), Nat.add_sub_cancel_left, ha]
    rfl
  have hneg : a.negated = row.isNegated := by
    have hmap := AuxColumn.negated_ofRows q.rows k
    rwa [← h.aux_eq, ha, hrow, Option.map_some, Option.map_some, Option.some_inj] at hmap
  unfold shadowPrice rowPrice Constraint.rowSign
  simp only [ht, Scalar.clean_zero, hart, hneg, decide_eq_true_eq]
  split_ifs <;> ring

/-- The prices that an analysis reports. -/
theorem Describes.getElem?_prices (h : m.Describes c.bigM q) (ht : c.tolerance = 0)
    (values : List ℚ) (k : ℕ) : (m.analyze c values).prices[k]? =
      q.rows[k]?.map fun row => m.senseSign * (row.rowSign * m.rowPrice c.bigM k) := by
  have hlen : m.aux.length = q.rows.length := by rw [h.aux_eq, AuxColumn.length_ofRows]
  show ((m.aux.mapIdx (m.shadowPrice c)).map (·.value))[k]? = _
  rw [List.getElem?_map, List.getElem?_mapIdx]
  cases hrow : q.rows[k]? with
  | none =>
    rw [List.getElem?_eq_none (hlen.trans_le (List.getElem?_eq_none_iff.1 hrow))]
    rfl
  | some row =>
    have hk : k < m.aux.length := hlen ▸ (List.getElem?_eq_some_iff.1 hrow).1
    have ha := List.getElem?_eq_getElem hk
    rw [ha, Option.map_some, Option.map_some, Option.map_some, h.value_shadowPrice ht hrow ha]

/-- The prices times any values of the rows. -/
theorem Describes.dot_prices (h : m.Describes c.bigM q) (ht : c.tolerance = 0) (values : List ℚ)
    {g : Constraint ℚ → ℚ} {y : ℕ → ℚ}
    (hy : ∀ k row, q.rows[k]? = some row → y k = row.rowSign * g row) :
    Scalar.dot (m.analyze c values).prices (q.rows.map g) =
      m.senseSign * ∑ k ∈ Finset.range q.rows.length, m.rowPrice c.bigM k * y k := by
  rw [Scalar.dot_eq_sum, List.length_map, Finset.mul_sum]
  refine Finset.sum_congr rfl fun k hk => ?_
  have hrow := List.getElem?_eq_getElem (Finset.mem_range.1 hk)
  rw [List.getD_eq_getElem?_getD, List.getD_eq_getElem?_getD, h.getElem?_prices ht,
    List.getElem?_map, hrow, hy k _ hrow]
  simp only [Option.map_some, Option.getD_some]
  ring

/-- Row `0` in terms of prices, for any values of the decision columns. -/
theorem Describes.duality (h : m.Describes c.bigM q) (ht : c.tolerance = 0) (values : List ℚ)
    (x : ℕ → ℚ) : ∑ j ∈ Finset.range m.numDecisions, m.tableau.entry 0 j * x j + m.senseSign *
      (Scalar.dot (m.analyze c values).prices
          (q.rows.map fun row => row.rhs - row.lhs (m.columns.point x)) +
        Scalar.dot q.problem.objective (m.columns.point x)) = m.tableau.objectiveValue := by
  obtain ⟨y, hy, hdec, -⟩ := m.columns.exists_holds q.rows x
  have hpoint : m.columns.point y = m.columns.point x := ColumnMap.point_congr hdec
  have hres : ∀ k row, q.rows[k]? = some row →
      y (m.numDecisions + k) = row.rowSign * (row.rhs - row.lhs (m.columns.point x)) := by
    intro k row hrow
    rw [← hpoint]
    exact hy k row hrow
  have hcols : ∑ j ∈ Finset.range m.numDecisions, m.tableau.entry 0 j * y j =
      ∑ j ∈ Finset.range m.numDecisions, m.tableau.entry 0 j * x j := by
    refine Finset.sum_congr rfl fun j hj => ?_
    rw [hdec j (Finset.mem_range.1 hj)]
  rw [h.dot_prices ht values (y := fun k => y (m.numDecisions + k)) hres, ← h.row_zero hy, hcols,
    hpoint, mul_add, ← mul_assoc, m.senseSign_mul_self, one_mul, add_assoc]

/-- Where the decision columns are zero, the prices times the right-hand sides make the optimal
value. -/
theorem Describes.dot_prices_rhs (h : m.Describes c.bigM q) (ht : c.tolerance = 0)
    (values : List ℚ) : m.senseSign *
      Scalar.dot (m.analyze c values).prices (q.rows.map (·.rhs)) = m.tableau.objectiveValue := by
  have hpoint : ∀ as, Scalar.dot as (m.columns.point 0) = 0 := by
    intro as
    rw [ColumnMap.dot_point]
    exact Finset.sum_eq_zero fun j _ => mul_zero _
  have hdual := h.duality ht values 0
  simp only [Constraint.lhs, hpoint, Pi.zero_apply, mul_zero, Finset.sum_const_zero, sub_zero,
    add_zero, zero_add] at hdual
  exact hdual

/-- Where the first column of a variable is one, the difference is the coefficient of the variable
less the prices times its column. -/
theorem Describes.entry_zero_eq (h : m.Describes c.bigM q) (ht : c.tolerance = 0)
    (values : List ℚ) {i : ℕ} (hi : i < m.columns.numVariables) :
    m.tableau.entry 0 (totalWidth (m.columns.placements.take i)) = -(m.senseSign *
      (m.columns.sign i * (q.problem.objective.getD i 0 -
        Scalar.dot (m.analyze c values).prices (q.rows.map (·.coefficients.getD i 0))))) := by
  have hf := ColumnMap.firstColumn_lt hi
  generalize hcol : totalWidth (m.columns.placements.take i) = f at hf ⊢
  have hcols : ∑ j ∈ Finset.range m.numDecisions,
      m.tableau.entry 0 j * (if j = f then 1 else 0) = m.tableau.entry 0 f := by
    simp only [mul_ite, mul_one, mul_zero]
    rw [Finset.sum_ite_eq']
    exact if_pos (Finset.mem_range.2 hf)
  have hdual := h.duality ht values fun j => if j = f then 1 else 0
  rw [hcols, ← hcol] at hdual
  simp only [Constraint.lhs, ColumnMap.dot_point_single hi, Scalar.dot_map_sub_mul] at hdual
  rw [← h.dot_prices_rhs ht values, hcol] at hdual
  linarith

/-! ## Reduced costs -/

/-- At tolerance zero the reduced cost of a variable is the entry of row `0` in its first column, in
the sign of the variable and of the problem, whether the column is basic or not. -/
theorem Describes.reducedCost_eq (h : m.Describes c.bigM q) (ht : c.tolerance = 0) {i : ℕ}
    (hi : i < m.columns.numVariables) (value : ℚ) : (m.reducedCost c i value).reducedCost =
      -(m.senseSign * (m.columns.sign i *
        m.tableau.entry 0 (totalWidth (m.columns.placements.take i)))) := by
  have hf := ColumnMap.firstColumn_lt hi
  have hlt : totalWidth (m.columns.placements.take i) < m.tableau.rhsCol := by
    rw [h.rhsCol_eq]
    omega
  have hcol : (m.columns.firstColumn? i).getD 0 = totalWidth (m.columns.placements.take i) := by
    rw [ColumnMap.firstColumn?, if_pos hi]
    rfl
  unfold reducedCost
  simp only [hcol, ht, Scalar.clean_zero]
  split_ifs with hbasic
  · obtain ⟨row, hrow⟩ := Option.isSome_iff_exists.1 (Bool.and_eq_true_iff.1 hbasic).2
    have hb := (Tableau.basicRow_eq_some hlt).1 hrow
    rw [hb.zero 0 hb.pos.ne]
    ring
  · ring

/-- At an optimum the reduced cost of a variable has the sign that its restriction asks for. -/
theorem Represents.costs (h : m.Represents c.bigM q) (ht : c.tolerance = 0)
    (hs : m.Shows m.tableau .done) {i : ℕ} {x : Variable ℚ} (hx : q.problem.vars[i]? = some x)
    (value : ℚ) : x.restriction.Costs
      (PrimalSimplex.ofMaximized q.problem.sense (m.reducedCost c i value).reducedCost) := by
  have hplace : m.columns.placements[i]? = some x.restriction.placement := by
    rw [h.columns_eq]
    exact (List.getElem?_map ..).trans (by rw [hx]; rfl)
  have hi : i < m.columns.numVariables := (List.getElem?_eq_some_iff.1 hplace).1
  obtain ⟨-, hred⟩ := hs
  have hnonneg : ∀ j < m.columns.numColumns, 0 ≤ m.tableau.entry 0 j := fun j hj =>
    hred j (by rw [h.rhsCol_eq]; omega) (isArtificial_of_lt (m := m) hj)
  have hsense : q.problem.sense = m.problem.sense := by rw [h.problem_eq]; rfl
  rw [hsense, m.ofMaximized_eq, h.describes.reducedCost_eq ht hi, mul_neg, ← mul_assoc,
    m.senseSign_mul_self, one_mul]
  obtain ⟨hle, -⟩ := ColumnMap.getElem?_point hplace 0
  have hsplit := fun hv => h.entry_add_entry (v := i) hv 0
  have hsign : (m.columns.sign i : ℚ) =
      if x.restriction.placement = .negated then -1 else 1 := by
    rw [ColumnMap.sign, hplace]
    cases x.restriction.placement <;> rfl
  rw [hsign]
  generalize totalWidth (m.columns.placements.take i) = f at hle hsplit ⊢
  cases hr : x.restriction with
  | nonPositive =>
    rw [hr] at hle
    have := hnonneg f hle
    simpa [Restriction.Costs, Restriction.placement] using this
  | unrestricted =>
    rw [hr] at hle hplace
    have hle : f + 2 ≤ m.columns.numColumns := hle
    have h0 := hnonneg f (by omega)
    have h1 := hnonneg (f + 1) (by omega)
    have hsum := hsplit hplace
    have : m.tableau.entry 0 f = 0 := by
      dsimp only at hsum
      linarith
    simpa [Restriction.Costs, Restriction.placement] using this
  | nonNegative | integer | binary | continuous =>
    rw [hr] at hle
    have := hnonneg f hle
    simpa [Restriction.Costs, Restriction.placement] using this

/-- At an optimum the price of a row has the sign that its relation asks for. -/
theorem Represents.prices (h : m.Represents c.bigM q) (hs : m.Shows m.tableau .done) {k : ℕ}
    {row : Constraint ℚ} (hrow : q.rows[k]? = some row) : row.relation.Prices
      (PrimalSimplex.ofMaximized q.problem.sense
        (m.senseSign * (row.rowSign * m.rowPrice c.bigM k))) := by
  have hsense : q.problem.sense = m.problem.sense := by rw [h.problem_eq]; rfl
  have hlt : m.numDecisions + k < m.tableau.rhsCol := by
    have hk := (List.getElem?_eq_some_iff.1 hrow).1
    rw [h.rhsCol_eq]
    exact Nat.add_lt_add_left hk _
  have hnonneg : row.relation ≠ .eq → 0 ≤ m.rowPrice c.bigM k := by
    intro hne
    have hart : m.isArtificial (m.numDecisions + k) = false := by
      refine Bool.eq_false_iff.2 fun ha => hne ?_
      obtain ⟨row', hrow', heq⟩ := (isArtificial_iff h.aux_eq k).1 ha
      rw [Option.some.inj (hrow.symm.trans hrow'), heq]
    obtain ⟨-, hred⟩ := hs
    rw [rowPrice, hart, if_neg Bool.false_ne_true, sub_zero]
    exact hred _ hlt hart
  rw [hsense, m.ofMaximized_eq, ← mul_assoc, m.senseSign_mul_self, one_mul]
  cases hrel : row.relation with
  | le =>
    have := hnonneg (by rw [hrel]; exact Relation.noConfusion)
    simpa [Relation.Prices, Constraint.rowSign, Constraint.isNegated, hrel] using this
  | ge =>
    have := hnonneg (by rw [hrel]; exact Relation.noConfusion)
    simpa [Relation.Prices, Constraint.rowSign, Constraint.isNegated, hrel] using this
  | eq => trivial

/-- What represents a problem differs in the tableau only. -/
theorem Represents.eq_of_tableau {m' : Model ℚ} (h : m.Represents bigM q)
    (h' : m'.Represents bigM q) (ht : m.tableau = m'.tableau) : m = m' := by
  obtain ⟨problem, columns, tableau, aux, counts⟩ := m
  obtain ⟨problem', columns', tableau', aux', counts'⟩ := m'
  obtain rfl : problem = problem' := h.problem_eq.trans h'.problem_eq.symm
  obtain rfl : columns = columns' := h.columns_eq.trans h'.columns_eq.symm
  obtain rfl : aux = aux' := h.aux_eq.trans h'.aux_eq.symm
  obtain rfl : counts = counts' := h.counted.trans h'.counted.symm
  obtain rfl : tableau = tableau' := ht
  rfl

/-- The analysis of an optimum that a model represents is a dual solution. -/
theorem Represents.certifies (h : m.Represents c.bigM q) (ht : c.tolerance = 0)
    (hs : m.Shows m.tableau .done) : (m.analyze c (m.variableValues c.tolerance)).Certifies q
      (PrimalSimplex.ofMaximized m.problem.sense m.tableau.objectiveValue) := by
  have hdesc := h.describes
  have hn : m.columns.numVariables = q.problem.numVariables := by
    rw [h.columns_eq]
    exact List.length_map _
  have hlen : (m.variableValues c.tolerance).length = m.columns.numVariables :=
    ColumnMap.length_gatherAll _ _
  -- a reduced cost that is reported is that of a variable
  have hcost : ∀ (i : ℕ) (r : ReducedCost ℚ),
      (m.analyze c (m.variableValues c.tolerance)).reducedCosts[i]? = some r →
        i < m.columns.numVariables ∧ ∃ value, r = m.reducedCost c i value := by
    intro i r hr
    have hr : ((m.variableValues c.tolerance).mapIdx (m.reducedCost c))[i]? = some r := hr
    rw [List.getElem?_mapIdx] at hr
    obtain ⟨value, hvalue, rfl⟩ := Option.map_eq_some_iff.1 hr
    exact ⟨hlen ▸ (List.getElem?_eq_some_iff.1 hvalue).1, value, rfl⟩
  refine ⟨?_, ?_, ?_, fun i r hr => ?_, fun k row price hrow hprice => ?_, fun i x r hx hr => ?_⟩
  · show ((m.aux.mapIdx (m.shadowPrice c)).map (·.value)).length = _
    rw [List.length_map, List.length_mapIdx, h.aux_eq, AuxColumn.length_ofRows]
  · show ((m.variableValues c.tolerance).mapIdx (m.reducedCost c)).length = _
    rw [List.length_mapIdx, hlen, hn]
  · rw [m.ofMaximized_eq, ← hdesc.dot_prices_rhs ht (m.variableValues c.tolerance), ← mul_assoc,
      m.senseSign_mul_self, one_mul]
  · obtain ⟨hi, value, rfl⟩ := hcost i r hr
    refine ⟨rfl, ?_⟩
    rw [hdesc.reducedCost_eq ht hi, hdesc.entry_zero_eq ht (m.variableValues c.tolerance) hi]
    linear_combination (q.problem.objective.getD i 0 -
      Scalar.dot (m.analyze c (m.variableValues c.tolerance)).prices
        (q.rows.map (·.coefficients.getD i 0))) *
      (m.senseSign * m.senseSign * m.columns.sign_mul_self i + m.senseSign_mul_self)
  · rw [hdesc.getElem?_prices ht, hrow] at hprice
    obtain rfl := Option.some.inj hprice
    exact h.prices hs hrow
  · obtain ⟨-, value, rfl⟩ := hcost i r hr
    exact h.costs ht hs hx value

end Model

/-! ## Optima of the solver -/

namespace DualSimplex

variable {c : Config ℚ} {d : DualSimplex ℚ} {o : Option (Posed ℚ)}

/-- The session of a solver that keeps track represents the problem that stands. -/
theorem Tracks.represents {q : Posed ℚ} (h : Tracks c d (some q)) {s : Session ℚ}
    (hs : d.session = some s) : s.model.Represents c.bigM q := by
  cases h with
  | session hrep => exact Option.some.inj hs ▸ hrep

/-- After any history of requests, the analysis of an optimum is a dual solution of the optimal
value to the problem that stands. -/
theorem optimal_certifies (ht : c.tolerance = 0) (history : List (Request ℚ × Journal ℚ))
    {r : Request ℚ} {j : Journal ℚ} (hr : ∀ p j', (.solve p, j') ∈ history ++ [(r, j)] → p.Indexed)
    {sol : Solution ℚ} (hsol : ((run ⟨c, none⟩ history).request r j).result = .ok sol)
    (hopt : sol.status = .optimal) :
    ∃ q v a, Request.posed (history ++ [(r, j)]) = some q ∧ sol.optimalValue = some v ∧
      sol.analysis = some a ∧ a.Certifies q v := by
  obtain ⟨q, m, hposed, -, hrep, hans⟩ := answers_of_history ht history hr hsol
  obtain ⟨hshows, -, hvalue, -, htableau⟩ := hans.of_optimal hopt
  have htracks : Tracks c ((run ⟨c, none⟩ history).request r j).state (some q) := by
    have := Tracks.run ht (history ++ [(r, j)])
    rwa [hposed, run, List.foldl_append] at this
  have hconfig : (run ⟨c, none⟩ history).config = c := (Tracks.run ht history).config_eq
  -- the model that answers is that of the session, because both represent the problem
  obtain ⟨s, trail, verdict, hsession, hconclude⟩ := request_eq_ok hsol
  rw [hconfig] at hconclude
  have hs := htracks.represents hsession
  obtain ⟨htab, hanalysis⟩ := Model.conclude_optimal (hconclude ▸ hopt)
  rw [← hconclude] at htab hanalysis
  have hmodel : m = s.model := hrep.eq_of_tableau hs (Option.some.inj (htableau.symm.trans htab))
  rw [← hmodel] at hanalysis
  exact ⟨q, _, _, hposed, hvalue, hanalysis, hrep.certifies ht hshows⟩

/-- The least `2 x₁ + 3 x₂ - x₃` with a free `x₂` and a binary `x₃`, under `x₁ + x₂ ≥ 4` and
`x₁ - x₂ + x₃ = 1`, and then with `x₂ ≥ 3`: the value `14` is `2 · 1 - 3 · 1 + 5 · 3`. -/
theorem optimal_certifies_mixed :
    let p : Problem ℚ :=
      { sense := .minimize
        vars := [⟨0, 2, .nonNegative⟩, ⟨1, 3, .unrestricted⟩, ⟨2, -1, .binary⟩]
        constraints := [⟨[1, 1, 0], .ge, 4⟩, ⟨[1, -1, 1], .eq, 1⟩] }
    let bound : Request ℚ := .add ⟨[0, 1], .ge, 3⟩
    let j : Journal ℚ := {}
    ∃ sol a, ((run ⟨.exact, none⟩ [(.solve p, j)]).request bound j).result = .ok sol ∧
      sol.status = .optimal ∧ sol.analysis = some a ∧ a.prices = [0, 2, -3, 5] ∧
      a.Certifies ⟨p, [⟨[0, 1], .ge, 3⟩]⟩ 14 := by
  intro p bound j
  have hrun : ((run ⟨.exact, none⟩ [(.solve p, j)]).request bound j).result.toOption.map
      (fun sol => (sol.status, sol.optimalValue, sol.analysis.map (·.prices))) =
        some (.optimal, some 14, some [0, 2, -3, 5]) := by decide +kernel
  have hindexed : ∀ p' j', (.solve p', j') ∈ [(.solve p, j)] ++ [(bound, j)] → p'.Indexed := by
    intro p' j' hp
    obtain ⟨rfl, -⟩ : p' = p ∧ j' = j := by simpa [bound] using hp
    intro i x hx
    match i, hx with
    | 0, hx | 1, hx | 2, hx => rw [← Option.some.inj hx]
  obtain ⟨sol, hsol, hread⟩ := exists_ok_of_map hrun
  obtain ⟨hopt, hvalue, hprices⟩ : sol.status = .optimal ∧ sol.optimalValue = some 14 ∧
      sol.analysis.map (·.prices) = some [0, 2, -3, 5] := by simpa using hread
  obtain ⟨q, v, a, hq, hv, ha, hcert⟩ := optimal_certifies rfl _ hindexed hsol hopt
  obtain rfl : v = 14 := Option.some.inj (hv.symm.trans hvalue)
  obtain rfl : q = ⟨p, [⟨[0, 1], .ge, 3⟩]⟩ := Option.some.inj (hq.symm.trans rfl)
  rw [ha] at hprices
  exact ⟨sol, a, hsol, hopt, ha, Option.some.inj hprices, hcert⟩

end DualSimplex
end LinOpt
