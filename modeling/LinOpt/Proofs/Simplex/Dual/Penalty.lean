import Mathlib.Data.Finite.Prod
import LinOpt.Proofs.Simplex.Dual.History
import LinOpt.Proofs.Tableau.Corners

/-!
# How large the penalty must be

With equalities a positive artificial column at the end need not mean that there is no feasible
point, since the penalty on artificial columns is finite and these columns are barred from entering
again. But from some penalty on it does (`Posed.exists_penalty`), wherever the second phase ends,
with an optimum or with a column that nothing limits.

The reason is that the end of the second phase shows a bound on the penalized objective over the
region, in terms of two corners of the equations of the problem (`Model.Stands.exists_corners`): the
basic solution and the one with the entering column raised. The equations do not depend on the
penalty, so their corners are finitely many for all runs together, and a penalty that outweighs the
objective at those with positive artificial columns (`exists_outweighing`) brings the bound below
the value of a feasible point.

So a problem that is called infeasible is so if the penalty is large enough
(`DualSimplex.exists_infeasible_sound`). A problem that is called unbounded may have no feasible
point, because the second phase does not look at artificial columns then; it has one if they are
zero, and for large penalties only then (`DualSimplex.exists_unbounded_feasible`).
-/

namespace LinOpt

open Tableau (corners finite_corners)

/-! ## Artificial columns -/

namespace ColumnMap

variable {m : ColumnMap} {rows : List (Constraint ℚ)} {y y' : ℕ → ℚ}

/-- Higher values of the artificial columns have a higher sum. -/
theorem artificialSum_mono (h : ∀ j, y j ≤ y' j) :
    m.artificialSum rows y ≤ m.artificialSum rows y' := by
  refine Finset.sum_le_sum fun k _ => ?_
  split_ifs
  exacts [h _, le_rfl]

/-- The sum is positive if one artificial column is, and none is negative. -/
theorem artificialSum_pos (hy : ∀ j, 0 ≤ y j) {k : ℕ} {row : Constraint ℚ}
    (hk : rows[k]? = some row) (heq : row.relation = .eq) (hpos : 0 < y (m.numColumns + k)) :
    0 < m.artificialSum rows y := by
  have hlt : k < rows.length := (List.getElem?_eq_some_iff.1 hk).1
  refine Finset.sum_pos' (fun i _ => ?_) ⟨k, Finset.mem_range.2 hlt, ?_⟩
  · split_ifs
    exacts [hy _, le_rfl]
  · rw [hk, Option.any_some, if_pos (decide_eq_true heq)]
    exact hpos

end ColumnMap

namespace Posed

variable {q : Posed ℚ}

/-- The penalty apart from the objective. -/
theorem penalized_eq (q : Posed ℚ) (bigM : ℚ) (y : ℕ → ℚ) : q.penalized bigM y =
    q.penalized 0 y - bigM * (ColumnMap.ofProblem q.problem).artificialSum q.rows y := by
  unfold penalized
  ring

/-- The column values of a feasible point are in the region of every model of the problem, because
all have the same artificial columns. -/
theorem exists_mem_regions (hq : q.problem.Indexed) {x : List ℚ} (hx : q.current.Feasible x) :
    ∃ y : ℕ → ℚ, ∀ (bigM : ℚ) (m : Model ℚ), m.Represents bigM q →
      y ∈ m.Region ((ColumnMap.ofProblem q.problem).Holds q.rows) := by
  let frame : Model ℚ :=
    { problem := q.current
      columns := .ofProblem q.problem
      tableau := { objective := [], constraints := [] }
      aux := AuxColumn.ofRows q.rows
      counts := {} }
  obtain ⟨y, ⟨hE, hpos, hart⟩, -⟩ := exists_region (m := frame) hq rfl rfl hx
  refine ⟨y, fun bigM m hm => ⟨hE, hpos, fun j hj => hart j ?_⟩⟩
  obtain ⟨k, row, rfl, hrow, heq⟩ := hm.exists_equality hj
  rw [hm.columns_eq]
  exact (Model.isArtificial_iff (m := frame) rfl k).2 ⟨row, hrow, heq⟩

end Posed

/-! ## The end of the second phase -/

namespace Model

variable {m : Model ℚ} {E : (ℕ → ℚ) → Prop} {z : (ℕ → ℚ) → ℚ} {bigM : ℚ} {q : Posed ℚ}

/-- An artificial column that shows a positive value is basic in a row that has it. -/
theorem Represents.exists_basic_artificial (h : m.Represents bigM q) {name : ColumnName}
    (hart : m.positiveArtificial? 0 = some name) :
    ∃ i j, m.tableau.Basic i j ∧ m.isArtificial j ∧ 0 < m.tableau.rhs i := by
  obtain ⟨j, hj, hpos⟩ := exists_isArtificial hart
  have hlt : j < m.tableau.rhsCol := by
    obtain ⟨k, row, rfl, hrow, -⟩ := h.exists_equality hj
    rw [h.rhsCol_eq]
    exact Nat.add_lt_add_left (List.getElem?_eq_some_iff.1 hrow).1 _
  obtain ⟨i, hi, hrhs⟩ := exists_basic_of_artificial hj hlt hpos.ne'
  exact ⟨i, j, hi, hj, hrhs ▸ hpos⟩

/-- The least entry of row `0` bounds the objective over the region; artificial columns do not
count. -/
theorem Stands.le_objectiveValue_sub (h : m.Stands E z) {a : ℚ}
    (hleast : ∀ j, j < m.tableau.rhsCol → m.isArtificial j = false → a ≤ m.tableau.entry 0 j)
    {y : ℕ → ℚ} (hy : y ∈ m.Region E) :
    z y ≤ m.tableau.objectiveValue - a * ∑ j ∈ Finset.range m.tableau.rhsCol, y j := by
  obtain ⟨hE, hpos, hart⟩ := hy
  refine h.states.le_objectiveValue_sub hE hpos fun j hj hne => hleast j hj ?_
  exact Bool.eq_false_iff.2 fun ha => hne (hart j ha)

/-- The tableau shows what the second phase ends with. -/
def Finished (m : Model ℚ) : Prop :=
  m.Shows m.tableau .done ∨ ∃ c name, m.Shows m.tableau (.unbounded c name)

/-- A finished tableau has no negative right-hand side. -/
theorem Finished.rhs_nonneg (h : m.Finished) (i : ℕ) : 0 ≤ m.tableau.rhs (i + 1) := by
  rcases h with h | ⟨c, name, h⟩
  · exact h.rhs_nonneg i
  · cases h with
    | unbounded hrhs => exact hrhs i

/-- Where the second phase ends there are two corners, the second above the first, that bound the
objective over the region. The first may be chosen to have the right-hand side of a row in any
column that is basic there. -/
theorem Stands.exists_corners (h : m.Stands E z) (hm : m.Finished) {i j : ℕ}
    (hij : m.tableau.Basic i j) :
    ∃ y ∈ corners E m.tableau.rhsCol, ∃ y' ∈ corners E m.tableau.rhsCol,
      (∀ k, 0 ≤ y k) ∧ (∀ k, y k ≤ y' k) ∧ y j = m.tableau.rhs i ∧
      ∀ x ∈ m.Region E,
        z x ≤ z y + (z y' - z y) * ∑ k ∈ Finset.range m.tableau.rhsCol, x k := by
  -- of the columns that are basic in row `i`, `j` is the one chosen
  obtain ⟨B, hB⟩ := h.basis.exists_isBasis
  have hB := hB.update hij
  obtain ⟨y, hE, hz, hy⟩ := h.states.exists_isBasicSolution hB
  have hmem := hy.mem_corners h.states hB hE
  have hnonneg := hy.nonneg hm.rhs_nonneg
  have hyj : y j = m.tableau.rhs i := by
    have hi := hy.eq_rhs i hij.pos hij.row_lt
    rwa [Function.update_self] at hi
  rcases hm with hs | ⟨c, name, hs⟩
  · refine ⟨y, hmem, y, hmem, hnonneg, fun _ => le_rfl, hyj, fun x hx => ?_⟩
    rw [sub_self, zero_mul, add_zero, hz]
    exact h.le_optimum hs hx
  · cases hs with
    | unbounded hrhs hc h0 hcol hart hleast =>
      obtain ⟨y', hmem', hz', hle⟩ := hy.exists_raised_corner h.states hB hc h0.ne hcol
      refine ⟨y, hmem, y', hmem', hnonneg, hle, hyj, fun x hx => ?_⟩
      have hbound := h.le_objectiveValue_sub hleast hx
      rw [hz, hz']
      linarith

/-- Where the second phase ends with a positive artificial column, the two corners can be chosen
with a positive penalty. -/
theorem Represents.exists_penalized_corners (h : m.Represents bigM q) (hm : m.Finished)
    {name : ColumnName} (hart : m.positiveArtificial? 0 = some name) :
    let columns := ColumnMap.ofProblem q.problem
    let n := columns.numColumns + q.rows.length
    ∃ y ∈ corners (columns.Holds q.rows) n, ∃ y' ∈ corners (columns.Holds q.rows) n,
      0 < columns.artificialSum q.rows y ∧
      columns.artificialSum q.rows y ≤ columns.artificialSum q.rows y' ∧
      ∀ x ∈ m.Region (columns.Holds q.rows), q.penalized bigM x ≤ q.penalized bigM y +
        (q.penalized bigM y' - q.penalized bigM y) * ∑ k ∈ Finset.range n, x k := by
  intro columns n
  obtain ⟨i, j, hij, hj, hpos⟩ := h.exists_basic_artificial hart
  obtain ⟨k, row, rfl, hrow, heq⟩ := h.exists_equality hj
  have hn : m.tableau.rhsCol = n := by rw [h.rhsCol_eq, h.columns_eq]
  have hstands := h.stands
  rw [h.columns_eq] at hstands hij
  obtain ⟨y, hy, y', hy', hnonneg, hle, hyj, hbound⟩ := hstands.exists_corners hm hij
  rw [hn] at hy hy' hbound
  refine ⟨y, hy, y', hy', ?_, ColumnMap.artificialSum_mono hle, hbound⟩
  exact ColumnMap.artificialSum_pos hnonneg hrow heq (hyj ▸ hpos)

/-- There is a feasible point where no right-hand side is negative and no artificial column positive.
-/
theorem Represents.exists_feasible (h : m.Represents bigM q) (hq : q.problem.Indexed)
    (hrhs : ∀ i, 0 ≤ m.tableau.rhs (i + 1)) (hart : m.positiveArtificial? 0 = none) :
    ∃ x, q.current.Feasible x := by
  obtain ⟨y, hy, -⟩ := h.stands.exists_mem_region hrhs hart
  exact ⟨_, Posed.feasible_point hq h.columns_eq h.aux_eq hy⟩

end Model

/-! ## The penalty -/

/-- Over finitely many assignments a penalty on one value outweighs a rate of growth in the other as
soon as it is large enough. -/
theorem exists_outweighing {V : Set (ℕ → ℚ)} (hV : V.Finite) (value penalty : (ℕ → ℚ) → ℚ)
    (s b : ℚ) :
    ∃ M₀, 0 ≤ M₀ ∧ ∀ M, M₀ ≤ M → ∀ y ∈ V, ∀ y' ∈ V, 0 < penalty y →
      value y + (value y' - value y) * s - M * penalty y < b := by
  obtain ⟨K, hK⟩ := (hV.image2
    (fun y y' => (value y + (value y' - value y) * s - b) / penalty y) hV).bddAbove
  refine ⟨max 0 (K + 1), le_max_left _ _, fun M hM y hy y' hy' hpos => ?_⟩
  have hlt : (value y + (value y' - value y) * s - b) / penalty y < M :=
    lt_of_le_of_lt (hK (Set.mem_image2_of_mem hy hy'))
      ((lt_add_one K).trans_le ((le_max_right _ _).trans hM))
  rw [div_lt_iff₀ hpos] at hlt
  linarith

/-- If the problem has a feasible point, from some penalty on no artificial column is positive where
the second phase ends. -/
theorem Posed.exists_penalty {q : Posed ℚ} (hq : q.problem.Indexed) :
    ∃ M₀, ∀ bigM, M₀ ≤ bigM → ∀ m : Model ℚ, m.Represents bigM q →
      m.Finished → (∃ x, q.current.Feasible x) → m.positiveArtificial? 0 = none := by
  by_cases hfeasible : ∃ x, q.current.Feasible x
  swap
  · exact ⟨0, fun _ _ _ _ _ hx => absurd hx hfeasible⟩
  obtain ⟨x, hx⟩ := hfeasible
  obtain ⟨y₀, hy₀⟩ := exists_mem_regions hq hx
  let columns := ColumnMap.ofProblem q.problem
  let total := ∑ k ∈ Finset.range (columns.numColumns + q.rows.length), y₀ k
  obtain ⟨M₀, hM₀, houtweigh⟩ := exists_outweighing
    (finite_corners (columns.Holds q.rows) (columns.numColumns + q.rows.length)) (q.penalized 0)
    (columns.artificialSum q.rows) total (q.penalized 0 y₀)
  refine ⟨M₀, fun bigM hM m hm hfinished _ => ?_⟩
  cases hname : m.positiveArtificial? 0 with
  | none => rfl
  | some name =>
    exfalso
    obtain ⟨y, hy, y', hy', hpos, hle, hbound⟩ := hm.exists_penalized_corners hfinished hname
    have hregion := hy₀ bigM m hm
    have hlt := houtweigh bigM hM y hy y' hy' hpos
    have htotal : 0 ≤ total := Finset.sum_nonneg fun k _ => hregion.2.1 k
    -- going to the second corner does not lower the penalty
    have hgain := mul_nonneg (mul_nonneg (hM₀.trans hM) (sub_nonneg.2 hle)) htotal
    have hbound := hbound y₀ hregion
    have hfree : q.penalized bigM y₀ = q.penalized 0 y₀ := by
      rw [penalized_region hm.columns_eq hm.aux_eq bigM hregion.2.2,
        penalized_region hm.columns_eq hm.aux_eq 0 hregion.2.2]
    rw [hfree, q.penalized_eq bigM y, q.penalized_eq bigM y'] at hbound
    linarith

/-! ## Answers of the solver -/

namespace DualSimplex

variable {p : Problem ℚ}

/-- What a solver answers to a problem is what the model of its session shows, which represents the
problem. -/
theorem solve_answers {d : DualSimplex ℚ} (ht : d.config.tolerance = 0) {j : Journal ℚ}
    {sol : Solution ℚ} (h : (d.solve p j).result = .ok sol) :
    ∃ s, (d.solve p j).state.session = some s ∧ s.model.Represents d.config.bigM ⟨p, []⟩ ∧
      s.model.Answers sol := by
  unfold solve at h ⊢
  cases hstart : Session.start d.config p j with
  | error e =>
    rw [hstart] at h
    cases h
  | ok started =>
    obtain ⟨s, j'⟩ := started
    rw [hstart] at h
    obtain ⟨hrep, hans⟩ := Session.optimize_represents ht (Session.start_represents hstart) j'
    exact ⟨_, rfl, hrep, hans sol h⟩

/-- From some penalty on, a problem that is called infeasible has no feasible point, whether a row
shows it or a positive artificial column. -/
theorem exists_infeasible_sound (hp : p.Indexed) :
    ∃ M₀, ∀ (d : DualSimplex ℚ) (j : Journal ℚ) (sol : Solution ℚ), d.config.tolerance = 0 →
      M₀ ≤ d.config.bigM → (d.solve p j).result = .ok sol → sol.status = .infeasible →
      ∀ x, ¬p.Feasible x := by
  obtain ⟨M₀, hpenalty⟩ := Posed.exists_penalty (q := ⟨p, []⟩) hp
  refine ⟨M₀, fun d j sol ht hM hsol hinf x hx => ?_⟩
  obtain ⟨s, -, hrep, hans⟩ := solve_answers ht hsol
  rw [← Posed.current_nil p] at hx
  cases hans with
  | optimal hstatus | unbounded hstatus | stopped hstatus =>
    rw [hinf] at hstatus
    cases hstatus
  | infeasible _ _ hshows => exact hrep.not_feasible_of_row hp hshows x hx
  | artificial _ _ hart hshows =>
    cases hart.symm.trans (hpenalty _ hM _ hrep (.inl hshows) ⟨x, hx⟩)

/-- The least `x₁` with `0 x₁ = 1`: the artificial column of the row stays positive with every
penalty. -/
theorem exists_infeasible_sound_zero_row :
    let p : Problem ℚ :=
      { Problem.ofObjective .maximize [-1] with constraints := [⟨[0], .eq, 1⟩] }
    ∃ bigM sol, 0 < bigM ∧
      ((⟨{ Config.exact with bigM }, none⟩ : DualSimplex ℚ).solve p {}).result = .ok sol ∧
      sol.status = .infeasible ∧ ∀ x, ¬p.Feasible x := by
  intro p
  obtain ⟨M₀, hsound⟩ :=
    exists_infeasible_sound (p := p) (Problem.Indexed.ofObjective .maximize [-1])
  obtain ⟨bigM, hM, hpos⟩ : ∃ bigM : ℚ, M₀ ≤ bigM ∧ 0 < bigM :=
    ⟨max M₀ 1, le_max_left _ _, lt_max_of_lt_right one_pos⟩
  let d : DualSimplex ℚ := ⟨{ Config.exact with bigM }, none⟩
  have hbuild : Model.build bigM p = .ok
      { problem := p
        columns := ⟨[.direct]⟩
        tableau := ⟨[1, 0, -bigM], [[0, 1, 1]]⟩
        aux := [⟨.artificial, 1, false⟩]
        counts := { decision := 1, artificial := 1 } } := by
    have hpenalize : (⟨[1, bigM, 0], [[0, 1, 1]]⟩ : Tableau ℚ).subtractRow 0 1 bigM =
        ⟨[1, 0, -bigM], [[0, 1, 1]]⟩ := by
      simp [Tableau.subtractRow, hpos.ne', Tableau.modifyRow, Tableau.subtractMultiple, Tableau.row,
        Tableau.rows, Tableau.mapRows]
    rw [← hpenalize]
    with_unfolding_all rfl
  have hrun : (d.solve p {}).result.toOption.map (·.status) = some .infeasible := by
    unfold solve Session.start
    simp only [d, hbuild]
    with_unfolding_all rfl
  obtain ⟨sol, hsol, hinf⟩ := exists_ok_of_map hrun
  exact ⟨bigM, sol, hpos, hsol, hinf, hsound d {} sol rfl hM hsol hinf⟩

/-- A problem that is called unbounded has a feasible point if no artificial column is positive at
the end, and from some penalty on only then. -/
theorem exists_unbounded_feasible (hp : p.Indexed) :
    ∃ M₀, ∀ (d : DualSimplex ℚ) (j : Journal ℚ) (sol : Solution ℚ), d.config.tolerance = 0 →
      (d.solve p j).result = .ok sol → sol.status = .unbounded →
      ∃ s, (d.solve p j).state.session = some s ∧
        (s.model.positiveArtificial? 0 = none → ∃ x, p.Feasible x) ∧
        (M₀ ≤ d.config.bigM → (∃ x, p.Feasible x) → s.model.positiveArtificial? 0 = none) := by
  obtain ⟨M₀, hpenalty⟩ := Posed.exists_penalty (q := ⟨p, []⟩) hp
  refine ⟨M₀, fun d j sol ht hsol hunb => ?_⟩
  obtain ⟨s, hs, hrep, hans⟩ := solve_answers ht hsol
  refine ⟨s, hs, ?_⟩
  rw [← Posed.current_nil p]
  cases hans with
  | optimal hstatus | infeasible hstatus | artificial hstatus | stopped hstatus =>
    rw [hunb] at hstatus
    cases hstatus
  | unbounded _ _ hshows =>
    refine ⟨fun hart => ?_, fun hM hx => hpenalty _ hM _ hrep (.inr ⟨_, _, hshows⟩) hx⟩
    cases hshows with
    | unbounded hrhs => exact hrep.exists_feasible hp hrhs hart

/-- `x₁` grows without bound where `x₂ = 1`. -/
theorem exists_unbounded_feasible_ray :
    let p : Problem ℚ :=
      { Problem.ofObjective .maximize [1, 0] with constraints := [⟨[0, 1], .eq, 1⟩] }
    ∃ sol, ((⟨.exact, none⟩ : DualSimplex ℚ).solve p {}).result = .ok sol ∧
      sol.status = .unbounded ∧ ∃ x, p.Feasible x := by
  intro p
  let d : DualSimplex ℚ := ⟨.exact, none⟩
  have hrun : (d.solve p {}).result.toOption.map (·.status) = some .unbounded := by decide +kernel
  have hart : (d.solve p {}).state.session.map (·.model.positiveArtificial? 0) = some none := by
    decide +kernel
  obtain ⟨M₀, hends⟩ :=
    exists_unbounded_feasible (p := p) (Problem.Indexed.ofObjective .maximize [1, 0])
  obtain ⟨sol, hsol, hunb⟩ := exists_ok_of_map hrun
  obtain ⟨s, hs, hfeasible, -⟩ := hends d {} sol rfl hsol hunb
  rw [hs] at hart
  exact ⟨sol, hsol, hunb, hfeasible (Option.some.inj hart)⟩

/-- The greatest `x₁` with `x₂ = -1` and `x₂ ≥ 0` is called unbounded. -/
theorem unbounded_not_feasible :
    let p : Problem ℚ :=
      { Problem.ofObjective .maximize [1, 0] with constraints := [⟨[0, 1], .eq, -1⟩] }
    0 < Config.exact.bigM ∧
      ∃ sol, ((⟨.exact, none⟩ : DualSimplex ℚ).solve p {}).result = .ok sol ∧
        sol.status = .unbounded ∧ ¬∃ x, p.Feasible x := by
  intro p
  let d : DualSimplex ℚ := ⟨.exact, none⟩
  have hrun : (d.solve p {}).result.toOption.map (·.status) = some .unbounded := by decide +kernel
  have hfeasible : ¬∃ x, p.Feasible x := by
    rintro ⟨x, hrestrictions, hconstraints⟩
    obtain ⟨a, x, -, hx, rfl⟩ := List.forall₂_cons_left_iff.1 hrestrictions
    obtain ⟨b, x, hb, hx, rfl⟩ := List.forall₂_cons_left_iff.1 hx
    have hb : 0 ≤ b := hb
    have hrow : b + 1 = 0 := by
      simpa [Constraint.IsSatisfied, Constraint.lhs] using hconstraints _ List.mem_cons_self
    linarith
  obtain ⟨sol, hsol, hunb⟩ := exists_ok_of_map hrun
  exact ⟨by norm_num [Config.exact], sol, hsol, hunb, hfeasible⟩

end DualSimplex
end LinOpt
