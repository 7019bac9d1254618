import LinOpt.Proofs.Simplex.Dual.Build
import LinOpt.Proofs.Simplex.Dual.Phases
import LinOpt.Proofs.Solution.Valuation
import LinOpt.Simplex.Dual.Session

/-!
# What a session answers

An optimization ends with a solution that says what the tableau shows (`Model.Answers`), and the
session goes on from that tableau, which stands for the same as before (`Session.optimize_spec`).

What an answer means is said of the region of the model: an optimum is attained there and not
exceeded (`Stands.exists_mem_region`, `Stands.le_optimum`), a row that shows infeasibility leaves
the region empty (`Stands.region_eq_empty`), and a column that shows unboundedness makes the
objective exceed every bound where no column is artificial (`Stands.exists_gt`).
-/

namespace LinOpt

/-- Settings for exact arithmetic: no tolerance is needed. -/
def Config.exact : Config ℚ := { tolerance := 0, integralityTolerance := 0, bigM := 1000 }

/-- What can be read off a result can be read off the value that it is. -/
theorem exists_ok_of_map {ε α β : Type} {x : Except ε α} {f : α → β} {b : β}
    (h : x.toOption.map f = some b) : ∃ a, x = .ok a ∧ f a = b := by
  cases x with
  | error e => cases h
  | ok a => exact ⟨a, rfl, Option.some.inj h⟩

/-- What is some as an option is a result. -/
theorem eq_ok_of_toOption {ε α : Type} {x : Except ε α} {a : α} (h : x.toOption = some a) :
    x = .ok a := by
  cases x with
  | error e => cases h
  | ok b => rw [Option.some.inj h]

/-- A session starts with the model of its problem and the initial tableau in its trail. -/
theorem Session.start_eq_ok {α : Type} [Scalar α] {c : Config α} {p : Problem α} {j j' : Journal α}
    {s : Session α} (h : start c p j = .ok (s, j')) : ∃ m, Model.build c.bigM p = .ok m ∧
      s = { model := m, trail := c.record .initial (.tableau m.tableau) {} } ∧
      j' = c.emit j (.dualBuilt m.numDecisions m.tableau.numConstraints) := by
  unfold start at h
  cases hbuild : Model.build c.bigM p with
  | error e =>
    rw [hbuild] at h
    cases h
  | ok m =>
    rw [hbuild] at h
    obtain ⟨rfl, rfl⟩ := Prod.mk.inj (Except.ok.inj h)
    exact ⟨m, rfl, rfl, rfl⟩

namespace Model

variable {m : Model ℚ} {E : (ℕ → ℚ) → Prop} {z : (ℕ → ℚ) → ℚ}

/-! ## Reading the tableau -/

/-- A basic column has the right-hand side of its row. -/
theorem columnValue_of_basic {i j : ℕ} (h : m.tableau.Basic i j) :
    m.columnValue 0 j = m.tableau.rhs i := by
  rw [columnValue, (Tableau.basicRow_eq_some h.lt).2 h]

/-- A decision column that is basic in no row has the value zero. -/
theorem columnValue_of_basicRow_eq_none {j : ℕ} (hj : j < m.numDecisions) {tolerance : ℚ}
    (h : m.tableau.basicRow j tolerance = none) : m.columnValue tolerance j = 0 := by
  rw [columnValue, h, auxAt?, if_pos hj]
  rfl

/-- The values of the variables are the point of the column values. -/
theorem variableValues_eq (m : Model ℚ) :
    m.variableValues 0 = m.columns.point (m.columnValue 0) := rfl

/-- If no artificial column shows a positive value, none has one. -/
theorem columnValue_le_of_artificial (h : m.positiveArtificial? 0 = none) {j : ℕ}
    (hj : m.isArtificial j) : m.columnValue 0 j ≤ 0 := by
  rw [positiveArtificial?, Option.map_eq_none_iff, List.find?_eq_none] at h
  rcases Nat.lt_or_ge j m.numDecisions with hlt | hge
  · rw [isArtificial_of_lt hlt] at hj
    cases hj
  · obtain ⟨k, rfl⟩ := Nat.exists_eq_add_of_le hge
    rw [isArtificial, auxAt?, if_neg (by omega), Nat.add_sub_cancel_left] at hj
    obtain ⟨a, ha, hkind⟩ := (Option.any_eq_true _ _).1 hj
    have hmem : (a, m.columnValue 0 (m.numDecisions + k)) ∈ m.auxValues 0 := by
      refine List.mem_of_getElem? (i := k) ?_
      rw [auxValues, List.getElem?_mapIdx, ha]
      rfl
    have hnot := h _ hmem
    simp only [hkind, Bool.true_and, gt_iff_lt, decide_eq_true_eq, not_lt] at hnot
    exact hnot

/-- If an artificial column shows a positive value, there is one that has it. -/
theorem exists_isArtificial {name : ColumnName} (h : m.positiveArtificial? 0 = some name) :
    ∃ j, m.isArtificial j ∧ 0 < m.columnValue 0 j := by
  obtain ⟨e, he, -⟩ := Option.map_eq_some_iff.1 h
  have hkind := List.find?_some he
  obtain ⟨k, hk, rfl⟩ := List.mem_mapIdx.1 (List.mem_of_find?_eq_some he)
  obtain ⟨hart, hpos⟩ := Bool.and_eq_true_iff.1 hkind
  refine ⟨m.numDecisions + k, ?_, of_decide_eq_true hpos⟩
  rw [isArtificial, auxAt?, if_neg (by omega), Nat.add_sub_cancel_left, List.getElem?_eq_getElem hk]
  exact hart

/-- An artificial column has no value but the right-hand side of the row in which it is basic. -/
theorem exists_basic_of_artificial {j : ℕ} (hj : m.isArtificial j) (hlt : j < m.tableau.rhsCol)
    (hvalue : m.columnValue 0 j ≠ 0) :
    ∃ i, m.tableau.Basic i j ∧ m.tableau.rhs i = m.columnValue 0 j := by
  cases hrow : m.tableau.basicRow j 0 with
  | some i =>
    have hi := (Tableau.basicRow_eq_some hlt).1 hrow
    exact ⟨i, hi, (columnValue_of_basic hi).symm⟩
  | none =>
    obtain ⟨a, ha, hkind⟩ := (Option.any_eq_true _ _).1 hj
    rw [columnValue, hrow, ha] at hvalue
    simp [of_decide_eq_true hkind] at hvalue

/-- Pivots go on representing the same problem. -/
theorem Represents.carries {bigM : ℚ} {q : Posed ℚ} (h : m.Represents bigM q) {t : Tableau ℚ}
    (ht : m.Carries (m.columns.Holds q.rows) (q.penalized bigM) t) :
    ({ m with tableau := t } : Model ℚ).Represents bigM q where
  problem_eq := h.problem_eq
  columns_eq := h.columns_eq
  aux_eq := h.aux_eq
  counted := h.counted
  numRows_eq := ht.numRows_eq.trans h.numRows_eq
  stands := ht.stands h.stands

/-! ## What follows from what a tableau shows -/

/-- Without negative right-hand sides and positive artificial columns the basic solution lies in the
region. -/
theorem Stands.exists_mem_region (h : m.Stands E z) (hrhs : ∀ i, 0 ≤ m.tableau.rhs (i + 1))
    (hart : m.positiveArtificial? 0 = none) :
    ∃ y ∈ m.Region E, z y = m.tableau.objectiveValue ∧
      ∀ j, y j = 0 ∨ ∃ i, m.tableau.Basic i j ∧ y j = m.tableau.rhs i := by
  obtain ⟨y, hE, hz, hy⟩ := h.states.exists_basicSolution h.basis
  have hpos : ∀ j, 0 ≤ y j := by
    intro j
    rcases hy j with h0 | ⟨i, hi, hyj⟩
    · exact h0.ge
    · obtain ⟨k, rfl⟩ := Nat.exists_eq_add_one_of_ne_zero hi.pos.ne'
      rw [hyj]
      exact hrhs k
  refine ⟨y, ⟨hE, hpos, fun j hj => ?_⟩, hz, hy⟩
  rcases hy j with h0 | ⟨i, hi, hyj⟩
  · exact h0
  · have hle := columnValue_le_of_artificial hart hj
    rw [columnValue_of_basic hi, ← hyj] at hle
    exact le_antisymm hle (hpos j)

/-- At an optimum nothing in the region exceeds the value that the tableau shows. -/
theorem Stands.le_optimum (h : m.Stands E z) (hs : m.Shows m.tableau .done) {y : ℕ → ℚ}
    (hy : y ∈ m.Region E) : z y ≤ m.tableau.objectiveValue := by
  obtain ⟨-, hred⟩ := hs
  obtain ⟨hE, hpos, hart⟩ := hy
  refine h.states.le_objectiveValue hE hpos fun j hj hne => hred j hj ?_
  exact Bool.eq_false_iff.2 fun ha => hne (hart j ha)

/-- A row that shows infeasibility leaves the region empty. -/
theorem Stands.region_eq_empty (h : m.Stands E z) {row : ℕ} {b : ℚ}
    (hs : m.Shows m.tableau (.infeasible row b)) : m.Region E = ∅ := by
  refine Set.eq_empty_iff_forall_notMem.2 fun y hy => ?_
  obtain ⟨hE, hpos, hart⟩ := hy
  cases hs with
  | infeasible hneg hrow =>
    refine h.states.not_solves_of_row hneg hpos (fun j hj hne => hrow j hj ?_) hE
    exact Bool.eq_false_iff.2 fun ha => hne (hart j ha)

/-- Without artificial columns, a column that shows unboundedness lets the objective exceed every
bound in the region. -/
theorem Stands.exists_gt (h : m.Stands E z) (hart : ∀ j, m.isArtificial j = false) {col : ℕ}
    {name : Option ColumnName} (hs : m.Shows m.tableau (.unbounded col name)) (bound : ℚ) :
    ∃ y ∈ m.Region E, bound < z y := by
  cases hs with
  | unbounded hrhs hc h0 hcol =>
    obtain ⟨y, hE, hpos, hgt⟩ := h.states.exists_gt_of_column h.basis hrhs hc h0 hcol bound
    exact ⟨y, ⟨hE, hpos, fun j hj => absurd hj (by rw [hart j]; exact Bool.false_ne_true)⟩, hgt⟩

/-! ## Answers -/

/-- The values that an optimum reports, by name. -/
def namedValues (m : Model ℚ) : Valuation ℚ :=
  (({} : Valuation ℚ).insertAll ((m.variableValues 0).mapIdx fun i v => (.decision i, v))).insertAll
    ((m.auxValues 0).map fun e => (e.1.name, e.2))

/-- A solution says what the tableau of a model shows. -/
inductive Answers (m : Model ℚ) (s : Solution ℚ) : Prop where
  | optimal (hstatus : s.status = .optimal) (hshows : m.Shows m.tableau .done)
      (hart : m.positiveArtificial? 0 = none)
      (hvalue : s.optimalValue =
        some (PrimalSimplex.ofMaximized m.problem.sense m.tableau.objectiveValue))
      (hvalues : s.values = m.namedValues) (htableau : s.tableau = some m.tableau)
  | infeasible {row : ℕ} {b : ℚ} (hstatus : s.status = .infeasible) (hvalue : s.optimalValue = none)
      (hshows : m.Shows m.tableau (.infeasible row b))
  | artificial {name : ColumnName} (hstatus : s.status = .infeasible)
      (hvalue : s.optimalValue = none) (hart : m.positiveArtificial? 0 = some name)
      (hshows : m.Shows m.tableau .done)
  | unbounded {col : ℕ} {name : Option ColumnName} (hstatus : s.status = .unbounded)
      (hvalue : s.optimalValue = none) (hshows : m.Shows m.tableau (.unbounded col name))
  | stopped (hstatus : s.status = .limitReached) (hvalue : s.optimalValue = none)

/-- An answer with an optimum. -/
theorem Answers.of_optimal {s : Solution ℚ} (h : m.Answers s) (hopt : s.status = .optimal) :
    m.Shows m.tableau .done ∧ m.positiveArtificial? 0 = none ∧
      s.optimalValue = some (PrimalSimplex.ofMaximized m.problem.sense m.tableau.objectiveValue) ∧
      s.values = m.namedValues ∧ s.tableau = some m.tableau := by
  cases h with
  | optimal _ hshows hart hvalue hvalues htableau =>
    exact ⟨hshows, hart, hvalue, hvalues, htableau⟩
  | infeasible hstatus | artificial hstatus | unbounded hstatus | stopped hstatus =>
    rw [hopt] at hstatus
    cases hstatus

/-- The solution of a verdict says what the tableau shows. -/
theorem answers_conclude {c : Config ℚ} (ht : c.tolerance = 0) (trail : Solution ℚ) {v : Verdict ℚ}
    (hs : m.Shows m.tableau v) : m.Answers (m.conclude c trail v) := by
  have hart : m.positiveArtificial? c.tolerance = m.positiveArtificial? 0 := by rw [ht]
  cases v with
  | done =>
    unfold conclude
    dsimp only
    split
    · rename_i name hname
      exact .artificial rfl rfl (hart ▸ hname) hs
    · rename_i hnone
      refine .optimal rfl hs (hart ▸ hnone) rfl ?_ rfl
      show Valuation.insertAll (Valuation.insertAll _ ((m.variableValues c.tolerance).mapIdx
        fun i v => (ColumnName.decision i, Scalar.clean c.tolerance v)))
        ((m.auxValues c.tolerance).map fun e => (e.1.name, Scalar.clean c.tolerance e.2)) = _
      rw [ht]
      simp only [Scalar.clean_zero]
      rfl
  | infeasible row b => exact .infeasible rfl rfl hs
  | unbounded col name => exact .unbounded rfl rfl hs
  | limit phase n => exact .stopped rfl rfl
  | interrupted phase => exact .stopped rfl rfl

/-- The reported values of the variables. -/
theorem namedValues_decision {i : ℕ} {v : ℚ} (h : (m.variableValues 0)[i]? = some v) :
    m.namedValues.get? (.decision i) = some v := by
  have hother : ColumnName.decision i ∉
      ((m.auxValues 0).map fun e => (e.1.name, e.2)).map (·.1) := by
    intro hmem
    obtain ⟨e, he, hei⟩ := List.mem_map.1 hmem
    obtain ⟨a, -, rfl⟩ := List.mem_map.1 he
    cases hei
  rw [namedValues, Valuation.get?_insertAll_of_notMem hother]
  exact Valuation.get?_insertAll_decisions h _

/-- The values that an optimum reports for the variables are those read off the tableau. -/
theorem decisionValues_eq {s : Solution ℚ} (h : s.values = m.namedValues) :
    s.decisionValues m.columns.numVariables = m.variableValues 0 := by
  have hlen : (m.variableValues 0).length = m.columns.numVariables := m.columns.length_point _
  rw [← hlen]
  refine Solution.decisionValues_eq fun i v hv => ?_
  rw [Solution.value?, h, namedValues_decision hv]

/-- The reported values of the auxiliary columns. -/
theorem namedValues_aux {rows : List (Constraint ℚ)} (haux : m.aux = AuxColumn.ofRows rows) {k : ℕ}
    {a : AuxColumn} (h : m.aux[k]? = some a) :
    m.namedValues.get? a.name = some (m.columnValue 0 (m.numDecisions + k)) := by
  have hnames : ((m.auxValues 0).map fun e => (e.1.name, e.2)).map (·.1) =
      m.aux.map AuxColumn.name := by
    refine List.ext_getElem (by simp [auxValues]) fun i _ _ => ?_
    simp [auxValues]
  refine Valuation.get?_insertAll_of_mem (e := (a.name, m.columnValue 0 (m.numDecisions + k))) ?_ ?_
    _
  · rw [hnames, haux]
    exact AuxColumn.nodup_name_ofRows rows
  · refine List.mem_map.2 ⟨(a, m.columnValue 0 (m.numDecisions + k)), ?_, rfl⟩
    refine List.mem_of_getElem? (i := k) ?_
    rw [auxValues, List.getElem?_mapIdx, h]
    rfl

end Model

/-! ## Sessions -/

namespace Session

variable {s : Session ℚ} {c : Config ℚ} {E : (ℕ → ℚ) → Prop} {z : (ℕ → ℚ) → ℚ}

/-- At tolerance zero an optimization changes the tableau of the model only, for one that stands for
the same, and the solution says what it shows. -/
theorem optimize_spec (ht : c.tolerance = 0) (h : s.model.Stands E z) (j : Journal ℚ) :
    let call := s.optimize c j
    (∃ t, call.state.model = { s.model with tableau := t } ∧ s.model.Carries E z t) ∧
      ∀ sol, call.result = .ok sol → call.state.model.Answers sol ∧ call.state.trail = sol := by
  obtain ⟨hcar, hshows⟩ := Progress.phases_spec ht ⟨s.model.tableau, s.trail, s.pivots, j⟩ h.carries
  unfold optimize
  generalize Progress.phases _ c s.model = out at hcar hshows
  obtain ⟨p, verdict⟩ := out
  cases verdict with
  | error e => exact ⟨⟨p.tableau, rfl, hcar⟩, fun sol hsol => (nomatch hsol)⟩
  | ok v =>
    refine ⟨⟨p.tableau, rfl, hcar⟩, fun sol hsol => ?_⟩
    obtain rfl := Except.ok.inj hsol
    exact ⟨Model.answers_conclude ht p.trail ((hshows v rfl).of_model _), rfl⟩

end Session
end LinOpt
