import LinOpt.Proofs.Simplex.Dual.History
import LinOpt.Proofs.Simplex.Primal
import LinOpt.Proofs.Tableau.Reading

/-!
# Solutions that survive a round trip

An optimum survives the round trip if its point is feasible, has the reported value, and leaves
every row the slack that is reported for the row (`Solution.RoundTrips`). The rows are the standard
rows: those of the constraints and those that bound binary variables.

The optimal value always belongs to a feasible point (`Model.Represents.isBest`), but the reported
point need not be that one: the solvers keep no basis and read every column that looks basic, so two
columns that are tied for a row are both given its value. That is the only way in which a round trip
fails: an optimum of the primal method, and one of the dual method after any history of requests,
survives it exactly if the reported tableau has no row with a value from which two columns are read
(`Reported.roundTrips_iff`).
-/

namespace LinOpt

/-- The slack that a point leaves a constraint; none for an equality. -/
def Constraint.slack (c : Constraint ℚ) (x : List ℚ) : ℚ :=
  match c.relation with
  | .le => c.rhs - c.lhs x
  | .ge => c.lhs x - c.rhs
  | .eq => 0

/-- A row that is satisfied has its slack as residual. -/
theorem Constraint.residual_eq_slack {c : Constraint ℚ} {x : List ℚ} (h : c.IsSatisfied x 0) :
    c.residual x = c.slack x := by
  have heq := ((c.isSatisfied_iff x).1 h).2
  unfold slack
  cases hrel : c.relation with
  | le => simp [residual, rowSign, isNegated, hrel]
  | ge => simp [residual, rowSign, isNegated, hrel]
  | eq => exact heq hrel

/-- An optimum as reported: the point is feasible and has the reported value, and the auxiliary
columns `aux` of the rows have their slacks there. -/
structure Solution.RoundTrips (s : Solution ℚ) (q : Posed ℚ) (aux : List AuxColumn) : Prop where
  feasible : q.current.Feasible (s.decisionValues q.problem.numVariables)
  value : s.optimalValue =
    some (q.current.objectiveValue (s.decisionValues q.problem.numVariables))
  slack : ∀ (k : ℕ) (row : Constraint ℚ) (a : AuxColumn), q.rows[k]? = some row → aux[k]? = some a →
    s.value? a.name = some (row.slack (s.decisionValues q.problem.numVariables))

/-- The columns that may show with the sign of a negated row: those of excess kind. -/
def Posed.signed (q : Posed ℚ) (aux : List AuxColumn) (col : ℕ) : Bool :=
  let n := (ColumnMap.ofProblem q.problem).numColumns
  !decide (col < n) && aux[col - n]?.any (·.kind = .excess)

/-! ## What a solution reports of a tableau -/

/-- A solution reports the values read off a tableau: variables from the decision columns, and the
auxiliary columns behind them by name. -/
structure Solution.Reports (s : Solution ℚ) (q : Posed ℚ) (aux : List AuxColumn) (t : Tableau ℚ) :
    Prop where
  decision : ∀ i v,
    ((ColumnMap.ofProblem q.problem).point (t.reading (q.signed aux)))[i]? = some v →
      s.value? (.decision i) = some v
  auxiliary : ∀ k a, aux[k]? = some a → s.value? a.name =
    some (t.reading (q.signed aux) ((ColumnMap.ofProblem q.problem).numColumns + k))

/-- The reported point. -/
theorem Solution.Reports.decisionValues_eq {s : Solution ℚ} {q : Posed ℚ} {aux : List AuxColumn}
    {t : Tableau ℚ} (h : s.Reports q aux t) : s.decisionValues q.problem.numVariables =
      (ColumnMap.ofProblem q.problem).point (t.reading (q.signed aux)) := by
  have hlen : ((ColumnMap.ofProblem q.problem).point (t.reading (q.signed aux))).length =
      q.problem.numVariables := by
    rw [ColumnMap.length_point]
    exact List.length_map _
  rw [← hlen]
  exact Solution.decisionValues_eq h.decision

namespace Model

variable {m : Model ℚ} {bigM : ℚ} {q : Posed ℚ} {signed : ℕ → Bool}

/-- A reading that is read once lies in the region, if no artificial column reads as positive. -/
theorem Represents.reading_mem_region (h : m.Represents bigM q)
    (hrhs : ∀ i, 0 ≤ m.tableau.rhs (i + 1)) (honce : m.tableau.ReadsOnce signed)
    (hart : ∀ j, m.isArtificial j → m.tableau.reading signed j ≤ 0) :
    m.tableau.reading signed ∈ m.Region (m.columns.Holds q.rows) := by
  have hpos := honce.reading_nonneg h.stands.basis hrhs
  refine ⟨?_, hpos, fun j hj => le_antisymm (hart j hj) (hpos j)⟩
  exact (h.stands.states.solves_iff _).1 (h.stands.basis.solves_reading_iff.2 honce)

/-- The values read off the tableau of an optimum are those of a feasible point with its slacks, and
the point has the optimal value, exactly if they are read once. -/
theorem Represents.reading_iff (h : m.Represents bigM q) (hq : q.problem.Indexed)
    (hrhs : ∀ i, 0 ≤ m.tableau.rhs (i + 1))
    (hart : ∀ j, m.isArtificial j → m.tableau.reading signed j ≤ 0) :
    m.tableau.ReadsOnce signed ↔
      let y := m.tableau.reading signed
      q.current.Feasible (m.columns.point y) ∧
        PrimalSimplex.ofMaximized q.current.sense m.tableau.objectiveValue =
          q.current.objectiveValue (m.columns.point y) ∧
        ∀ (k : ℕ) (row : Constraint ℚ), q.rows[k]? = some row →
          y (m.columns.numColumns + k) = row.slack (m.columns.point y) := by
  constructor
  · intro honce
    have hy := h.reading_mem_region hrhs honce hart
    have hfeas := Posed.feasible_point hq h.columns_eq h.aux_eq hy
    refine ⟨hfeas, ?_, fun k row hrow => ?_⟩
    · rw [← h.stands.states.reading_objective hy.1,
        Posed.penalized_region h.columns_eq h.aux_eq bigM hy.2.2, Sense.ofMaximized_ofMaximized]
    · rw [hy.1 k row hrow]
      exact Constraint.residual_eq_slack
        (((Posed.feasible_iff hq).1 hfeas).2 row (List.mem_of_getElem? hrow))
  · rintro ⟨hfeas, -, hslack⟩
    refine h.stands.basis.solves_reading_iff.1
      ((h.stands.states.solves_iff _).2 fun k row hrow => ?_)
    rw [hslack k row hrow]
    exact (Constraint.residual_eq_slack
      (((Posed.feasible_iff hq).1 hfeas).2 row (List.mem_of_getElem? hrow))).symm

/-- An optimal solution that reports the values read off its tableau survives the round trip exactly
if they are read once. -/
theorem Represents.roundTrips_iff_readsOnce {aux : List AuxColumn} {sol : Solution ℚ}
    (h : m.Represents bigM q) (hq : q.problem.Indexed) (hshows : m.Shows m.tableau .done)
    (hart : ∀ j, m.isArtificial j → m.tableau.reading (q.signed aux) j ≤ 0)
    (hlen : q.rows.length = aux.length)
    (hvalue : sol.optimalValue =
      some (PrimalSimplex.ofMaximized q.current.sense m.tableau.objectiveValue))
    (hreports : sol.Reports q aux m.tableau) :
    sol.RoundTrips q aux ↔ m.tableau.ReadsOnce (q.signed aux) := by
  obtain ⟨hrhs, -⟩ := hshows
  rw [h.reading_iff hq hrhs hart, h.columns_eq]
  dsimp only
  rw [← hreports.decisionValues_eq]
  constructor
  · rintro ⟨hfeas, hval, hslack⟩
    refine ⟨hfeas, Option.some.inj (hvalue.symm.trans hval), fun k row hrow => ?_⟩
    have hk : k < aux.length := hlen ▸ (List.getElem?_eq_some_iff.1 hrow).1
    have ha := List.getElem?_eq_getElem hk
    exact Option.some.inj ((hreports.auxiliary k _ ha).symm.trans (hslack k row _ hrow ha))
  · rintro ⟨hfeas, hval, hslack⟩
    refine ⟨hfeas, by rw [hvalue, hval], fun k row a hrow ha => ?_⟩
    rw [hreports.auxiliary k a ha, hslack k row hrow]

/-- What a model reports is read off its tableau. -/
theorem Represents.reading_eq_columnValue (h : m.Represents bigM q) {j : ℕ}
    (hj : j < m.tableau.rhsCol) : m.tableau.reading (q.signed m.aux) j = m.columnValue 0 j := by
  have hn : m.numDecisions = (ColumnMap.ofProblem q.problem).numColumns := by
    rw [numDecisions, h.columns_eq]
  have hsigned : (m.auxAt? j).any (·.kind = .excess) = q.signed m.aux j := by
    rw [auxAt?, Posed.signed, hn]
    by_cases hlt : j < (ColumnMap.ofProblem q.problem).numColumns
    · simp [hlt]
    · simp [hlt]
  rw [Tableau.reading, if_pos hj, columnValue]
  cases m.tableau.basicRow j 0 with
  | some i => rfl
  | none => cases m.tableau.unitRow j (-1) 0 <;> simp only [hsigned]

/-- The answer of the dual method reports the values read off its tableau. -/
theorem Represents.reports (h : m.Represents bigM q) {sol : Solution ℚ}
    (hvalues : sol.values = m.namedValues) :
    sol.Reports q m.aux m.tableau := by
  have hn : m.columns.numColumns ≤ m.tableau.rhsCol := by
    rw [h.stands.rhsCol_eq]
    exact Nat.le_add_right _ _
  refine ⟨fun i v hv => ?_, fun k a ha => ?_⟩
  · rw [Solution.value?, hvalues]
    refine namedValues_decision ?_
    rw [variableValues_eq, ← hv, ← h.columns_eq]
    congr 1
    exact ColumnMap.point_congr fun j hj => (h.reading_eq_columnValue (hj.trans_le hn)).symm
  · rw [Solution.value?, hvalues, namedValues_aux h.aux_eq ha, h.reading_eq_columnValue,
      numDecisions, h.columns_eq]
    rw [h.stands.rhsCol_eq, numDecisions, h.columns_eq]
    exact Nat.add_lt_add_left (List.getElem?_eq_some_iff.1 ha).1 _

end Model

namespace PrimalSimplex

/-- The slack columns of the primal method, one for every row. -/
def auxColumns (rows : List (Constraint ℚ)) : List AuxColumn :=
  rows.mapIdx fun k row => ⟨.slack, k + 1, row.isNegated⟩

/-- The primal method reads no column with another sign. -/
theorem signed_auxColumns (q : Posed ℚ) (rows : List (Constraint ℚ)) (j : ℕ) :
    q.signed (auxColumns rows) j = false := by
  rw [Posed.signed, auxColumns, List.getElem?_mapIdx]
  cases rows[j - (ColumnMap.ofProblem q.problem).numColumns]? <;> simp

/-- The values that the primal method reports for the values `y` of the columns. -/
theorem get?_namedValues (m : ColumnMap) (r : ℕ) (y : ℕ → ℚ) :
    (∀ i v, (m.point y)[i]? = some v →
      (namedValues m ((List.range (m.numColumns + r)).map y)).get? (.decision i) = some v) ∧
    ∀ k, k < r → (namedValues m ((List.range (m.numColumns + r)).map y)).get?
      (.auxiliary .slack (k + 1)) = some (y (m.numColumns + k)) := by
  have htake : ((List.range (m.numColumns + r)).map y).take m.numColumns =
      (List.range m.numColumns).map y := by
    rw [List.range_add, List.map_append, List.take_left' (by simp)]
  have hdrop : ((List.range (m.numColumns + r)).map y).drop m.numColumns =
      (List.range r).map fun k => y (m.numColumns + k) := by
    rw [List.range_add, List.map_append, List.drop_left' (by simp), List.map_map]
    rfl
  have hslacks : (((List.range r).map fun k => y (m.numColumns + k)).mapIdx
      fun k v => (ColumnName.auxiliary .slack (k + 1), v)) =
      (List.range r).map fun k => (ColumnName.auxiliary .slack (k + 1), y (m.numColumns + k)) := by
    refine List.ext_getElem (by simp) fun i _ _ => by simp
  rw [namedValues, htake, hdrop, hslacks]
  refine ⟨fun i v hv => ?_, fun k hk => ?_⟩
  · rw [Valuation.get?_insertAll_of_notMem]
    · exact Valuation.get?_insertAll_decisions hv _
    · intro hmem
      obtain ⟨e, he, hei⟩ := List.mem_map.1 hmem
      obtain ⟨k, -, rfl⟩ := List.mem_map.1 he
      cases hei
  · refine Valuation.get?_insertAll_of_mem
      (e := (.auxiliary .slack (k + 1), y (m.numColumns + k))) ?_ ?_ _
    · rw [List.map_map]
      refine (List.nodup_range (n := r)).map fun a b hab => ?_
      simpa using hab
    · exact List.mem_map.2 ⟨k, List.mem_range.2 hk, rfl⟩

/-- The primal method reports the values read off its tableau. -/
theorem reports {m : Model ℚ} {p : Problem ℚ} (h : m.Represents 0 ⟨p, []⟩) {sol : Solution ℚ}
    (hvalues : sol.values = namedValues m.columns
      ((List.range m.tableau.rhsCol).map (m.tableau.columnValue · 0))) :
    sol.Reports ⟨p, []⟩ (auxColumns (⟨p, []⟩ : Posed ℚ).rows) m.tableau := by
  have hcols := h.rhsCol_eq
  have hread : ∀ j, j < m.tableau.rhsCol → m.tableau.reading
      ((⟨p, []⟩ : Posed ℚ).signed (auxColumns (⟨p, []⟩ : Posed ℚ).rows)) j =
        m.tableau.columnValue j 0 := by
    intro j hj
    rw [Tableau.reading, if_pos hj, signed_auxColumns, Tableau.columnValue]
    rfl
  rw [hcols] at hvalues
  obtain ⟨hdecision, hslack⟩ := get?_namedValues m.columns (⟨p, []⟩ : Posed ℚ).rows.length
    (m.tableau.columnValue · 0)
  refine ⟨fun i v hv => ?_, fun k a ha => ?_⟩
  · rw [Solution.value?, hvalues]
    refine hdecision i v ?_
    rw [← hv, ← h.columns_eq]
    congr 1
    exact ColumnMap.point_congr fun j hj => (hread j (by omega)).symm
  · rw [auxColumns, List.getElem?_mapIdx] at ha
    obtain ⟨row, hrow, rfl⟩ := Option.map_eq_some_iff.1 ha
    have hk := (List.getElem?_eq_some_iff.1 hrow).1
    rw [Solution.value?, hvalues, ← h.columns_eq, hread _ (by omega)]
    exact hslack k hk

end PrimalSimplex

/-! ## Reported optima -/

/-- A solution that was reported for a problem: by the primal method, or by the dual method to the
last request of a history. The auxiliary columns are those that the method reports, by row. -/
inductive Reported (c : Config ℚ) : Posed ℚ → List AuxColumn → Solution ℚ → Prop where
  | primal {p : Problem ℚ} {j : Journal ℚ} {sol : Solution ℚ} (hp : p.Indexed)
      (hsol : (PrimalSimplex.solve c p j).result = .ok sol) :
      Reported c ⟨p, []⟩ (PrimalSimplex.auxColumns (⟨p, []⟩ : Posed ℚ).rows) sol
  | dual {history : List (Request ℚ × Journal ℚ)} {r : Request ℚ} {j : Journal ℚ} {q : Posed ℚ}
      {sol : Solution ℚ} (hr : ∀ p j', (.solve p, j') ∈ history ++ [(r, j)] → p.Indexed)
      (hq : Request.posed (history ++ [(r, j)]) = some q)
      (hsol : ((DualSimplex.run ⟨c, none⟩ history).request r j).result = .ok sol) :
      Reported c q (AuxColumn.ofRows q.rows) sol

/-- A reported optimum survives the round trip exactly if no row of the reported tableau that has a
value is read for two columns. -/
theorem Reported.roundTrips_iff {c : Config ℚ} {q : Posed ℚ} {aux : List AuxColumn}
    {sol : Solution ℚ} (h : Reported c q aux sol) (ht : c.tolerance = 0)
    (hopt : sol.status = .optimal) :
    ∃ t, sol.tableau = some t ∧ (sol.RoundTrips q aux ↔ t.ReadsOnce (q.signed aux)) := by
  cases h with
  | @primal p j sol hp hsol =>
    obtain ⟨m, hrep, hshows, hart, htab, hvalue, hvalues⟩ := PrimalSimplex.solve_spec ht hsol hopt
    refine ⟨m.tableau, htab, hrep.roundTrips_iff_readsOnce hp hshows (fun j hj => ?_) ?_ hvalue
      (PrimalSimplex.reports hrep hvalues)⟩
    · rw [hart j] at hj
      cases hj
    · exact List.length_mapIdx.symm
  | @dual history r j q sol hr hq hsol =>
    obtain ⟨q', m, hposed, hidx, hrep, hans⟩ := DualSimplex.answers_of_history ht history hr hsol
    obtain rfl : q = q' := Option.some.inj (hq.symm.trans hposed)
    obtain ⟨hshows, hart, hvalue, hvalues, htableau⟩ := hans.of_optimal hopt
    rw [hrep.problem_eq] at hvalue
    have hreports := hrep.reports hvalues
    rw [hrep.aux_eq] at hreports
    refine ⟨m.tableau, htableau, hrep.roundTrips_iff_readsOnce hidx hshows (fun j hj => ?_)
      (AuxColumn.length_ofRows _).symm hvalue hreports⟩
    by_cases hlt : j < m.tableau.rhsCol
    · rw [← hrep.aux_eq, hrep.reading_eq_columnValue hlt]
      exact Model.columnValue_le_of_artificial hart hj
    · rw [Tableau.reading, if_neg hlt]

/-- Two variables that are tied: `x₁ + x₂` at most for `x₁ + x₂ ≤ 4`. -/
def Problem.tie : Problem ℚ :=
  { Problem.ofObjective .maximize [1, 1] with constraints := [⟨[1, 1], .le, 4⟩] }

/-- The variables of the problem with a tie are indexed. -/
theorem Problem.indexed_tie : Problem.tie.Indexed := Problem.Indexed.ofObjective .maximize [1, 1]

/-- Both tied variables are read from the one row. -/
theorem Reported.roundTrips_iff_tie : ∃ sol, Reported .exact ⟨.tie, []⟩ (AuxColumn.ofRows
      (⟨.tie, []⟩ : Posed ℚ).rows) sol ∧
    ∃ t, sol.tableau = some t ∧ (sol.RoundTrips ⟨.tie, []⟩ (AuxColumn.ofRows
      (⟨.tie, []⟩ : Posed ℚ).rows) ↔ t.ReadsOnce (Posed.signed ⟨.tie, []⟩ (AuxColumn.ofRows
        (⟨.tie, []⟩ : Posed ℚ).rows))) := by
  let j : Journal ℚ := {}
  let call := (DualSimplex.run ⟨.exact, none⟩ []).request (.solve .tie) j
  have hrun : call.result.toOption.map (·.status) = some .optimal := by decide +kernel
  cases hsol : call.result with
  | error e => rw [hsol] at hrun; cases hrun
  | ok sol =>
    rw [hsol] at hrun
    have hreported : Reported .exact ⟨.tie, []⟩ (AuxColumn.ofRows
        (⟨.tie, []⟩ : Posed ℚ).rows) sol := by
      refine @Reported.dual _ [] _ j _ _ (fun p j' hp => ?_) rfl hsol
      obtain ⟨rfl, -⟩ : p = .tie ∧ j' = j := by simpa using hp
      exact Problem.indexed_tie
    exact ⟨sol, hreported, Reported.roundTrips_iff hreported rfl (Option.some.inj hrun)⟩

/-- Not every reported optimum survives the round trip: tied variables are both reported with the
value `4`, which breaks the constraint. -/
theorem Reported.not_roundTrips_tie :
    ¬∀ (c : Config ℚ) (q : Posed ℚ) (aux : List AuxColumn) (sol : Solution ℚ), c.tolerance = 0 →
      Reported c q aux sol → sol.status = .optimal → sol.RoundTrips q aux := by
  intro h
  let j : Journal ℚ := {}
  let call := (DualSimplex.run ⟨.exact, none⟩ []).request (.solve .tie) j
  have hrun : call.result.toOption.map (fun s => (s.status, s.decisionValues 2)) =
      some (.optimal, [4, 4]) := by decide +kernel
  cases hsol : call.result with
  | error e => rw [hsol] at hrun; cases hrun
  | ok sol =>
    rw [hsol] at hrun
    obtain ⟨hopt, hvalues⟩ := Prod.mk.inj (Option.some.inj hrun)
    have hreported : Reported .exact ⟨.tie, []⟩ (AuxColumn.ofRows
        (⟨.tie, []⟩ : Posed ℚ).rows) sol := by
      refine @Reported.dual _ [] _ j _ _ (fun p j' hp => ?_) rfl hsol
      obtain ⟨rfl, -⟩ : p = .tie ∧ j' = j := by simpa using hp
      exact Problem.indexed_tie
    have hfeas := (h _ _ _ _ rfl hreported hopt).feasible.constraints ⟨[1, 1], .le, 4⟩
      List.mem_cons_self
    have hvalues : sol.decisionValues Problem.tie.numVariables = [4, 4] := hvalues
    rw [hvalues] at hfeas
    revert hfeas
    decide +kernel

end LinOpt
