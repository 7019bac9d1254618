import LinOpt.Proofs.Simplex.Dual.Session

/-!
# The primal method

The tableau of the slack basis is the tableau that the dual method starts from
(`PrimalSimplex.buildTableau_eq_ok`): a row that converts has no artificial column, and its
right-hand side is not negative. So over the rationals what the dual method knows of tableaux serves
here as well, and an optimum of the primal method is that of a model that represents the problem
(`PrimalSimplex.solve_spec`).
-/

namespace LinOpt

open Tableau (HasBasis States)

/-! ## The slack basis -/

section Slack

variable {α : Type} [Scalar α] [Scalar.Signed α]

namespace StandardForm

/-- A row that converts is multiplied by its sign. -/
theorem slackRow_eq_ok {i : ℕ} {row : Constraint α} {r : List α × α} (h : slackRow i row = .ok r) :
    r = (row.coefficients.map (row.rowSign * ·), row.rowSign * row.rhs) ∧
      0 ≤ row.rowSign * row.rhs ∧ row.relation ≠ .eq := by
  unfold slackRow slackRow.refuse at h
  unfold Constraint.rowSign Constraint.isNegated
  cases hrel : row.relation with
  | le =>
    simp only [hrel] at h
    split_ifs at h with hrhs
    rw [← Except.ok.inj h]
    simpa [Scalar.Signed.one_mul] using hrhs
  | ge =>
    simp only [hrel] at h
    split_ifs at h with hrhs
    rw [← Except.ok.inj h]
    simpa [Scalar.Signed.neg_one_mul] using Scalar.Signed.neg_nonneg _ hrhs
  | eq => simp only [hrel] at h; cases h

/-- Rows that convert do so one by one. -/
theorem mapM_slackRow_eq_ok {rows : List (Constraint α)} (g : ℕ → ℕ) {out : List (List α × α)}
    (h : (rows.mapIdx fun i row => slackRow (g i) row).mapM id = .ok out) :
    out = rows.map (fun row => (row.coefficients.map (row.rowSign * ·), row.rowSign * row.rhs)) ∧
      ∀ row ∈ rows, 0 ≤ row.rowSign * row.rhs ∧ row.relation ≠ .eq := by
  induction rows generalizing g out with
  | nil => exact ⟨(Except.ok.inj h).symm, fun row hrow => (nomatch hrow)⟩
  | cons row rows ih =>
    rw [List.mapIdx_cons, List.mapM_cons] at h
    cases hrow : slackRow (g 0) row with
    | error e => rw [hrow] at h; cases h
    | ok r =>
      rw [hrow] at h
      cases hrows : (rows.mapIdx fun i row => slackRow (g (i + 1)) row).mapM id with
      | error e => rw [hrows] at h; cases h
      | ok rs =>
        rw [hrows] at h
        obtain ⟨rfl, hpos, hne⟩ := slackRow_eq_ok hrow
        obtain ⟨rfl, hrest⟩ := ih (fun i => g (i + 1)) hrows
        refine ⟨(Except.ok.inj h).symm, fun row' hrow' => ?_⟩
        rcases List.mem_cons.1 hrow' with rfl | hmem
        · exact ⟨hpos, hne⟩
        · exact hrest row' hmem

end StandardForm

namespace PrimalSimplex

/-- The tableau of the slack basis is the plain tableau of rows without equality whose right-hand
sides are not negative. -/
theorem buildTableau_eq_ok {f : StandardForm α} {t : Tableau α} (h : buildTableau f = .ok t) :
    t = Model.plainTableau f ∧
      ∀ row ∈ f.rows, 0 ≤ row.rowSign * row.rhs ∧ row.relation ≠ .eq := by
  unfold buildTableau at h
  cases hrows : f.slackRows with
  | error e => rw [hrows] at h; cases h
  | ok rows =>
    rw [hrows] at h
    obtain ⟨rfl, hrest⟩ := StandardForm.mapM_slackRow_eq_ok id hrows
    refine ⟨?_, hrest⟩
    rw [← Except.ok.inj h, Model.plainTableau]
    refine congrArg₂ Tableau.mk ?_ ?_
    · rw [List.length_map]
    · refine List.ext_getElem (by simp) fun i _ _ => ?_
      simp [Model.tableauRow]

end PrimalSimplex

end Slack

namespace Model

variable {α : Type} [Scalar α] {f : StandardForm α} {n : ℕ}

/-- A row has the decision columns, the slacks and a right-hand side. -/
theorem length_tableauRow {row : Constraint α} (h : row.coefficients.length = n) (m i : ℕ) :
    (tableauRow m i row).length = n + m + 1 := by
  simp [tableauRow, Scalar.unit, h, Nat.add_assoc]

/-- The right-hand side of a tableau row, behind its coefficients and the auxiliary columns. -/
theorem getD_tableauRow {row : Constraint α} (h : row.coefficients.length = n) (m i : ℕ) :
    (tableauRow m i row).getD (n + m) 0 = row.rowSign * row.rhs := by
  have hlen : (row.coefficients.map (row.rowSign * ·) ++ Scalar.unit m i).length = n + m := by
    simp [Scalar.unit, h]
  rw [tableauRow, List.getD_append_right _ _ _ _ hlen.le, hlen, Nat.sub_self]
  rfl

/-- A plain tableau is rectangular. -/
theorem rectangular_plainTableau (hobj : f.objective.length = n)
    (hrows : ∀ r ∈ f.rows, r.coefficients.length = n) : (plainTableau f).Rectangular := by
  have hcols : (plainTableau f).numCols = n + f.rows.length + 1 := by
    show (f.maxObjective.map (- ·) ++ List.replicate (f.rows.length + 1) 0).length = _
    rw [List.length_append, List.length_map, length_maxObjective, hobj, List.length_replicate]
    rfl
  refine ⟨by omega, fun r hr => ?_⟩
  obtain ⟨i, hi, rfl⟩ := List.mem_mapIdx.1 hr
  rw [length_tableauRow (hrows _ (List.getElem_mem hi)), hcols]

/-- The right-hand sides of a plain tableau are those of the rows, with their signs. -/
theorem rhsColumn_plainTableau (hobj : f.objective.length = n)
    (hrows : ∀ r ∈ f.rows, r.coefficients.length = n) :
    (plainTableau f).rhsColumn = f.rows.map fun row => row.rowSign * row.rhs := by
  rw [Tableau.rhsColumn, rhsCol_plainTableau hobj]
  refine List.ext_getElem (by simp [Tableau.column, plainTableau]) fun i hi _ => ?_
  have hi : i < f.rows.length := by simpa [Tableau.column, plainTableau] using hi
  simp only [Tableau.column, plainTableau, List.getElem_map, List.getElem_mapIdx]
  exact getD_tableauRow (hrows _ (List.getElem_mem hi)) _ _

/-- The right-hand side of one row of a plain tableau. -/
theorem rhs_plainTableau (hobj : f.objective.length = n)
    (hrows : ∀ r ∈ f.rows, r.coefficients.length = n) {i : ℕ} {row : Constraint α}
    (h : f.rows[i]? = some row) : (plainTableau f).rhs (i + 1) = row.rowSign * row.rhs := by
  obtain ⟨hi, rfl⟩ := List.getElem?_eq_some_iff.1 h
  have hrow : (plainTableau f).row (i + 1) = tableauRow f.rows.length i f.rows[i] := by
    rw [Tableau.row_succ, plainTableau, List.getD_eq_getElem _ _ (by simpa using hi),
      List.getElem_mapIdx]
  rw [Tableau.rhs_def, Tableau.entry_def, hrow, rhsCol_plainTableau hobj,
    getD_tableauRow (hrows _ (List.getElem_mem hi))]

end Model

/-! ## The method -/

namespace PrimalSimplex

variable {c : Config ℚ} {f : StandardForm ℚ}

/-- What an optimal solution reports of its tableau. -/
structure Reads (f : StandardForm ℚ) (t : Tableau ℚ) (sol : Solution ℚ) : Prop where
  tableau_eq : sol.tableau = some t
  value_eq : sol.optimalValue = some (ofMaximized f.sense t.objectiveValue)
  values_eq : sol.values = namedValues f.columns ((List.range t.rhsCol).map (t.columnValue · 0))

/-- The optimum is read off the tableau. -/
theorem reads_optimum (ht : c.tolerance = 0) (f : StandardForm ℚ) (t : Tableau ℚ)
    (s : Solution ℚ) : Reads f t (optimum c f t s).1 := by
  rw [optimum, ht]
  exact ⟨rfl, rfl, rfl⟩

/-- At tolerance zero the loop keeps what pivots by the ratio test keep, and an optimal solution is
read from a tableau without negative entries in row `0`. -/
theorem iterate_spec (ht : c.tolerance = 0) {P : Tableau ℚ → Prop}
    (hrect : ∀ t, P t → t.Rectangular)
    (hstep : ∀ t row col, P t → col < t.rhsCol → t.leaving col 0 = some row →
      P (t.eliminate row col)) {sol : Solution ℚ} (hopt : sol.status = .optimal) :
    ∀ (remaining k : ℕ) (t : Tableau ℚ) (s : Solution ℚ) (j : Journal ℚ), P t →
      (iterate c f remaining k t s j).result = .ok sol →
      ∃ t', P t' ∧ (∀ j, j < t'.rhsCol → 0 ≤ t'.entry 0 j) ∧ Reads f t' sol := by
  have hfinish : ∀ (t : Tableau ℚ) (s : Solution ℚ), P t →
      (∀ j, j < t.rhsCol → 0 ≤ t.entry 0 j) → (optimum c f t s).1 = sol →
        ∃ t', P t' ∧ (∀ j, j < t'.rhsCol → 0 ≤ t'.entry 0 j) ∧ Reads f t' sol := by
    intro t s hP hred hsol
    exact ⟨t, hP, hred, hsol ▸ reads_optimum ht f t s⟩
  have hstop : ∀ {status : Status} {reason : Message ℚ} {t : Tableau ℚ} {s : Solution ℚ},
      status ≠ .optimal →
        ({ s.terminate status reason with tableau := some t } : Solution ℚ) ≠ sol := by
    intro status reason t s hne heq
    rw [← heq] at hopt
    exact hne hopt
  intro remaining
  induction remaining with
  | zero =>
    intro k t s j hP h
    unfold iterate at h
    rw [ht] at h
    dsimp only at h
    split_ifs at h with hisopt
    · exact hfinish t s hP ((hrect t hP).isOptimal_zero_iff.1 hisopt) (Except.ok.inj h)
    · exact absurd (Except.ok.inj h) (hstop (by decide))
  | succ remaining ih =>
    intro k t s j hP h
    unfold iterate at h
    rw [ht] at h
    dsimp only at h
    split_ifs at h with hisopt hint
    · exact hfinish t s hP ((hrect t hP).isOptimal_zero_iff.1 hisopt) (Except.ok.inj h)
    · exact absurd (Except.ok.inj h) (hstop (by decide))
    · split at h
      · rename_i hnone
        exact hfinish t s hP ((hrect t hP).entering_zero_eq_none.1 hnone) (Except.ok.inj h)
      · rename_i col hcol
        split at h
        · exact absurd (Except.ok.inj h) (hstop (by decide))
        · rename_i row hrow
          split at h
          · cases h
          · rename_i t' hpivot
            obtain ⟨-, rfl⟩ := Tableau.pivot_eq_ok hpivot
            exact ih _ _ _ _ (hstep t row col hP ((hrect t hP).enteringWhere_eq_some hcol).1 hrow) h

end PrimalSimplex

/-- Coefficients over columns have one entry for each. -/
theorem StandardForm.length_of_ofProblem {α : Type} [Scalar α] {p : Problem α} {f : StandardForm α}
    (hf : ofProblem p = .ok f) : f.objective.length = f.columns.numColumns ∧
      ∀ r ∈ f.rows, r.coefficients.length = f.columns.numColumns := by
  obtain ⟨-, -, hobj, hrows⟩ := ofProblem_eq_ok hf
  refine ⟨by rw [hobj, ColumnMap.length_spreadAll]; rfl, fun r hr => ?_⟩
  rw [hrows] at hr
  obtain ⟨k, -, rfl⟩ := List.mem_map.1 hr
  exact ColumnMap.length_spreadRow _ _

/-- The model at the slack basis. -/
def StandardForm.slackModel {α : Type} [Scalar α] (f : StandardForm α) (p : Problem α) :
    Model α where
  problem := p
  columns := f.columns
  tableau := Model.plainTableau f
  aux := AuxColumn.ofRows f.rows
  counts := .ofColumns f.columns.numColumns (AuxColumn.ofRows f.rows)

/-- Without penalties the model at the slack basis represents the problem. -/
theorem StandardForm.represents_slackModel {f : StandardForm ℚ} {p : Problem ℚ}
    (hf : ofProblem p = .ok f) : (f.slackModel p).Represents 0 ⟨p, []⟩ := by
  obtain ⟨hcol, hsense, hobj, hrows⟩ := ofProblem_eq_ok hf
  have hposed : (⟨p, []⟩ : Posed ℚ).rows = p.constraints ++ p.binaryBounds := List.append_nil _
  have haux : AuxColumn.ofRows f.rows = AuxColumn.ofRows (⟨p, []⟩ : Posed ℚ).rows := by
    rw [hrows, Model.ofRows_map_spreadRow, hposed]
  have hinit := Model.initial_plainTableau hobj (⟨p, []⟩ : Posed ℚ).rows
  rw [hposed, withRows, ← hrows, ← hposed] at hinit
  refine ⟨?_, hcol, haux, rfl, hinit.numRows_eq, ⟨?_, hinit.hasBasis, ?_⟩⟩
  · simp [slackModel, Posed.current]
  · refine hinit.states.restate (fun y => Iff.rfl) fun y _ => ?_
    rw [Posed.penalized, zero_mul, sub_zero, hsense, hcol]
    rfl
  · show _ = _ + (AuxColumn.ofRows f.rows).length
    rw [haux, AuxColumn.length_ofRows]
    exact hinit.rhsCol_eq

/-- Where all rows convert, no right-hand side is negative. -/
theorem StandardForm.rhs_slackModel_nonneg {f : StandardForm ℚ} {p : Problem ℚ}
    (hf : ofProblem p = .ok f) (h : ∀ row ∈ f.rows, 0 ≤ row.rowSign * row.rhs) (i : ℕ) :
    0 ≤ (f.slackModel p).tableau.rhs (i + 1) := by
  obtain ⟨hobj, hrows⟩ := length_of_ofProblem hf
  show 0 ≤ (Model.plainTableau f).rhs (i + 1)
  cases hi : f.rows[i]? with
  | some row =>
    rw [Model.rhs_plainTableau hobj hrows hi]
    exact h row (List.mem_of_getElem? hi)
  | none =>
    have hle : (Model.plainTableau f).numRows ≤ i + 1 := by
      show (f.rows.mapIdx _).length + 1 ≤ i + 1
      rw [List.length_mapIdx]
      exact Nat.succ_le_succ (List.getElem?_eq_none_iff.1 hi)
    rw [Tableau.rhs_def, Tableau.entry_of_numRows_le hle]

/-- Where all rows convert, no auxiliary column is artificial. -/
theorem StandardForm.isArtificial_slackModel {α : Type} [Scalar α] {f : StandardForm α}
    (p : Problem α) (h : ∀ row ∈ f.rows, row.relation ≠ .eq) (j : ℕ) :
    (f.slackModel p).isArtificial j = false := by
  rcases Nat.lt_or_ge j (f.slackModel p).numDecisions with hj | hj
  · exact Model.isArtificial_of_lt hj
  · obtain ⟨k, rfl⟩ := Nat.exists_eq_add_of_le hj
    refine Bool.eq_false_iff.2 fun hart => ?_
    obtain ⟨row, hrow, heq⟩ := (Model.isArtificial_iff rfl k).1 hart
    exact h row (List.mem_of_getElem? hrow) heq

namespace PrimalSimplex

variable {c : Config ℚ}

/-- At tolerance zero an optimum of the primal method is read from a model of the problem, one that
has no artificial column. -/
theorem solve_spec (ht : c.tolerance = 0) {p : Problem ℚ} {j : Journal ℚ} {sol : Solution ℚ}
    (h : (solve c p j).result = .ok sol) (hopt : sol.status = .optimal) :
    ∃ m : Model ℚ, m.Represents 0 ⟨p, []⟩ ∧ m.Shows m.tableau .done ∧
      (∀ j, m.isArtificial j = false) ∧ sol.tableau = some m.tableau ∧
      sol.optimalValue = some (ofMaximized p.sense m.tableau.objectiveValue) ∧
      sol.values = namedValues m.columns
        ((List.range m.tableau.rhsCol).map (m.tableau.columnValue · 0)) := by
  dsimp only [solve, bind, Except.bind] at h
  cases hf : StandardForm.ofProblem p with
  | error e => rw [hf] at h; cases h
  | ok f =>
    rw [hf] at h
    dsimp only at h
    cases hbuild : buildTableau f with
    | error e => rw [hbuild] at h; cases h
    | ok t₀ =>
      rw [hbuild] at h
      obtain ⟨rfl, hconv⟩ := buildTableau_eq_ok hbuild
      obtain ⟨-, hsense, -, -⟩ := StandardForm.ofProblem_eq_ok hf
      have hrep := StandardForm.represents_slackModel hf
      have hart := StandardForm.isArtificial_slackModel p fun row hrow => (hconv row hrow).2
      have hrhs := StandardForm.rhs_slackModel_nonneg hf fun row hrow => (hconv row hrow).1
      obtain ⟨t, ⟨hcar, hrhs⟩, hred, hreads⟩ := iterate_spec ht
        (P := fun t => (f.slackModel p).Carries _ _ t ∧ ∀ i, 0 ≤ t.rhs (i + 1))
        (fun t hP => hP.1.states.rectangular)
        (fun t row col hP hcol hleave => by
          obtain ⟨k, rfl, hk, hpos, -⟩ := Tableau.leaving_eq_some hleave
          have hpivot : t.pivot (k + 1) col 0 = .ok (t.eliminate (k + 1) col) :=
            Tableau.pivot_of_lt (abs_pos.2 hpos.ne')
          exact ⟨hP.1.pivot (Nat.succ_pos k) hcol hpivot, fun i =>
            hP.1.states.rectangular.rhs_nonneg_eliminate hP.2 hleave i⟩)
        hopt _ _ _ _ _ ⟨hrep.stands.carries, hrhs⟩ h
      refine ⟨{ f.slackModel p with tableau := t }, hrep.carries hcar, ?_, hart, hreads.tableau_eq,
        ?_, hreads.values_eq⟩
      · exact .done hrhs fun j hj _ => hred j hj
      · rw [← hsense]
        exact hreads.value_eq

end PrimalSimplex
end LinOpt
