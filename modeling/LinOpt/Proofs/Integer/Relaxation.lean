import LinOpt.Integer.CuttingPlane
import LinOpt.Proofs.Integer.GomoryCut
import LinOpt.Proofs.Simplex.Dual.History

/-!
# Relaxations that keep the admissible points

The cutting-plane method is about admissible points: feasible points that are integral in the
variables that are to be integral and have a column of their own (`Problem.Admissible`). A model
relaxes a problem while some of its columns are marked as integral (`Model.Relaxes`) if its region
holds feasible points only and every admissible point extends to column values of the region with
integers in the marked columns.

The model of the problem does so (`Model.Represents.relaxes`), for the columns of the variables and
of the rows with integral data. A cut keeps it (`Model.Relaxes.appendCut`): at the column values of
an admissible point its slack is not negative, and an integer if the new column is marked. And an
optimum that is integral in the variables above is the best value over the admissible points
(`Model.Relaxes.isBest`).
-/

namespace LinOpt

/-! ## Admissible points -/

/-- Variable `i` is restricted to integers, or no variable is and it has a column of its own. -/
def Problem.IsCandidate (p : Problem ℚ) (i : ℕ) : Prop :=
  (∃ v, p.vars[i]? = some v ∧ v.restriction.isIntegral) ∨
    (∀ v ∈ p.vars, v.restriction.isIntegral = false) ∧
      ∃ col, (ColumnMap.ofProblem p).directColumn? i = some col

/-- A feasible point with integers in the candidate variables. -/
def Problem.Admissible (p : Problem ℚ) (x : List ℚ) : Prop := p.IntegerFeasible p.IsCandidate x

/-- The candidates are the variables to be integral that have a column of their own; all variables
restricted to integers have one. -/
theorem Problem.isCandidate_iff {p : Problem ℚ} {i : ℕ} : p.IsCandidate i ↔
    p.IsInteger i ∧ ∃ col, (ColumnMap.ofProblem p).directColumn? i = some col := by
  have hn : (ColumnMap.ofProblem p).numVariables = p.vars.length := List.length_map _
  have hdirect : ∀ v, p.vars[i]? = some v → v.restriction.isIntegral = true →
      ∃ col, (ColumnMap.ofProblem p).directColumn? i = some col := by
    intro v hv hint
    refine ColumnMap.exists_directColumn ?_
    show (p.vars.map (·.restriction.placement))[i]? = _
    rw [List.getElem?_map, hv, Option.map_some]
    cases hr : v.restriction <;> rw [hr] at hint <;> first | rfl | cases hint
  constructor
  · rintro (⟨v, hv, hint⟩ | ⟨hnone, col, hcol⟩)
    · exact ⟨⟨(List.getElem?_eq_some_iff.1 hv).1, .inl ⟨v, hv, hint⟩⟩, hdirect v hv hint⟩
    · exact ⟨⟨hn ▸ ColumnMap.lt_of_directColumn hcol, .inr hnone⟩, col, hcol⟩
  · rintro ⟨⟨-, hv | hnone⟩, hcol⟩
    · exact .inl hv
    · exact .inr ⟨hnone, hcol⟩

/-- Some values are integers where they are marked. -/
def IntegralAt (marks : List Bool) (y : ℕ → ℚ) : Prop :=
  ∀ j, marks.getD j false = true → ∃ k : ℤ, y j = k

namespace IntegralAt

variable {marks : List Bool} {y y' : ℕ → ℚ}

/-- Only columns that there are can be marked. -/
theorem lt_of_marked {j : ℕ} (h : marks.getD j false = true) : j < marks.length := by
  by_contra hge
  rw [List.getD_eq_default _ _ (not_lt.1 hge)] at h
  cases h

/-- Whether marked columns are integral depends on these columns only. -/
theorem congr (h : IntegralAt marks y) (hy : ∀ j < marks.length, y' j = y j) :
    IntegralAt marks y' := fun j hj => by
  rw [hy j (lt_of_marked hj)]
  exact h j hj

/-- One column more is marked only if its value is an integer. -/
theorem append (h : IntegralAt marks y) {mark : Bool}
    (hlast : mark = true → ∃ k : ℤ, y marks.length = k) : IntegralAt (marks ++ [mark]) y := by
  intro j hj
  have hlt := lt_of_marked hj
  rw [List.length_append, List.length_singleton] at hlt
  rcases Nat.lt_succ_iff_lt_or_eq.1 hlt with hlt | rfl
  · rw [List.getD_append _ _ _ _ hlt] at hj
    exact h j hj
  · rw [List.getD_append_right _ _ _ _ le_rfl, Nat.sub_self] at hj
    exact hlast hj

end IntegralAt

/-- A model relaxes a problem, with columns marked that are integral at the admissible points. -/
structure Model.Relaxes (m : Model ℚ) (marks : List Bool) (p : Problem ℚ) (E : (ℕ → ℚ) → Prop)
    (z : (ℕ → ℚ) → ℚ) : Prop where
  stands : m.Stands E z
  problem_eq : m.problem = p
  columns_eq : m.columns = .ofProblem p
  length_marks : marks.length = m.tableau.rhsCol
  marked : ∀ i col, p.IsInteger i → m.columns.directColumn? i = some col →
    marks.getD col false = true
  feasible : ∀ y ∈ m.Region E, p.Feasible (m.columns.point y)
  objective : ∀ y ∈ m.Region E,
    z y = PrimalSimplex.ofMaximized p.sense (p.objectiveValue (m.columns.point y))
  exists_extension : ∀ x, p.Admissible x →
    ∃ y ∈ m.Region E, m.columns.point y = x ∧ IntegralAt marks y

/-! ## The relaxation at the start -/

section
open CuttingPlane

variable {f : StandardForm ℚ} {candidates : List ℕ}

/-- The marks of the decision columns: those of the candidates. -/
def decisionMarks (f : StandardForm ℚ) (candidates : List ℕ) : List Bool :=
  (List.range f.columns.numColumns).map (candidates.filterMap f.columns.directColumn?).contains

/-- The marks of the decision columns come first, then one for every row. -/
theorem integerColumns_eq (f : StandardForm ℚ) (candidates : List ℕ) (tolerance : ℚ) :
    integerColumns f candidates tolerance = decisionMarks f candidates ++
      f.rows.map (isIntegralRow tolerance (decisionMarks f candidates)) := rfl

/-- There is a mark for every decision column. -/
theorem length_decisionMarks : (decisionMarks f candidates).length = f.columns.numColumns := by
  simp [decisionMarks]

/-- The decision columns that are marked are those of the candidates. -/
theorem getD_decisionMarks {j : ℕ} : (decisionMarks f candidates).getD j false = true ↔
    ∃ i ∈ candidates, f.columns.directColumn? i = some j := by
  rcases Nat.lt_or_ge j f.columns.numColumns with hlt | hge
  · simp [decisionMarks, hlt]
  · rw [List.getD_eq_default _ _ (length_decisionMarks.trans_le hge)]
    refine iff_of_false Bool.false_ne_true ?_
    rintro ⟨i, -, hi⟩
    exact absurd (ColumnMap.point_directColumn hi fun _ => 0).1 (not_lt.2 hge)

/-- The marked columns have integers if those of the candidates do, and those of the rows that are
taken for integral. -/
theorem integralAt_integerColumns {y : ℕ → ℚ}
    (hdecisions : IntegralAt (decisionMarks f candidates) y)
    (hrows : ∀ k row, f.rows[k]? = some row →
      isIntegralRow 0 (decisionMarks f candidates) row = true →
        ∃ n : ℤ, y (f.columns.numColumns + k) = n) :
    IntegralAt (integerColumns f candidates 0) y := by
  intro j hj
  rw [integerColumns_eq] at hj
  rcases Nat.lt_or_ge j f.columns.numColumns with hlt | hge
  · rw [List.getD_append _ _ _ _ (hlt.trans_eq length_decisionMarks.symm)] at hj
    exact hdecisions j hj
  · obtain ⟨k, rfl⟩ := Nat.exists_eq_add_of_le hge
    rw [List.getD_append_right _ _ _ _ (length_decisionMarks.trans_le hge), length_decisionMarks,
      Nat.add_sub_cancel_left, List.getD_eq_getElem?_getD, List.getElem?_map] at hj
    cases hk : f.rows[k]? with
    | none =>
      rw [hk] at hj
      cases hj
    | some row =>
      rw [hk] at hj
      exact hrows k row hk hj

/-- A row with integral data over integral columns has an integral residual. -/
theorem exists_residual {m : ColumnMap} {decisions : List Bool}
    (hlen : decisions.length = m.numColumns) {c : Constraint ℚ} (hc : c.relation ≠ .eq)
    (h : isIntegralRow 0 decisions (m.spreadRow c) = true) {y : ℕ → ℚ}
    (hy : IntegralAt decisions y) : ∃ k : ℤ, c.residual (m.point y) = k := by
  unfold isIntegralRow at h
  rw [Bool.or_eq_true, Bool.and_eq_true, decide_eq_true_eq, Fractional.isIntegral_zero_iff,
    List.all_eq_true] at h
  obtain ⟨⟨b, hb⟩, hcoefficients⟩ := h.resolve_left hc
  have hterm : ∀ j < m.numColumns, ∃ k : ℤ, (m.spreadRow c).coefficients.getD j 0 * y j = k := by
    intro j hj
    have hj' : j < (m.spreadRow c).coefficients.length := (m.length_spreadRow c).symm ▸ hj
    have hzip : ((m.spreadRow c).coefficients.zip decisions)[j]? =
        some ((m.spreadRow c).coefficients[j], decisions[j]) :=
      List.getElem?_zip_eq_some.2 ⟨List.getElem?_eq_getElem _, List.getElem?_eq_getElem _⟩
    have hentry := hcoefficients _ (List.mem_of_getElem? hzip)
    rw [List.getD_eq_getElem _ _ hj']
    simp only [Bool.or_eq_true, beq_iff_eq, Bool.and_eq_true] at hentry
    rcases hentry with h0 | ⟨hmark, hint⟩
    · exact ⟨0, by rw [h0, zero_mul, Int.cast_zero]⟩
    · obtain ⟨a, ha⟩ := (Fractional.isIntegral_zero_iff _).1 hint
      obtain ⟨l, hl⟩ := hy j (by rw [List.getD_eq_getElem _ _ (hlen ▸ hj)]; exact hmark)
      exact ⟨a * l, by rw [ha, hl, Int.cast_mul]⟩
  obtain ⟨k, hk⟩ := Scalar.exists_sum_intCast hterm
  rw [ColumnMap.sum_spreadRow] at hk
  have hsign : ∃ s : ℤ, (c.rowSign : ℚ) = s := by
    unfold Constraint.rowSign
    split_ifs
    · exact ⟨-1, by simp⟩
    · exact ⟨1, by simp⟩
  obtain ⟨s, hs⟩ := hsign
  have hb : c.rhs = b := hb
  exact ⟨s * (b - k), by rw [Constraint.residual, hs, hb, hk]; push_cast; rfl⟩

/-- There is a mark for every column. -/
theorem Model.Represents.length_integerColumns {m : Model ℚ} {bigM : ℚ} {p : Problem ℚ}
    (h : m.Represents bigM ⟨p, []⟩) (hf : StandardForm.ofProblem p = .ok f) (candidates : List ℕ)
    (tolerance : ℚ) : (integerColumns f candidates tolerance).length = m.tableau.rhsCol := by
  obtain ⟨hcolumns, -, -, hrows⟩ := StandardForm.ofProblem_eq_ok hf
  rw [h.rhsCol_eq, integerColumns_eq, List.length_append, length_decisionMarks, List.length_map,
    hrows, List.length_map, h.columns_eq, hcolumns, Posed.rows, List.append_nil]

/-- The model of a problem relaxes it, with the marks of the cutting-plane method. -/
theorem Model.Represents.relaxes {m : Model ℚ} {bigM : ℚ} {p : Problem ℚ}
    (h : m.Represents bigM ⟨p, []⟩) (hp : p.Indexed) (hf : StandardForm.ofProblem p = .ok f) :
    m.Relaxes (integerColumns f (CuttingPlane.candidates p) 0) p
      (m.columns.Holds (Posed.mk p []).rows) ((Posed.mk p []).penalized bigM) := by
  obtain ⟨hcolumns, -, -, hrows⟩ := StandardForm.ofProblem_eq_ok hf
  have hcol : f.columns = m.columns := hcolumns.trans h.columns_eq.symm
  have hrows : f.rows = (Posed.mk p []).rows.map m.columns.spreadRow := by
    rw [hrows, Posed.rows, List.append_nil, hcol]
  have hfeasible : ∀ x, (Posed.mk p []).current.Feasible x ↔ p.Feasible x := fun x => by
    rw [Posed.current_nil]
  have hmark : ∀ j, (decisionMarks f (CuttingPlane.candidates p)).getD j false = true ↔
      ∃ i, p.IsInteger i ∧ m.columns.directColumn? i = some j := by
    intro j
    have hcandidates : ∀ i, i ∈ CuttingPlane.candidates p ↔ p.IsInteger i := fun i =>
      Problem.mem_integers_iff hp
    rw [getD_decisionMarks, hcol]
    simp only [hcandidates]
  refine ⟨h.stands, ?_, h.columns_eq, ?_, fun i col hi hdirect => ?_, fun y hy => ?_,
    fun y hy => ?_, fun x hx => ?_⟩
  · rw [h.problem_eq, Posed.current_nil]
  · exact h.length_integerColumns hf _ _
  · have hdecision := (hmark col).2 ⟨i, hi, hdirect⟩
    rwa [integerColumns_eq, List.getD_append _ _ _ _ (IntegralAt.lt_of_marked hdecision)]
  · exact (hfeasible _).1 (Posed.feasible_point hp h.columns_eq h.aux_eq hy)
  · rw [Posed.penalized_region h.columns_eq h.aux_eq bigM hy.2.2, Posed.current_nil]
  · obtain ⟨y, hy, rfl⟩ :=
      Posed.exists_region hp h.columns_eq h.aux_eq ((hfeasible _).2 hx.feasible)
    have hdecisions : IntegralAt (decisionMarks f (CuttingPlane.candidates p)) y := by
      intro j hj
      obtain ⟨i, hi, hdirect⟩ := (hmark j).1 hj
      rw [← (ColumnMap.point_directColumn hdirect y).2]
      exact hx.integral i (Problem.isCandidate_iff.2 ⟨hi, j, h.columns_eq ▸ hdirect⟩)
    refine ⟨y, hy, rfl, integralAt_integerColumns hdecisions fun k _ hk hintegral => ?_⟩
    rw [hrows, List.getElem?_map] at hk
    obtain ⟨row, hrow, rfl⟩ := Option.map_eq_some_iff.1 hk
    rw [hcol]
    -- the column of an equality is artificial, and zero; that of another row is its residual
    rcases eq_or_ne row.relation .eq with heq | hne
    · have hart := (Model.isArtificial_iff h.aux_eq k).2 ⟨row, hrow, heq⟩
      exact ⟨0, (hy.2.2 _ hart).trans Int.cast_zero.symm⟩
    · rw [hy.1 k row hrow]
      exact exists_residual (length_decisionMarks.trans (by rw [hcol])) hne hintegral hdecisions

end

/-! ## Cuts -/

namespace Model

variable {m : Model ℚ} {marks : List Bool} {p : Problem ℚ} {E : (ℕ → ℚ) → Prop} {z : (ℕ → ℚ) → ℚ}

/-- The region of a model with an appended row lies in that of the model. -/
theorem region_appendRow_subset {E' : (ℕ → ℚ) → Prop} (hE : ∀ y, E' y → E y)
    (coefficients : List ℚ) (b : ℚ) : (m.appendRow coefficients b).Region E' ⊆ m.Region E := by
  rintro y ⟨hy, hpos, hart⟩
  exact ⟨hE y hy, hpos, fun j hj => hart j (by rwa [isArtificial_appendRow])⟩

/-- Decision columns are columns of the tableau. -/
theorem Stands.lt_rhsCol (h : m.Stands E z) {j : ℕ} (hj : j < m.columns.numColumns) :
    j < m.tableau.rhsCol := by
  rw [h.rhsCol_eq]
  exact Nat.lt_add_right _ hj

/-- No column behind the tableau is artificial. -/
theorem Stands.isArtificial_rhsCol (h : m.Stands E z) :
    m.isArtificial m.tableau.rhsCol = false := by
  rw [h.rhsCol_eq, isArtificial, auxAt?, if_neg (by omega), Nat.add_sub_cancel_left,
    List.getElem?_eq_none le_rfl]
  rfl

/-- An admissible point extends to column values that satisfy a cut, with its slack in the column
behind the others. The slack is an integer unless the cut is mixed. -/
theorem Relaxes.exists_cut_extension (h : m.Relaxes marks p E z) (r : ℕ) {x : List ℚ}
    (hx : p.Admissible x) :
    let cut := GomoryCut.ofRow m.tableau (r + 1) marks 0
    ∃ y ∈ m.Region E, m.columns.point y = x ∧ IntegralAt (marks ++ [!cut.mixed]) y ∧
      ∑ j ∈ Finset.range m.tableau.rhsCol, cut.coefficients.getD j 0 * y j + y m.tableau.rhsCol =
        cut.bound := by
  intro cut
  obtain ⟨y, ⟨hE, hpos, hart⟩, rfl, hint⟩ := h.exists_extension x hx
  obtain ⟨hslack, hinteger⟩ := GomoryCut.slack_ofRow (fun j _ => hpos j) (fun j _ => hint j)
    ((h.stands.states.solves_iff y).2 hE r)
  have hartificial := h.stands.isArtificial_rhsCol
  have hlt : ∀ j < m.columns.numColumns, j < m.tableau.rhsCol := fun j => h.stands.lt_rhsCol
  have hagree : ∀ y' : ℕ → ℚ, (∀ j < m.tableau.rhsCol, y' j = y j) → E y' := fun _ =>
    h.stands.states.of_agree hE
  have hmarks := h.length_marks
  generalize m.tableau.rhsCol = n at *
  let slack := cut.bound - ∑ j ∈ Finset.range n, cut.coefficients.getD j 0 * y j
  have hold : ∀ j, j ≠ n → Function.update y n slack j = y j := fun j hj =>
    Function.update_of_ne hj _ _
  have hnew : Function.update y n slack n = slack := Function.update_self _ _ _
  have hmarked : IntegralAt marks (Function.update y n slack) :=
    hint.congr fun j hj => hold j (hj.trans_eq hmarks).ne
  refine ⟨Function.update y n slack,
    ⟨hagree _ fun j hj => hold j hj.ne, fun j => ?_, fun j hj => ?_⟩,
    ColumnMap.point_congr fun j hj => hold j (hlt j hj).ne, hmarked.append fun hmark => ?_, ?_⟩
  · rcases eq_or_ne j n with rfl | hne
    · rw [hnew]
      exact hslack
    · rw [hold j hne]
      exact hpos j
  · have hne : j ≠ n := by
      rintro rfl
      rw [hartificial] at hj
      cases hj
    rw [hold j hne]
    exact hart j hj
  · rw [hmarks, hnew]
    exact hinteger (by simpa using hmark)
  · have hsum : ∑ j ∈ Finset.range n, cut.coefficients.getD j 0 * Function.update y n slack j =
        ∑ j ∈ Finset.range n, cut.coefficients.getD j 0 * y j :=
      Finset.sum_congr rfl fun j hj => by rw [hold j (Finset.mem_range.1 hj).ne]
    rw [hsum, hnew]
    exact add_sub_cancel _ _

/-- A cut adds its equation. Its source row keeps the basic column, if that is marked, as the entry
is one, and the other rows theirs, as the source row is zero. -/
theorem Stands.appendCut (h : m.Stands E z) {row col : ℕ} (hmark : marks.getD col false = true)
    (hbasic : m.tableau.Basic row col) :
    let cut := GomoryCut.ofRow m.tableau row marks 0
    (m.appendRow cut.coefficients cut.bound).Stands (fun y => E y ∧
      ∑ j ∈ Finset.range m.tableau.rhsCol, cut.coefficients.getD j 0 * y j +
        y m.tableau.rhsCol = cut.bound) z := by
  intro cut
  have hlen : cut.coefficients.length = m.tableau.rhsCol :=
    GomoryCut.length_coefficients h.states.rectangular hbasic.row_lt 0
  refine h.appendRow hlen cut.bound fun k hk hlt => ?_
  rcases eq_or_ne k row with rfl | hne
  · refine ⟨col, hbasic, GomoryCut.coefficient_eq_zero hbasic.lt (.inr ⟨hmark, ?_⟩)⟩
    rw [hbasic.one, Int.fract_one]
  · obtain ⟨j, hj⟩ := h.basis k hk hlt
    exact ⟨j, hj, GomoryCut.coefficient_eq_zero hj.lt (.inl (hj.zero row hne.symm))⟩

/-- A cut from the row of a variable to be integral leaves a relaxation, with the new column marked
unless the cut is mixed. -/
theorem Relaxes.appendCut (h : m.Relaxes marks p E z) {row i col : ℕ} (hi : p.IsInteger i)
    (hcol : m.columns.directColumn? i = some col) (hbasic : m.tableau.Basic row col) :
    let cut := GomoryCut.ofRow m.tableau row marks 0
    ∃ E', (m.appendRow cut.coefficients cut.bound).Relaxes (marks ++ [!cut.mixed]) p E' z := by
  intro cut
  have hrect := h.stands.states.rectangular
  let E' : (ℕ → ℚ) → Prop := fun y => E y ∧
    ∑ j ∈ Finset.range m.tableau.rhsCol, cut.coefficients.getD j 0 * y j + y m.tableau.rhsCol =
      cut.bound
  have hsub : (m.appendRow cut.coefficients cut.bound).Region E' ⊆ m.Region E :=
    region_appendRow_subset (fun y hy => hy.1) _ _
  refine ⟨E', h.stands.appendCut (h.marked i col hi hcol) hbasic, h.problem_eq, h.columns_eq, ?_,
    fun i col hi hcol => ?_, fun y hy => h.feasible y (hsub hy),
    fun y hy => h.objective y (hsub hy), fun x hx => ?_⟩
  · rw [List.length_append, List.length_singleton, h.length_marks]
    exact (hrect.rhsCol_grow _ _).symm
  · have hlt : col < marks.length := by
      rw [h.length_marks]
      exact h.stands.lt_rhsCol (ColumnMap.point_directColumn hcol fun _ => 0).1
    rw [List.getD_append _ _ _ _ hlt]
    exact h.marked i col hi hcol
  · obtain ⟨r, rfl⟩ := Nat.exists_eq_add_one_of_ne_zero hbasic.pos.ne'
    obtain ⟨y, ⟨hE, hpos, hart⟩, hpoint, hint, heq⟩ := h.exists_cut_extension r hx
    exact ⟨y, ⟨⟨hE, heq⟩, hpos, fun j hj => hart j (by rwa [isArtificial_appendRow] at hj)⟩, hpoint,
      hint⟩

/-! ## Optima -/

/-- Pivots leave a relaxation. -/
theorem Relaxes.carries (h : m.Relaxes marks p E z) {t : Tableau ℚ} (ht : m.Carries E z t) :
    ({ m with tableau := t } : Model ℚ).Relaxes marks p E z where
  stands := ht.stands h.stands
  problem_eq := h.problem_eq
  columns_eq := h.columns_eq
  length_marks := h.length_marks.trans ht.rhsCol_eq.symm
  marked := h.marked
  feasible := h.feasible
  objective := h.objective
  exists_extension := h.exists_extension

/-- An optimum that is integral in the candidate variables is the best value over the admissible
points. -/
theorem Relaxes.isBest (h : m.Relaxes marks p E z) {sol : Solution ℚ} (ha : m.Answers sol)
    (hopt : sol.status = .optimal)
    (hint : ∀ i, p.IsCandidate i → ∃ k : ℤ, (sol.decisionValues p.numVariables).getD i 0 = k) :
    ∃ v, sol.optimalValue = some v ∧
      p.sense.IsBest (p.objectiveValue '' {x | p.Admissible x}) v := by
  obtain ⟨hshows, hart, hvalue, hvalues, -⟩ := ha.of_optimal hopt
  have hn : m.columns.numVariables = p.numVariables := by
    rw [h.columns_eq]
    exact List.length_map _
  rw [← hn, decisionValues_eq hvalues, variableValues_eq] at hint
  rw [h.problem_eq] at hvalue
  refine ⟨_, hvalue, Sense.isBest_iff.2 ⟨?_, ?_⟩⟩
  · obtain ⟨y, hy, hz, hbasic⟩ := h.stands.exists_mem_region hshows.rhs_nonneg hart
    refine ⟨_, ⟨h.feasible y hy, fun i hi => ?_⟩, ?_⟩
    · -- the column of a candidate is zero or has the value that is read
      obtain ⟨-, col, hcol⟩ := Problem.isCandidate_iff.1 hi
      rw [← h.columns_eq] at hcol
      obtain ⟨k, hk⟩ := hint i hi
      rw [(ColumnMap.point_directColumn hcol _).2] at hk ⊢
      rcases hbasic col with h0 | ⟨r, hr, hrhs⟩
      · exact ⟨0, h0.trans Int.cast_zero.symm⟩
      · exact ⟨k, by rw [hrhs, ← columnValue_of_basic hr, hk]⟩
    · rw [← hz, h.objective y hy, Sense.ofMaximized_ofMaximized]
  · rintro _ ⟨x, hx, rfl⟩
    obtain ⟨y, hy, rfl, -⟩ := h.exists_extension x hx
    rw [Sense.ofMaximized_ofMaximized, ← h.objective y hy]
    exact h.stands.le_optimum hshows hy

end Model
end LinOpt
