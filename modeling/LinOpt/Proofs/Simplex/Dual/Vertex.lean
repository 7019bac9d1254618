import LinOpt.Proofs.Simplex.Dual.History

/-!
# The vertex behind an optimum

The values that an optimum reports need not be those of a feasible point, because several columns
may be read from one row. But the optimal value is attained at a vertex each of whose coordinates is
zero or as reported (`Model.Represents.exists_vertex`), so a variable that reads as an integer is an
integer there.

For variables with one column this is the basic solution. A variable with two columns has the
difference of both, and it matters that they are never read together: they are opposite in every row
(`Model.Represents.entry_add_entry`), so no row shows both as unit vectors.
-/

namespace LinOpt

open ColumnMap (twins)
open Placement (totalWidth)

/-- Of two columns with opposite entries one at most is basic. -/
theorem Tableau.Basic.not_basic_of_opposite {t : Tableau ℚ} {i k f g : ℕ} (h : t.Basic i f)
    (hopposite : ∀ i, t.entry i f + t.entry i g = 0) : ¬t.Basic k g := by
  intro h'
  have hi := hopposite i
  rw [h.one] at hi
  rcases eq_or_ne i k with rfl | hik
  · rw [h'.one] at hi
    norm_num at hi
  · rw [h'.zero i hik] at hi
    norm_num at hi

namespace Model

variable {m : Model ℚ} {bigM : ℚ} {q : Posed ℚ}

/-- A decision column that is basic nowhere reads as zero. -/
theorem columnValue_eq_zero {j : ℕ} (hj : j < m.numDecisions) (hlt : j < m.tableau.rhsCol)
    (h : ∀ i, ¬m.tableau.Basic i j) : m.columnValue 0 j = 0 :=
  columnValue_of_basicRow_eq_none hj <|
    Option.eq_none_iff_forall_ne_some.2 fun i hi => h i ((Tableau.basicRow_eq_some hlt).1 hi)

/-- Growing the two columns of a variable alike changes neither the equations nor the objective, so
their entries are opposite in every row. -/
theorem Represents.entry_add_entry (h : m.Represents bigM q) {v : ℕ}
    (hv : m.columns.placements[v]? = some .split) (i : ℕ) :
    let f := totalWidth (m.columns.placements.take v)
    m.tableau.entry i f + m.tableau.entry i (f + 1) = 0 := by
  intro f
  obtain ⟨y, hE, -, -⟩ := h.stands.states.exists_basicSolution h.stands.basis
  have hle : f + 2 ≤ m.columns.numColumns := (ColumnMap.getElem?_point hv y).1
  have hpoint : m.columns.point (y + twins f) = m.columns.point y := ColumnMap.point_add_twins hv y
  have haux : ∀ k, (y + twins f) (m.columns.numColumns + k) = y (m.columns.numColumns + k) := by
    intro k
    rw [Pi.add_apply, ColumnMap.twins_of_ne (by omega) (by omega), add_zero]
  have hE' : m.columns.Holds q.rows (y + twins f) := by
    intro k row hk
    rw [haux, hpoint]
    exact hE k row hk
  have hz : q.penalized bigM (y + twins f) = q.penalized bigM y := by
    rw [h.columns_eq] at hpoint haux
    simp only [Posed.penalized, ColumnMap.artificialSum, hpoint, haux]
  have hsum := h.stands.states.rowSum_eq_zero hE hE' hz i
  have hlt : f + 1 < m.tableau.rhsCol := by
    have hrhs := h.stands.rhsCol_eq
    have hn : m.numDecisions = m.columns.numColumns := rfl
    omega
  have hterm : ∀ j ∈ Finset.range m.tableau.rhsCol, m.tableau.entry i j * twins f j =
      (if j = f then m.tableau.entry i f else 0) +
        if j = f + 1 then m.tableau.entry i (f + 1) else 0 := by
    intro j _
    rcases eq_or_ne j f with rfl | hf
    · simp [twins]
    · rcases eq_or_ne j (f + 1) with rfl | hf'
      · simp [twins]
      · rw [ColumnMap.twins_of_ne hf hf', if_neg hf, if_neg hf', mul_zero, add_zero]
  rw [Tableau.rowSum, Finset.sum_congr rfl hterm, Finset.sum_add_distrib, Finset.sum_ite_eq',
    Finset.sum_ite_eq', if_pos (Finset.mem_range.2 (by omega)),
    if_pos (Finset.mem_range.2 hlt)] at hsum
  exact hsum

/-- An optimum without positive artificial column is attained at a point of the region each of whose
coordinates is zero or as reported. -/
theorem Represents.exists_vertex (h : m.Represents bigM q) (hs : m.Shows m.tableau .done)
    (hart : m.positiveArtificial? 0 = none) :
    ∃ y ∈ m.Region (m.columns.Holds q.rows), q.penalized bigM y = m.tableau.objectiveValue ∧
      ∀ v, (m.columns.point y).getD v 0 = 0 ∨
        (m.columns.point y).getD v 0 = (m.variableValues 0).getD v 0 := by
  obtain ⟨y, hy, hz, hbasic⟩ := h.stands.exists_mem_region hs.rhs_nonneg hart
  have hread : ∀ j, y j = 0 ∨ ∃ i, m.tableau.Basic i j ∧ y j = m.columnValue 0 j := by
    intro j
    refine (hbasic j).imp_right fun ⟨i, hi, hyj⟩ => ⟨i, hi, ?_⟩
    rw [hyj, columnValue_of_basic hi]
  refine ⟨y, hy, hz, fun v => ?_⟩
  rw [variableValues_eq, List.getD_eq_getElem?_getD, List.getD_eq_getElem?_getD]
  cases hv : m.columns.placements[v]? with
  | none =>
    left
    have hlen : (m.columns.point y).length ≤ v := by
      rw [ColumnMap.length_point]
      exact List.getElem?_eq_none_iff.1 hv
    rw [List.getElem?_eq_none hlen]
    rfl
  | some p =>
    obtain ⟨hle, hpoint⟩ := ColumnMap.getElem?_point hv y
    rw [hpoint, (ColumnMap.getElem?_point hv _).2, Option.getD_some, Option.getD_some]
    cases p with
    | direct => exact (hread _).imp_right fun ⟨_, _, hf⟩ => hf
    | negated =>
      rcases hread (totalWidth (m.columns.placements.take v)) with h0 | ⟨_, _, hf⟩
      · exact .inl (neg_eq_zero.2 h0)
      · exact .inr (congrArg (- ·) hf)
    | split =>
      have hopposite := h.entry_add_entry hv
      generalize totalWidth (m.columns.placements.take v) = f at hle hopposite ⊢
      have hlt : f + 1 < m.numDecisions := hle
      have hrhs := h.stands.rhsCol_eq
      rcases hread f with h0 | ⟨i, hi, hf⟩
      · rcases hread (f + 1) with h1 | ⟨i, hi, hf⟩
        · exact .inl (sub_eq_zero.2 (h0.trans h1.symm))
        · -- the second column is read, so the first is not
          have hnot : m.columnValue 0 f = 0 := columnValue_eq_zero (by omega) (by omega) fun k hk =>
            hk.not_basic_of_opposite hopposite hi
          exact .inr (congrArg₂ (· - ·) (h0.trans hnot.symm) hf)
      · have hnot : ∀ k, ¬m.tableau.Basic k (f + 1) := fun k => hi.not_basic_of_opposite hopposite
        have h0 : m.columnValue 0 (f + 1) = 0 := columnValue_eq_zero hlt (by omega) hnot
        rcases hread (f + 1) with h1 | ⟨k, hk, -⟩
        · exact .inr (congrArg₂ (· - ·) hf (h1.trans h0.symm))
        · exact absurd hk (hnot k)

end Model
end LinOpt
