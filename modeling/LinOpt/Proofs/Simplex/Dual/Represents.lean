import LinOpt.Proofs.Simplex.Dual.Counters
import LinOpt.Proofs.Tableau.Basis

/-!
# What a model of the dual method stands for

The tableau of a model stands for the equations of the standard rows of a problem
(`ColumnMap.Holds`: the auxiliary column of every row has the residual of the row at the point) and,
in row `0`, for the maximized objective less the penalty on the artificial columns
(`Posed.penalized`). With the shape of the tableau this is `Model.Describes`, which holds at any
tolerance. At tolerance zero there is a basis too (`Model.Represents`), which makes it the invariant
of everything that the dual method does.

The column values that count are those of `Model.Region`: non-negative, and zero in artificial
columns. They are the feasible points once more (`Posed.feasible_point`, `Posed.exists_region`), and
on them there is no penalty (`Posed.penalized_region`).
-/

namespace LinOpt

/-! ## Artificial columns -/

namespace Model

section Any

variable {α : Type} {m : Model α}

/-- Decision columns are not artificial. -/
theorem isArtificial_of_lt {j : ℕ} (hj : j < m.numDecisions) : m.isArtificial j = false := by
  rw [isArtificial, auxAt?, if_pos hj]
  rfl

variable [Scalar α]

/-- The artificial columns are those of the equalities. -/
theorem isArtificial_iff {rows : List (Constraint α)} (h : m.aux = AuxColumn.ofRows rows) (k : ℕ) :
    m.isArtificial (m.numDecisions + k) ↔ ∃ row, rows[k]? = some row ∧ row.relation = .eq := by
  have hkind := AuxColumn.kind_ofRows rows k
  rw [isArtificial, auxAt?, if_neg (by omega), Nat.add_sub_cancel_left, h]
  cases hr : rows[k]? with
  | none =>
    rw [hr] at hkind
    rw [Option.map_eq_none_iff.1 hkind]
    simp
  | some row =>
    rw [hr] at hkind
    obtain ⟨a, ha, hak⟩ := Option.map_eq_some_iff.1 hkind
    rw [ha]
    cases hrel : row.relation <;> simp [hak, hrel, Relation.auxKind]

end Any

/-- Column values that satisfy the equations, are not negative, and are zero in artificial columns.
-/
def Region (m : Model ℚ) (E : (ℕ → ℚ) → Prop) : Set (ℕ → ℚ) :=
  {y | E y ∧ (∀ j, 0 ≤ y j) ∧ ∀ j, m.isArtificial j → y j = 0}

end Model

/-! ## The equations of the rows -/

/-- The auxiliary column of every row has the residual of the row. -/
def ColumnMap.Holds (m : ColumnMap) (rows : List (Constraint ℚ)) (y : ℕ → ℚ) : Prop :=
  ∀ k row, rows[k]? = some row → y (m.numColumns + k) = row.residual (m.point y)

/-- The sum of the artificial columns. -/
def ColumnMap.artificialSum (m : ColumnMap) (rows : List (Constraint ℚ)) (y : ℕ → ℚ) : ℚ :=
  ∑ k ∈ Finset.range rows.length,
    if rows[k]?.any (·.relation = .eq) then y (m.numColumns + k) else 0

namespace ColumnMap

variable {m : ColumnMap}

/-- One row more is one equation more. -/
theorem holds_concat {rows : List (Constraint ℚ)} {row : Constraint ℚ} {y : ℕ → ℚ} :
    m.Holds (rows ++ [row]) y ↔
      m.Holds rows y ∧ y (m.numColumns + rows.length) = row.residual (m.point y) := by
  constructor
  · intro h
    refine ⟨fun k r hr => h k r ?_, h rows.length row (by simp)⟩
    rw [List.getElem?_append_left (List.getElem?_eq_some_iff.1 hr).1, hr]
  · rintro ⟨h, hlast⟩ k r hr
    rcases Nat.lt_trichotomy k rows.length with hk | hk | hk
    · exact h k r (by rwa [List.getElem?_append_left hk] at hr)
    · subst hk
      rw [List.getElem?_concat_length] at hr
      rw [← Option.some.inj hr]
      exact hlast
    · rw [List.getElem?_eq_none (by simp; omega)] at hr
      cases hr

/-- Any values of the decision columns go with values of the auxiliary columns. -/
theorem exists_holds (m : ColumnMap) (rows : List (Constraint ℚ)) (y : ℕ → ℚ) :
    ∃ y', m.Holds rows y' ∧ (∀ j < m.numColumns, y' j = y j) ∧
      ∀ k, rows.length ≤ k → y' (m.numColumns + k) = 0 := by
  -- the decision columns are as they were, and every auxiliary column has the residual of its row
  let aux : ℕ → ℚ := fun k => (rows[k]?.map (·.residual (m.point y))).getD 0
  let y' : ℕ → ℚ := fun j => if j < m.numColumns then y j else aux (j - m.numColumns)
  have hdec : ∀ j < m.numColumns, y' j = y j := fun j hj => if_pos hj
  have haux : ∀ k, y' (m.numColumns + k) = aux k := by
    intro k
    show (if m.numColumns + k < m.numColumns then _ else aux (m.numColumns + k - m.numColumns)) = _
    rw [if_neg (by omega), Nat.add_sub_cancel_left]
  refine ⟨y', fun k row hk => ?_, hdec, fun k hk => ?_⟩
  · rw [haux, point_congr hdec]
    show (rows[k]?.map _).getD 0 = _
    rw [hk]
    rfl
  · rw [haux]
    show (rows[k]?.map _).getD 0 = _
    rw [List.getElem?_eq_none hk]
    rfl

/-- One row more adds its column if it is an equality. -/
theorem artificialSum_concat (rows : List (Constraint ℚ)) (row : Constraint ℚ) (y : ℕ → ℚ) :
    m.artificialSum (rows ++ [row]) y = m.artificialSum rows y +
      if row.relation = .eq then y (m.numColumns + rows.length) else 0 := by
  have hold : ∀ k ∈ Finset.range rows.length,
      (if (rows ++ [row])[k]?.any (·.relation = .eq) then y (m.numColumns + k) else 0) =
        if rows[k]?.any (·.relation = .eq) then y (m.numColumns + k) else 0 := by
    intro k hk
    rw [List.getElem?_append_left (Finset.mem_range.1 hk)]
  rw [artificialSum, List.length_append, List.length_singleton, Finset.sum_range_succ,
    Finset.sum_congr rfl hold, List.getElem?_concat_length]
  simp [artificialSum]

end ColumnMap

/-! ## Representing a problem -/

namespace Posed

/-- What row `0` states: the maximized objective less the penalty on artificial columns. -/
def penalized (q : Posed ℚ) (bigM : ℚ) (y : ℕ → ℚ) : ℚ :=
  let m := ColumnMap.ofProblem q.problem
  PrimalSimplex.ofMaximized q.problem.sense (q.problem.objectiveValue (m.point y)) -
    bigM * m.artificialSum q.rows y

end Posed

/-- The tableau of a model stands for equations and an objective, and has a basis. -/
structure Model.Stands (m : Model ℚ) (E : (ℕ → ℚ) → Prop) (z : (ℕ → ℚ) → ℚ) : Prop where
  states : m.tableau.States E z
  basis : m.tableau.HasBasis
  rhsCol_eq : m.tableau.rhsCol = m.numDecisions + m.aux.length

/-- The tableau of a model states the equations and the objective of a problem that grew since it
was solved. Nothing is said of a basis. -/
structure Model.Describes (m : Model ℚ) (bigM : ℚ) (q : Posed ℚ) : Prop where
  problem_eq : m.problem = q.current
  columns_eq : m.columns = .ofProblem q.problem
  aux_eq : m.aux = AuxColumn.ofRows q.rows
  counted : m.Counted
  numRows_eq : m.tableau.numRows = q.rows.length + 1
  rhsCol_eq : m.tableau.rhsCol = m.columns.numColumns + q.rows.length
  states : m.tableau.States (m.columns.Holds q.rows) (q.penalized bigM)

/-- A model represents a problem that grew since it was solved. -/
structure Model.Represents (m : Model ℚ) (bigM : ℚ) (q : Posed ℚ) : Prop where
  problem_eq : m.problem = q.current
  columns_eq : m.columns = .ofProblem q.problem
  aux_eq : m.aux = AuxColumn.ofRows q.rows
  counted : m.Counted
  numRows_eq : m.tableau.numRows = q.rows.length + 1
  stands : m.Stands (m.columns.Holds q.rows) (q.penalized bigM)

/-- The tableau has a column for every decision column and every row. -/
theorem Model.Represents.rhsCol_eq {m : Model ℚ} {bigM : ℚ} {q : Posed ℚ}
    (h : m.Represents bigM q) : m.tableau.rhsCol = m.columns.numColumns + q.rows.length := by
  rw [h.stands.rhsCol_eq, h.aux_eq, AuxColumn.length_ofRows]
  rfl

/-- To represent is to describe with a basis. -/
theorem Model.Represents.describes {m : Model ℚ} {bigM : ℚ} {q : Posed ℚ}
    (h : m.Represents bigM q) : m.Describes bigM q :=
  ⟨h.problem_eq, h.columns_eq, h.aux_eq, h.counted, h.numRows_eq, h.rhsCol_eq, h.stands.states⟩

/-- A model that describes its problem and has a basis represents it. -/
theorem Model.Describes.represents {m : Model ℚ} {bigM : ℚ} {q : Posed ℚ} (h : m.Describes bigM q)
    (hb : m.tableau.HasBasis) : m.Represents bigM q := by
  refine ⟨h.problem_eq, h.columns_eq, h.aux_eq, h.counted, h.numRows_eq, h.states, hb, ?_⟩
  rw [h.rhsCol_eq, h.aux_eq, AuxColumn.length_ofRows]
  rfl

/-- The sum of the artificial columns, by what the model says of each. -/
theorem Model.Describes.artificialSum_eq {m : Model ℚ} {bigM : ℚ} {q : Posed ℚ}
    (h : m.Describes bigM q) (y : ℕ → ℚ) :
    m.columns.artificialSum q.rows y = ∑ k ∈ Finset.range q.rows.length,
      if m.isArtificial (m.numDecisions + k) then y (m.numDecisions + k) else 0 := by
  refine Finset.sum_congr rfl fun k _ => ?_
  have hart : q.rows[k]?.any (·.relation = .eq) = m.isArtificial (m.numDecisions + k) := by
    rw [Bool.eq_iff_iff, Option.any_eq_true, isArtificial_iff h.aux_eq k]
    exact exists_congr fun row => and_congr_right fun _ => decide_eq_true_iff
  rw [hart]
  rfl

/-- An artificial column is that of an equality. -/
theorem Model.Represents.exists_equality {m : Model ℚ} {bigM : ℚ} {q : Posed ℚ}
    (h : m.Represents bigM q) {j : ℕ} (hj : m.isArtificial j) :
    ∃ k row, j = m.columns.numColumns + k ∧ q.rows[k]? = some row ∧ row.relation = .eq := by
  rcases Nat.lt_or_ge j m.numDecisions with hlt | hge
  · rw [isArtificial_of_lt hlt] at hj
    cases hj
  · obtain ⟨k, rfl⟩ := Nat.exists_eq_add_of_le hge
    obtain ⟨row, hrow, heq⟩ := (isArtificial_iff h.aux_eq k).1 hj
    exact ⟨k, row, rfl, hrow, heq⟩

namespace Posed

variable {q : Posed ℚ} {m : Model ℚ} {y : ℕ → ℚ}

/-- Column values of the region stand for a feasible point. -/
theorem feasible_point (hq : q.problem.Indexed) (hcol : m.columns = .ofProblem q.problem)
    (haux : m.aux = AuxColumn.ofRows q.rows) (hy : y ∈ m.Region (m.columns.Holds q.rows)) :
    q.current.Feasible (m.columns.point y) := by
  obtain ⟨hE, hpos, hart⟩ := hy
  refine (feasible_iff hq).2 ⟨?_, fun c hc => ?_⟩
  · rw [← hcol]
    exact m.columns.admits_point hpos
  · obtain ⟨k, hk⟩ := List.mem_iff_getElem?.1 hc
    have hres := hE k c hk
    refine (c.isSatisfied_iff _).2 ⟨hres ▸ hpos _, fun heq => ?_⟩
    rw [← hres]
    exact hart _ ((Model.isArtificial_iff haux k).2 ⟨c, hk, heq⟩)

/-- Every feasible point is that of column values of the region. -/
theorem exists_region (hq : q.problem.Indexed) (hcol : m.columns = .ofProblem q.problem)
    (haux : m.aux = AuxColumn.ofRows q.rows) {x : List ℚ} (hx : q.current.Feasible x) :
    ∃ y ∈ m.Region (m.columns.Holds q.rows), m.columns.point y = x := by
  obtain ⟨hpl, hrows⟩ := (feasible_iff hq).1 hx
  rw [← hcol] at hpl
  obtain ⟨y, hpos, rfl⟩ := ColumnMap.exists_point hpl
  have hres : ∀ (k : ℕ) (row : Constraint ℚ), q.rows[k]? = some row →
      0 ≤ row.residual (m.columns.point y) ∧
        (row.relation = .eq → row.residual (m.columns.point y) = 0) := fun k row hk =>
    (row.isSatisfied_iff _).1 (hrows row (List.mem_of_getElem? hk))
  obtain ⟨y', hE, hdec, hbehind⟩ := m.columns.exists_holds q.rows y
  have hpoint : m.columns.point y' = m.columns.point y := ColumnMap.point_congr hdec
  refine ⟨y', ⟨hE, fun j => ?_, fun j hj => ?_⟩, hpoint⟩
  · rcases Nat.lt_or_ge j m.columns.numColumns with hjn | hjn
    · rw [hdec j hjn]
      exact hpos j
    · obtain ⟨k, rfl⟩ := Nat.exists_eq_add_of_le hjn
      cases hk : q.rows[k]? with
      | none => exact (hbehind k (List.getElem?_eq_none_iff.1 hk)).ge
      | some row =>
        rw [hE k row hk, hpoint]
        exact (hres k row hk).1
  · rcases Nat.lt_or_ge j m.columns.numColumns with hjn | hjn
    · rw [Model.isArtificial_of_lt (m := m) hjn] at hj
      cases hj
    · obtain ⟨k, rfl⟩ := Nat.exists_eq_add_of_le hjn
      obtain ⟨row, hk, heq⟩ := (Model.isArtificial_iff haux k).1 hj
      rw [hE k row hk, hpoint]
      exact (hres k row hk).2 heq

/-- Where the artificial columns are zero there is no penalty. -/
theorem penalized_region (hcol : m.columns = .ofProblem q.problem)
    (haux : m.aux = AuxColumn.ofRows q.rows) (bigM : ℚ)
    (hy : ∀ j, m.isArtificial j → y j = 0) : q.penalized bigM y =
      PrimalSimplex.ofMaximized q.current.sense (q.current.objectiveValue (m.columns.point y)) := by
  have hsum : (ColumnMap.ofProblem q.problem).artificialSum q.rows y = 0 := by
    refine Finset.sum_eq_zero fun k _ => ?_
    split_ifs with hk
    · obtain ⟨row, hrow, heq⟩ := Option.any_eq_true _ _ |>.1 hk
      rw [← hcol]
      exact hy _ ((Model.isArtificial_iff haux k).2 ⟨row, hrow, of_decide_eq_true heq⟩)
    · rfl
  rw [penalized, hsum, mul_zero, sub_zero, hcol]
  rfl

end Posed
end LinOpt
