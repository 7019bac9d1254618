import LinOpt.Proofs.Simplex.Dual.History

/-!
# The equations behind a tableau

At every tolerance the tableau of a solver states the equations of the problem that stands, one for
each row, and the objective with its penalties (`Model.Equates`). A tolerance decides which entries
count as zero when pivots are chosen and new rows are cleared, but whatever it lets pass, a pivot
element is not zero and old rows are taken from the new one in full multiples. So nothing is lost
whichever verdicts the history ended with (`DualSimplex.run_equates`). Bases, which tolerances can
destroy, play no part here.
-/

namespace LinOpt

/-- The factor of a row as its auxiliary column records it. -/
def AuxColumn.sign (a : AuxColumn) : ℚ := if a.negated then -1 else 1

/-- The auxiliary column of a row records the sign that the row is multiplied by. -/
theorem AuxColumn.sign_ofRows {rows : List (Constraint ℚ)} {k : ℕ} {row : Constraint ℚ}
    {a : AuxColumn} (hrow : rows[k]? = some row) (ha : (ofRows rows)[k]? = some a) :
    a.sign = row.rowSign := by
  have hneg := negated_ofRows rows k
  rw [hrow, ha, Option.map_some, Option.map_some, Option.some_inj] at hneg
  rw [sign, Constraint.rowSign, hneg]

namespace Model

variable {m : Model ℚ} {bigM : ℚ} {q : Posed ℚ}

/-! ## Written out -/

/-- The tableau of a model, written out: its solutions are the values that satisfy, for every row,
the translated coefficients times the decision columns, plus the auxiliary column of the row; and
row `0` states the translated objective less the penalty on the artificial columns. -/
structure Equates (m : Model ℚ) (bigM : ℚ) (q : Posed ℚ) : Prop where
  columns_eq : m.columns = .ofProblem q.problem
  length_aux : m.aux.length = q.rows.length
  rectangular : m.tableau.Rectangular
  rhsCol_eq : m.tableau.rhsCol = m.numDecisions + m.aux.length
  solves_iff : ∀ y, m.tableau.Solves y ↔ ∀ k row a, q.rows[k]? = some row → m.aux[k]? = some a →
    a.sign * Scalar.dot (ColumnMap.spreadAll m.columns.placements row.coefficients)
      ((List.range m.numDecisions).map y) + y (m.numDecisions + k) = a.sign * row.rhs
  objective_eq : ∀ y, m.tableau.Solves y →
    m.tableau.rowSum 0 y +
      (PrimalSimplex.ofMaximized q.problem.sense
        (Scalar.dot (ColumnMap.spreadAll m.columns.placements q.problem.objective)
          ((List.range m.numDecisions).map y)) -
        bigM * ∑ j ∈ Finset.range m.tableau.rhsCol, if m.isArtificial j then y j else 0) =
      m.tableau.objectiveValue

/-- The sum of the artificial columns, over all columns. -/
theorem Describes.artificialSum_columns (h : m.Describes bigM q) (y : ℕ → ℚ) :
    m.columns.artificialSum q.rows y =
      ∑ j ∈ Finset.range m.tableau.rhsCol, if m.isArtificial j then y j else 0 := by
  have hdec : ∀ j ∈ Finset.range m.columns.numColumns,
      (if m.isArtificial j then y j else 0) = 0 := by
    intro j hj
    rw [isArtificial_of_lt (m := m) (Finset.mem_range.1 hj)]
    exact if_neg Bool.false_ne_true
  rw [h.artificialSum_eq, h.rhsCol_eq, Finset.sum_range_add, Finset.sum_eq_zero hdec, zero_add]
  rfl

/-- The translated coefficients at the columns are the coefficients at the point. -/
theorem dot_columns (m : Model ℚ) (as : List ℚ) (y : ℕ → ℚ) :
    Scalar.dot (ColumnMap.spreadAll m.columns.placements as) ((List.range m.numDecisions).map y) =
      Scalar.dot as (m.columns.point y) := ColumnMap.dot_spreadAll _ _ _

/-- A tableau that describes a problem states its equations. -/
theorem Describes.equates (h : m.Describes bigM q) : m.Equates bigM q where
  columns_eq := h.columns_eq
  length_aux := by rw [h.aux_eq, AuxColumn.length_ofRows]
  rectangular := h.states.rectangular
  rhsCol_eq := by
    rw [h.rhsCol_eq, h.aux_eq, AuxColumn.length_ofRows]
    rfl
  solves_iff y := by
    have hrow : ∀ k row a, q.rows[k]? = some row → m.aux[k]? = some a →
        (y (m.columns.numColumns + k) = row.residual (m.columns.point y) ↔
          a.sign * Scalar.dot row.coefficients (m.columns.point y) + y (m.numDecisions + k) =
            a.sign * row.rhs) := by
      intro k row a hk ha
      rw [h.aux_eq] at ha
      rw [AuxColumn.sign_ofRows hk ha, Constraint.residual, mul_sub]
      exact eq_sub_iff_add_eq'
    simp only [dot_columns]
    rw [h.states.solves_iff]
    constructor
    · exact fun hy k row a hk ha => (hrow k row a hk ha).1 (hy k row hk)
    · intro hy k row hk
      have hlt : k < m.aux.length := by
        rw [h.aux_eq, AuxColumn.length_ofRows]
        exact (List.getElem?_eq_some_iff.1 hk).1
      have ha := List.getElem?_eq_getElem hlt
      exact (hrow k row _ hk ha).2 (hy k row _ hk ha)
  objective_eq y hy := by
    have hz := h.states.objective_eq y ((h.states.solves_iff y).1 hy)
    rw [Posed.penalized, ← h.columns_eq, h.artificialSum_columns] at hz
    rw [dot_columns]
    exact hz

/-! ## What keeps the equations -/

/-- A pivot on a constraint row goes on describing the same problem. -/
theorem Describes.pivot (h : m.Describes bigM q) {tolerance : ℚ} (ht : 0 ≤ tolerance) {row col : ℕ}
    {t : Tableau ℚ} (hrow : 0 < row) (hp : m.tableau.pivot row col tolerance = .ok t) :
    ({ m with tableau := t } : Model ℚ).Describes bigM q := by
  obtain ⟨hne, rfl⟩ := Tableau.pivot_eq_ok hp
  have hne := abs_pos.1 (ht.trans_lt hne)
  obtain ⟨i, rfl⟩ := Nat.exists_eq_add_one_of_ne_zero hrow.ne'
  refine ⟨h.problem_eq, h.columns_eq, h.aux_eq, h.counted, ?_, ?_, h.states.eliminate hne⟩
  · exact (Tableau.numRows_eliminate _ _ _).trans h.numRows_eq
  · rw [← h.rhsCol_eq]
    exact congrArg (· - 1)
      (h.states.rectangular.eliminate (Tableau.lt_numRows_of_entry_ne hne) col).2

end Model

namespace Session

variable {s : Session ℚ} {c : Config ℚ} {q : Posed ℚ}

/-- An optimization goes on describing the same problem, whatever it ends with. -/
theorem optimize_describes (ht : 0 ≤ c.tolerance) (h : s.model.Describes c.bigM q) (j : Journal ℚ) :
    (s.optimize c j).state.model.Describes c.bigM q := by
  have hend := Progress.phases_invariant c s.model
    (P := fun t => ({ s.model with tableau := t } : Model ℚ).Describes c.bigM q)
    (fun phase t row col t' hd hplan hp => hd.pivot ht (Model.row_range_of_plan hplan).1 hp)
    ⟨s.model.tableau, s.trail, s.pivots, j⟩ h
  unfold optimize
  generalize Progress.phases _ c s.model = out at hend
  obtain ⟨p, verdict⟩ := out
  cases verdict with
  | error e => exact hend
  | ok v => exact hend

/-- A constraint that the problem takes is described with the others, and one that it refuses
changes nothing. -/
theorem addConstraint_describes (ht : 0 ≤ c.tolerance) (h : s.model.Describes c.bigM q)
    (k : Constraint ℚ) (j : Journal ℚ) :
    ∃ q', (Request.add k).pose (some q) = some q' ∧
      (s.addConstraint c k j).state.model.Describes c.bigM q' := by
  have haccept := h.exists_extend_iff c k
  simp only [addConstraint, Request.pose]
  cases hext : s.model.extend c k with
  | error e =>
    cases hadd : q.current.addConstraint k with
    | error e => exact ⟨q, rfl, h⟩
    | ok p =>
      obtain ⟨m, hm⟩ := haccept.2 ⟨p, hadd⟩
      cases hext.symm.trans hm
  | ok m =>
    obtain ⟨p, hadd⟩ := haccept.1 ⟨m, hext⟩
    rw [hadd]
    exact ⟨q.add k, rfl, optimize_describes ht (s := ⟨m, _, s.pivots⟩) (h.extend hext) _⟩

end Session

/-! ## Histories -/

namespace DualSimplex

/-- The session of a solver describes the problem that stands. -/
inductive Follows (c : Config ℚ) : DualSimplex ℚ → Option (Posed ℚ) → Prop where
  | idle : Follows c ⟨c, none⟩ none
  | session {s : Session ℚ} {q : Posed ℚ} (h : s.model.Describes c.bigM q) :
      Follows c ⟨c, some s⟩ (some q)

variable {c : Config ℚ} {d : DualSimplex ℚ} {o : Option (Posed ℚ)}

/-- At any tolerance a request is followed. -/
theorem Follows.request (ht : 0 ≤ c.tolerance) (h : Follows c d o) (r : Request ℚ) (j : Journal ℚ) :
    Follows c (d.request r j).state (r.pose o) := by
  cases r with
  | solve p =>
    obtain ⟨conf, session⟩ := d
    obtain rfl : conf = c := by cases h <;> rfl
    have haccept := Session.exists_start_iff conf p j
    simp only [DualSimplex.request, Request.pose, DualSimplex.solve]
    cases hstart : Session.start conf p j with
    | error e =>
      rw [if_neg fun hf => by obtain ⟨_, hm⟩ := haccept.2 hf; cases hstart.symm.trans hm]
      cases h with
      | idle => exact .idle
      | session h => exact .session h
    | ok started =>
      rw [if_pos (haccept.1 ⟨started, hstart⟩)]
      exact .session (Session.optimize_describes ht (Session.start_represents hstart).describes _)
  | add k =>
    cases h with
    | idle => exact .idle
    | session h =>
      obtain ⟨q', hq', hdesc⟩ := Session.addConstraint_describes ht h k j
      rw [hq']
      exact .session hdesc

/-- At any tolerance a history of requests is followed. -/
theorem Follows.run (ht : 0 ≤ c.tolerance) (history : List (Request ℚ × Journal ℚ)) :
    Follows c (run ⟨c, none⟩ history) (Request.posed history) := by
  induction history using List.reverseRecOn with
  | nil => exact .idle
  | append_singleton history r ih =>
    rw [DualSimplex.run, Request.posed, List.foldl_append, List.foldl_append]
    exact ih.request ht r.1 r.2

/-- After any history of requests, at any tolerance and whatever was answered, the tableau of the
solver states the equations of the problem that stands and its objective with the penalties. -/
theorem run_equates (ht : 0 ≤ c.tolerance) (history : List (Request ℚ × Journal ℚ)) {q : Posed ℚ}
    (hq : Request.posed history = some q) :
    ∃ s, (run ⟨c, none⟩ history).session = some s ∧ s.model.Equates c.bigM q := by
  have hfollows := Follows.run ht history
  rw [hq] at hfollows
  generalize run ⟨c, none⟩ history = d at hfollows ⊢
  cases hfollows with
  | session h => exact ⟨_, rfl, h.equates⟩

/-- The greatest `x₁ + x₂` for a binary `x₁` and `x₁ - 2 x₂ = -4`, and then with `x₁ + x₂ ≥ 5/2`, at
a tolerance of one thousandth: three rows, an equality and a bound among them. -/
theorem run_equates_equality :
    let c : Config ℚ := { tolerance := 1 / 1000, integralityTolerance := 0, bigM := 1000 }
    let p : Problem ℚ :=
      { sense := .maximize
        vars := [⟨0, 1, .binary⟩, ⟨1, 1, .unrestricted⟩]
        constraints := [⟨[1, -2], .eq, -4⟩] }
    let k : Constraint ℚ := ⟨[1, 1], .ge, 5 / 2⟩
    0 ≤ c.tolerance ∧ Request.posed [(.solve p, {}), (.add k, {})] = some ⟨p, [k]⟩ ∧
      (Posed.mk p [k]).rows.length = 3 ∧
      ∃ s, (run ⟨c, none⟩ [(.solve p, {}), (.add k, {})]).session = some s ∧
        s.model.Equates 1000 ⟨p, [k]⟩ := by
  intro c p k
  have ht : 0 ≤ c.tolerance := by
    show (0 : ℚ) ≤ 1 / 1000
    norm_num
  have hq : Request.posed [(.solve p, {}), (.add k, {})] = some ⟨p, [k]⟩ := rfl
  exact ⟨ht, hq, rfl, run_equates ht _ hq⟩

end DualSimplex
end LinOpt
