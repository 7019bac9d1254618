import LinOpt.Proofs.Simplex.Dual.Refusal
import LinOpt.Proofs.Simplex.Dual.Shape

/-!
# Errors of the dual solver

Which error a request ends with. A problem is refused for its first constraint that has more
coefficients than there are variables (`Problem.refusal?`, `DualSimplex.solve_eq_error`). A
constraint is refused where no problem stands, and otherwise if it has more coefficients than the
problem that stands has variables (`DualSimplex.addConstraint_eq_error`).

Nothing fails on the way. In particular the row that a constraint brings has the length of the
tableau (`Model.Aligned.pushRow_rowEntries`), because the parts of the model line up.
-/

namespace LinOpt

variable {α : Type} [Scalar α]

/-! ## Refused input -/

/-- A result is no error. -/
theorem ok_ne_error {ε β : Type} {b : β} {e : ε} : (.ok b : Except ε β) ≠ .error e := by
  intro h
  cases h

/-- An error is the same whatever it stands in place of. -/
theorem error_eq_error_iff {ε β γ : Type} {e e' : ε} :
    (.error e' : Except ε β) = .error e ↔ (.error e' : Except ε γ) = .error e :=
  ⟨fun h => congrArg Except.error (Except.error.inj h),
    fun h => congrArg Except.error (Except.error.inj h)⟩

/-- The error for the first constraint that has more than `n` coefficients, if there is one. -/
def Constraint.refusal? (n : ℕ) (ks : List (Constraint α)) : Option (Error α) :=
  (ks.find? fun k => n < k.coefficients.length).map fun k =>
    .dimensionMismatch n k.coefficients.length

/-- The error for the first constraint that has more coefficients than there are variables. -/
def Problem.refusal? (p : Problem α) : Option (Error α) :=
  Constraint.refusal? p.numVariables p.constraints

namespace Constraint

omit [Scalar α]

/-- The first constraint that has too many coefficients is the one that is refused. -/
theorem refusal?_cons (n : ℕ) (k : Constraint α) (ks : List (Constraint α)) :
    refusal? n (k :: ks) = if n < k.coefficients.length
      then some (.dimensionMismatch n k.coefficients.length) else refusal? n ks := by
  unfold refusal?
  by_cases h : n < k.coefficients.length <;> simp [h]

/-- Constraints are not refused exactly if none has too many coefficients. -/
theorem refusal?_eq_none_iff {n : ℕ} {ks : List (Constraint α)} :
    refusal? n ks = none ↔ ∀ k ∈ ks, k.coefficients.length ≤ n := by
  simp [refusal?]

/-- Rows that fit make no difference behind others. -/
theorem refusal?_append_of_fits {n : ℕ} {ks ks' : List (Constraint α)}
    (h : ∀ k ∈ ks', k.coefficients.length ≤ n) : refusal? n (ks ++ ks') = refusal? n ks := by
  have hnone : ks'.find? (fun k => n < k.coefficients.length) = none :=
    List.find?_eq_none.2 fun k hk => of_decide_eq_true.mt (not_lt.2 (h k hk))
  rw [refusal?, List.find?_append, hnone, Option.or_none, refusal?]

end Constraint

omit [Scalar α] in
/-- A problem is refused exactly if some constraint has too many coefficients. -/
theorem Problem.refusal?_eq_none_iff {p : Problem α} : p.refusal? = none ↔ p.Fits :=
  Constraint.refusal?_eq_none_iff

namespace ColumnMap

variable {m : ColumnMap} {e : Error α}

/-- A constraint cannot be written in columns exactly if it has too many coefficients. -/
theorem constraintToColumns_eq_error {k : Constraint α} :
    m.constraintToColumns k = .error e ↔ m.numVariables < k.coefficients.length ∧
      e = .dimensionMismatch m.numVariables k.coefficients.length := by
  unfold constraintToColumns toColumns
  split_ifs with h
  · exact ⟨fun he => ⟨h, (Except.error.inj he).symm⟩, fun he => congrArg Except.error he.2.symm⟩
  · exact iff_of_false ok_ne_error fun he => h he.1

/-- Constraints are refused for the first of them that is. -/
theorem mapM_constraintToColumns_eq_error {ks : List (Constraint α)} :
    ks.mapM m.constraintToColumns = .error e ↔
      Constraint.refusal? m.numVariables ks = some e := by
  induction ks with
  | nil => exact iff_of_false ok_ne_error (Option.some_ne_none e).symm
  | cons k ks ih =>
    rw [List.mapM_cons, Constraint.refusal?_cons]
    cases hk : m.constraintToColumns k with
    | error e' =>
      obtain ⟨hlen, rfl⟩ := constraintToColumns_eq_error.1 hk
      rw [if_pos hlen]
      exact ⟨fun h => congrArg some (Except.error.inj h),
        fun h => congrArg Except.error (Option.some.inj h)⟩
    | ok k' =>
      rw [if_neg (not_lt.2 (exists_constraintToColumns_iff.1 ⟨k', hk⟩)), ← ih]
      cases ks.mapM m.constraintToColumns with
      | error e' => exact Iff.rfl
      | ok ks' => exact iff_of_false ok_ne_error ok_ne_error

end ColumnMap

/-- A problem has no standard form if it is refused; the rows for binary variables always fit. -/
theorem StandardForm.ofProblem_eq_error {p : Problem α} {e : Error α} :
    ofProblem p = .error e ↔ p.refusal? = some e := by
  have hn : (ColumnMap.ofProblem p).numVariables = p.numVariables := List.length_map _
  have hbounds : ∀ k ∈ p.binaryBounds, k.coefficients.length ≤ p.numVariables := by
    intro k hk
    obtain ⟨v, -, rfl⟩ := List.mem_map.1 hk
    simp [Constraint.bound, Scalar.unit]
  have hobjective : p.objective.length ≤ (ColumnMap.ofProblem p).numVariables := by
    rw [hn]
    exact (List.length_map _).le
  obtain ⟨objective, hobj⟩ := ColumnMap.exists_toColumns_iff.2 hobjective
  rw [Problem.refusal?, ← Constraint.refusal?_append_of_fits hbounds, ← hn,
    ← ColumnMap.mapM_constraintToColumns_eq_error]
  dsimp only [ofProblem, bind, Except.bind]
  rw [hobj]
  dsimp only
  cases (p.constraints ++ p.binaryBounds).mapM (ColumnMap.ofProblem p).constraintToColumns with
  | error e' => exact error_eq_error_iff
  | ok rows => exact iff_of_false ok_ne_error ok_ne_error

/-- A session cannot be started for a problem that is refused. -/
theorem Session.start_eq_error {c : Config α} {p : Problem α} {j : Journal α} {e : Error α} :
    start c p j = .error e ↔ p.refusal? = some e := by
  rw [← StandardForm.ofProblem_eq_error, start, Model.build]
  cases StandardForm.ofProblem p with
  | error e' => exact error_eq_error_iff
  | ok f => exact iff_of_false ok_ne_error ok_ne_error

namespace Model

/-- A model keeps the variables of the problem it was built for. -/
theorem Aligned.numVariables_problem {m : Model α} {q : Posed α} (h : m.Aligned q) :
    m.problem.numVariables = q.problem.numVariables := by
  rw [h.problem_eq]
  rfl

/-- A model refuses a constraint for the number of its coefficients. -/
theorem Aligned.extend_eq_error {m : Model α} {q : Posed α} (h : m.Aligned q) {c : Config α}
    {k : Constraint α} {e : Error α} :
    m.extend c k = .error e ↔ q.problem.numVariables < k.coefficients.length ∧
      e = .dimensionMismatch q.problem.numVariables k.coefficients.length := by
  rw [← h.numVariables_eq, ← ColumnMap.constraintToColumns_eq_error, Model.extend]
  cases hrow : m.columns.constraintToColumns k with
  | error e' => exact error_eq_error_iff
  | ok row =>
    -- what the columns take the problem takes as well
    have hlen := ColumnMap.exists_constraintToColumns_iff.1 ⟨row, hrow⟩
    rw [h.numVariables_eq, ← h.numVariables_problem] at hlen
    obtain ⟨p, hp⟩ := Problem.exists_addConstraint_iff.2 hlen
    rw [hp]
    exact iff_of_false ok_ne_error ok_ne_error

/-- The row of a constraint has the length of the tableau that it comes to. -/
theorem Aligned.pushRow_rowEntries {m : Model ℚ} {q : Posed ℚ} (h : m.Aligned q)
    (k : Constraint ℚ) (b : ℚ) :
    m.tableau.insertColumn.pushRow (m.columns.rowEntries k m.aux.length ++ [1, b]) =
      .ok (m.tableau.grow (m.columns.rowEntries k m.aux.length) b) := by
  refine h.rectangular.pushRow_grow ?_ b
  have hcols := h.rectangular.rhsCol_succ
  rw [h.numCols_eq] at hcols
  rw [ColumnMap.length_rowEntries]
  exact (Nat.succ.inj hcols).symm

end Model

/-- A session fails to add a constraint only where its model cannot take it. -/
theorem Session.addConstraint_eq_error [Scalar.Measured α] {s : Session α} {c : Config α}
    {k : Constraint α} {j : Journal α} {e : Error α} :
    (s.addConstraint c k j).result = .error e ↔ s.model.extend c k = .error e := by
  unfold addConstraint
  cases s.model.extend c k with
  | error e' => exact error_eq_error_iff
  | ok m =>
    refine iff_of_false (fun h => ?_) ok_ne_error
    obtain ⟨sol, hsol⟩ := exists_optimize_eq_ok (α := α) _ c _
    cases hsol.symm.trans h

/-! ## Requests -/

/-- No problem stands exactly as long as every problem of the history has been refused. -/
theorem Request.posed_eq_none_iff {history : List (Request α × Journal α)} :
    posed history = none ↔ ∀ p, .solve p ∈ history.map (·.1) → ¬p.Fits := by
  induction history using List.reverseRecOn with
  | nil => exact iff_of_true rfl fun p hp => absurd hp List.not_mem_nil
  | append_singleton history r ih =>
    obtain ⟨r, j⟩ := r
    rw [posed_concat, List.map_append, List.map_singleton]
    simp only [List.mem_append, List.mem_singleton, or_imp, forall_and, ← ih]
    cases r with
    | solve p =>
      rw [pose]
      split_ifs with hp
      · exact iff_of_false not_false fun h => h.2 p rfl hp
      · refine ⟨fun h => ⟨h, ?_⟩, fun h => h.1⟩
        rintro _ ⟨⟩
        exact hp
    | add k =>
      have hno : ∀ p, Request.solve p = .add k → ¬p.Fits := by
        rintro p ⟨⟩
      cases hposed : posed history with
      | none => exact iff_of_true rfl ⟨rfl, hno⟩
      | some q =>
        rw [pose]
        refine iff_of_false ?_ fun h => Option.some_ne_none q h.1
        split <;> exact Option.some_ne_none _

namespace DualSimplex

variable [Scalar.Measured α] {c : Config α} {e : Error α}

/-- Solving a problem fails for its constraints only, whatever came before. -/
theorem solve_eq_error {d : DualSimplex α} {p : Problem α} {j : Journal α} :
    (d.solve p j).result = .error e ↔ p.refusal? = some e := by
  rw [← Session.start_eq_error (c := d.config) (j := j), solve]
  cases Session.start d.config p j with
  | error e' => exact error_eq_error_iff
  | ok started =>
    obtain ⟨sol, hsol⟩ := Session.exists_optimize_eq_ok started.1 d.config started.2
    refine iff_of_false (fun h => ?_) ok_ne_error
    cases hsol.symm.trans h

/-- Adding a constraint after a history of requests fails if no problem stands, and otherwise for
the number of its coefficients. -/
theorem addConstraint_eq_error (history : List (Request α × Journal α)) {k : Constraint α}
    {j : Journal α} : ((run ⟨c, none⟩ history).addConstraint k j).result = .error e ↔
      (Request.posed history = none ∧ e = .noPriorSolve) ∨
        ∃ q, Request.posed history = some q ∧ q.problem.numVariables < k.coefficients.length ∧
          e = .dimensionMismatch q.problem.numVariables k.coefficients.length := by
  have hholds := Holds.run (Model.kept_aligned c) history
  generalize run ⟨c, none⟩ history = d, Request.posed history = o at hholds
  cases hholds with
  | idle =>
    refine ⟨fun h => .inl ⟨rfl, (Except.error.inj h).symm⟩, ?_⟩
    rintro (⟨-, rfl⟩ | ⟨q, hq, -⟩)
    · rfl
    · cases hq
  | @session s q haligned =>
    have hextend : s.model.extend c k = .error e ↔ _ := haligned.extend_eq_error
    have hresult : (addConstraint ⟨c, some s⟩ k j).result = .error e ↔ _ :=
      s.addConstraint_eq_error
    rw [hresult, hextend]
    refine ⟨fun h => .inr ⟨q, rfl, h⟩, ?_⟩
    rintro (⟨hnone, -⟩ | ⟨_, ⟨⟩, h⟩)
    · cases hnone
    · exact h

end DualSimplex
end LinOpt
