import LinOpt.Proofs.Simplex.Revised
import LinOpt.Proofs.Simplex.RoundTrip
import LinOpt.Proofs.Simplex.Singular

/-!
# The revised method is exact

At tolerance zero no exchange is refused: the new columns are basic in the tableau that mirrors the
exchange, so they are not singular (`Basis.not_singular_of_basic`). So on rows that convert the
method always answers (`RevisedSimplex.iterate_spec`), and what it answers is said of a mirrored
tableau.

The method reports the values of its own basis. These are the basic solution of the mirrored tableau
(`Basis.Mirrors.isBasicSolution_columnValues`), also where the tableau shows more basic columns than
the basis has. So, unlike the methods that read a tableau, it never reports the value of a row
twice: an optimum is a best feasible point with its slacks, and where the method calls a problem
unbounded it is (`RevisedSimplex.solve_exact`).
-/

namespace LinOpt

/-! ## The basic solution -/

namespace Tableau

variable {t : Tableau ℚ} {B : ℕ → ℕ} {y : ℕ → ℚ}

/-- A sum over columns of which only those chosen have values is a sum over the rows. -/
theorem IsBasis.sum_mul_eq (h : t.IsBasis B) (hy : ∀ j ∉ t.basisColumns B, y j = 0) (f : ℕ → ℚ) :
    ∑ j ∈ Finset.range t.rhsCol, f j * y j =
      ∑ i ∈ Finset.range t.numConstraints, f (B (i + 1)) * y (B (i + 1)) := by
  have hbasic : ∀ i ∈ Finset.range t.numConstraints, t.Basic (i + 1) (B (i + 1)) := by
    intro i hi
    exact h _ (Nat.succ_pos i) (Nat.succ_lt_succ (Finset.mem_range.1 hi))
  have hinj : Set.InjOn (fun i => B (i + 1)) (Finset.range t.numConstraints : Set ℕ) := by
    intro i hi k hk hik
    have hi' := hbasic i hi
    rw [show B (i + 1) = B (k + 1) from hik] at hi'
    exact Nat.succ_injective (hi'.row_unique (hbasic k hk))
  rw [← Finset.sum_image (f := fun j => f j * y j) hinj]
  refine (Finset.sum_subset (fun j hj => ?_) fun j _ hj => ?_).symm
  · obtain ⟨i, hi, rfl⟩ := Finset.mem_image.1 hj
    exact Finset.mem_range.2 (hbasic i hi).lt
  · rw [hy j fun hmem => hj ?_, mul_zero]
    obtain ⟨i, hi, hlt, rfl⟩ := mem_basisColumns.1 hmem
    obtain ⟨k, rfl⟩ := Nat.exists_eq_add_one_of_ne_zero hi.ne'
    exact Finset.mem_image.2 ⟨k, Finset.mem_range.2 (Nat.lt_of_succ_lt_succ hlt), rfl⟩

/-- There is one basic solution for a choice. -/
theorem IsBasicSolution.eq {y' : ℕ → ℚ} (h : t.IsBasicSolution B y) (h' : t.IsBasicSolution B y') :
    y' = y := by
  refine funext (forall_columns t B (fun i hi => ?_) fun j hj => ?_)
  · rw [h.eq_rhs _ (Nat.succ_pos i) hi, h'.eq_rhs _ (Nat.succ_pos i) hi]
  · rw [h.eq_zero j hj, h'.eq_zero j hj]

end Tableau

namespace Basis

variable {b : Basis ℚ} {t : Tableau ℚ} {row col : ℕ}

/-- Columns that are basic in a tableau of the system are not singular. -/
theorem not_singular_of_basic {z : (ℕ → ℚ) → ℚ} (hs : t.States b.Holds z)
    (hsize : t.numConstraints = b.rhs.length ∧ t.rhsCol = b.objective.length)
    (hm : b.matrix.length = b.rhs.length) {columns : List ℕ} (hlen : columns.length = b.rhs.length)
    (hbasic : ∀ i < b.rhs.length, t.Basic (i + 1) (columns.getD i 0)) :
    ¬Matrix.Singular (b.matrix.map fun r => columns.map (r.getD · 0)) := by
  rintro ⟨v, hv, l, hl, hne⟩
  rw [List.length_map, hm] at hl
  have hB := isBasis_of_basic hsize.1 hbasic
  -- what the columns send to zero can be added to a solution
  obtain ⟨y, hy, hoff⟩ := hB.exists_assignment fun i => v (i - 1)
  have hy : ∀ i < b.rhs.length, y (columns.getD i 0) = v i := fun i hi =>
    hy (i + 1) (Nat.succ_pos i) (by rw [Tableau.numRows_eq, hsize.1]; exact Nat.succ_lt_succ hi)
  have hkill : ∀ k < b.rhs.length,
      ∑ j ∈ Finset.range b.objective.length, Matrix.entry b.matrix k j * y j = 0 := by
    intro k hk
    have hrow := hv k (by rwa [List.length_map, hm])
    rw [List.length_map, hm] at hrow
    rw [← hsize.2, hB.sum_mul_eq hoff, hsize.1, ← hrow]
    refine Finset.sum_congr rfl fun i hi => ?_
    have hi := Finset.mem_range.1 hi
    rw [entry_columns (hm ▸ hk) (hlen ▸ hi), Nat.add_sub_cancel, hy i hi]
  obtain ⟨x, hx, -⟩ := hs.exists_isBasicSolution hB
  have hsum : b.Holds (x + y) := by
    intro k hk
    simp only [Pi.add_apply, mul_add, Finset.sum_add_distrib]
    rw [hx k hk, hkill k hk, add_zero]
  -- but there is one solution only with the values of `x` in the other columns
  have heq : x + y = x := hs.eq_of_agree hB hx hsum fun j hj => by
    rw [Pi.add_apply, hoff j hj, add_zero]
  refine hne ?_
  rw [← hy l hl, add_eq_left.1 heq, Pi.zero_apply]

/-- At tolerance zero no exchange is refused. -/
theorem Mirrors.exists_exchange (h : b.Mirrors t) (hcol : col < b.objective.length)
    (hp : t.entry (row + 1) col ≠ 0) : ∃ b', b.exchange row col 0 = .ok b' := by
  have hm := h.consistent.matrix_length
  have hlen : (b.columns.set row col).length = b.rhs.length := by
    rw [List.length_set, h.consistent.columns_length]
  have hsingular := not_singular_of_basic (h.states.eliminate hp) (h.size_exchange hp) hm hlen
    fun i hi => h.basic_exchange hcol hp hi
  unfold Basis.exchange
  dsimp only
  cases hinv : Matrix.invert (b.matrix.map fun r => (b.columns.set row col).map (r.getD · 0)) 0 with
  | ok inverse => exact ⟨_, rfl⟩
  | error e =>
    refine absurd (Matrix.singular_of_invert_eq_error (fun r hr => ?_) hinv) hsingular
    obtain ⟨r', -, rfl⟩ := List.mem_map.1 hr
    rw [List.length_map, List.length_map, hlen, hm]

/-- Values that are set at positions, no position twice: they are there, and all else is as it was.
-/
theorem getD_foldl_set {es : List (ℕ × ℚ)} (hnodup : (es.map (·.1)).Nodup) (vs : List ℚ)
    (hlt : ∀ e ∈ es, e.1 < vs.length) :
    let out := es.foldl (fun vs e => vs.set e.1 e.2) vs
    (∀ e ∈ es, out.getD e.1 0 = e.2) ∧ ∀ j ∉ es.map (·.1), out.getD j 0 = vs.getD j 0 := by
  induction es generalizing vs with
  | nil => exact ⟨fun e he => (nomatch he), fun _ _ => rfl⟩
  | cons e es ih =>
    obtain ⟨hnot, hnodup⟩ := List.nodup_cons.1 hnodup
    obtain ⟨he, hes⟩ := List.forall_mem_cons.1 hlt
    obtain ⟨hin, hout⟩ := ih hnodup (vs.set e.1 e.2) (by simpa using hes)
    rw [List.foldl_cons]
    refine ⟨List.forall_mem_cons.2 ⟨?_, hin⟩, fun j hj => ?_⟩
    · rw [hout _ hnot, List.getD_eq_getElem?_getD, List.getElem?_set_self he, Option.getD_some]
    · obtain ⟨hje, hj⟩ := not_or.1 (List.mem_cons.not.1 hj)
      rw [hout j hj, List.getD_eq_getElem?_getD, List.getElem?_set_ne (Ne.symm hje),
        List.getD_eq_getElem?_getD]

/-- There is a value for every column. -/
theorem length_columnValues (b : Basis ℚ) : b.columnValues.length = b.objective.length := by
  refine List.foldlRecOn (motive := fun vs : List ℚ => vs.length = b.objective.length) _ _
    List.length_replicate fun vs hvs e _ => ?_
  rw [List.length_set, hvs]

/-- The values of the columns as a list, by their positions. -/
theorem columnValues_eq (b : Basis ℚ) :
    b.columnValues = (List.range b.objective.length).map fun j => b.columnValues.getD j 0 := by
  refine List.ext_getElem (by simp [length_columnValues]) fun j hj _ => ?_
  rw [List.getElem_map, List.getElem_range, List.getD_eq_getElem _ _ hj]

namespace Mirrors

/-- No column is basic twice. -/
theorem nodup_columns (h : b.Mirrors t) : b.columns.Nodup := by
  refine List.nodup_iff_injective_getElem.2 fun i k (hik : b.columns[i] = b.columns[k]) => Fin.ext ?_
  have hlen := h.consistent.columns_length
  have hi := h.basic i (hlen ▸ i.2)
  have hk := h.basic k (hlen ▸ k.2)
  rw [List.getD_eq_getElem _ _ i.2] at hi
  rw [List.getD_eq_getElem _ _ k.2] at hk
  exact Nat.succ_injective (hi.row_unique (hik ▸ hk))

/-- The values of the columns: those of the basis have the right-hand sides of their rows, the
others are zero. -/
theorem getD_columnValues (h : b.Mirrors t) :
    (∀ i < b.rhs.length, b.columnValues.getD (b.columns.getD i 0) 0 = t.rhs (i + 1)) ∧
      ∀ j ∉ b.columns, b.columnValues.getD j 0 = 0 := by
  have hlen := h.consistent.columns_length
  have hvalues : b.values.length = b.columns.length := by
    rw [h.consistent.values_eq, List.length_map, h.consistent.inverse_length, hlen]
  have hfst : (b.columns.zip b.values).map (·.1) = b.columns := List.map_fst_zip hvalues.ge
  have hlt : ∀ i < b.rhs.length, b.columns.getD i 0 < b.objective.length := fun i hi =>
    h.rhsCol_eq ▸ (h.basic i hi).lt
  have hnodup : ((b.columns.zip b.values).map (·.1)).Nodup := hfst.symm ▸ h.nodup_columns
  obtain ⟨hin, hout⟩ := getD_foldl_set hnodup
    (List.replicate b.objective.length 0) fun e he => by
      obtain ⟨i, hi, hie⟩ := List.mem_iff_getElem.1 (List.of_mem_zip (Prod.mk.eta (p := e) ▸ he)).1
      rw [List.length_replicate, ← hie, ← List.getD_eq_getElem _ 0]
      exact hlt i (hlen ▸ hi)
  refine ⟨fun i hi => ?_, fun j hj => ?_⟩
  · have hi' : i < b.columns.length := hlen ▸ hi
    have hmem : (b.columns[i], b.values[i]) ∈ b.columns.zip b.values :=
      List.mem_iff_getElem.2 ⟨i, by simpa [hvalues] using hi', List.getElem_zip⟩
    have hvalue : b.values[i] = t.rhs (i + 1) := by
      rw [(h.row_eq hi).1]
      simp only [h.consistent.values_eq, List.getElem_map]
      rw [← List.getD_eq_getElem _ []]
    rw [List.getD_eq_getElem _ _ hi', ← hvalue]
    exact hin _ hmem
  · rw [← hfst] at hj
    have hzero := hout j hj
    rw [List.getD_eq_getElem?_getD (l := List.replicate _ _), List.getElem?_replicate] at hzero
    refine Eq.trans hzero ?_
    split_ifs <;> rfl

/-- The values of the columns are the basic solution of the tableau. -/
theorem isBasicSolution_columnValues (h : b.Mirrors t) :
    t.IsBasicSolution (fun i => b.columns.getD (i - 1) 0) fun j => b.columnValues.getD j 0 := by
  obtain ⟨hin, hout⟩ := h.getD_columnValues
  refine ⟨fun i hi hlt => ?_, fun j hj => hout j fun hmem => hj ?_⟩
  · obtain ⟨k, rfl⟩ := Nat.exists_eq_add_one_of_ne_zero hi.ne'
    rw [Tableau.numRows_eq, h.numConstraints_eq] at hlt
    exact hin k (Nat.lt_of_succ_lt_succ hlt)
  · obtain ⟨i, hi, rfl⟩ := List.mem_iff_getElem.1 hmem
    rw [h.consistent.columns_length] at hi
    refine Tableau.mem_basisColumns.2 ⟨i + 1, Nat.succ_pos i, ?_, List.getD_eq_getElem _ _ _⟩
    rw [Tableau.numRows_eq, h.numConstraints_eq]
    exact Nat.succ_lt_succ hi

end Mirrors

end Basis

/-! ## The method -/

namespace RevisedSimplex

variable {c : Config ℚ} {f : StandardForm ℚ} {P : Tableau ℚ → Prop}

/-- What the method answers, said of a tableau with the property `P` that mirrors its basis. -/
inductive Concludes (f : StandardForm ℚ) (P : Tableau ℚ → Prop) (sol : Solution ℚ) : Prop where
  | optimal {b : Basis ℚ} {t : Tableau ℚ} (hm : b.Mirrors t) (hP : P t)
      (hcol : t.entering 0 = none) (hstatus : sol.status = .optimal)
      (hvalue : sol.optimalValue = some (PrimalSimplex.ofMaximized f.sense t.objectiveValue))
      (hvalues : sol.values = PrimalSimplex.namedValues f.columns b.columnValues)
  | unbounded {t : Tableau ℚ} {col : ℕ} (hP : P t)
      (hcol : t.entering 0 = some col) (hrow : t.leaving col 0 = none)
      (hstatus : sol.status = .unbounded)
  | stopped (hstatus : sol.status = .limitReached)

/-- At tolerance zero the loop answers from every basis that a tableau mirrors, and keeps what
pivots by the ratio test keep. -/
theorem iterate_spec (ht : c.tolerance = 0)
    (hstep : ∀ t row col, P t → col < t.rhsCol → t.leaving col 0 = some row →
      P (t.eliminate row col)) (remaining k : ℕ) {b : Basis ℚ} {t : Tableau ℚ} (hm : b.Mirrors t)
    (hP : P t) (s : Solution ℚ) (j : Journal ℚ) :
    ∃ sol, (iterate c f remaining k b s j).result = .ok sol ∧ Concludes f P sol := by
  induction remaining generalizing k b t s j with
  | zero => exact ⟨_, rfl, .stopped rfl⟩
  | succ remaining ih =>
    rw [iterate, ht]
    dsimp only
    have hentering := hm.entering_eq (le_refl 0)
    split_ifs
    · exact ⟨_, rfl, .stopped rfl⟩
    · cases hcol : b.entering 0 with
      | none =>
        rw [hcol] at hentering
        exact ⟨_, rfl, .optimal hm hP hentering rfl (by rw [hm.row_zero.1]; rfl) rfl⟩
      | some e =>
        obtain ⟨col, cost⟩ := e
        rw [hcol, Option.map_some] at hentering
        obtain ⟨hlt, -⟩ := hm.states.rectangular.enteringWhere_eq_some hentering
        have hleaving : t.leaving col 0 = _ := hm.leaving_eq (hm.rhsCol_eq ▸ hlt)
        cases hrow : b.leaving (b.direction col) 0 with
        | none =>
          rw [hrow] at hleaving
          simp only [hrow]
          exact ⟨_, rfl, .unbounded hP hentering hleaving rfl⟩
        | some row =>
          rw [hrow, Option.map_some] at hleaving
          have hp := (Tableau.lt_entry_of_leaving hleaving).ne'
          obtain ⟨b', hb'⟩ := hm.exists_exchange (hm.rhsCol_eq ▸ hlt) hp
          obtain ⟨hm', -⟩ := hm.exchange le_rfl (hm.rhsCol_eq ▸ hlt) hp hb'
          simp only [hrow, hb']
          exact ih _ hm' (hstep t _ col hP hlt hleaving) _ _

/-- What a call is where there is a basis to start from: the loop. -/
theorem solve_eq_iterate {α : Type} [Scalar α] (c : Config α) {p : Problem α} {f : StandardForm α}
    {b : Basis α} (hf : StandardForm.ofProblem p = .ok f) (hb : Basis.ofStandardForm f = .ok b)
    (j : Journal α) : ∃ s : Solution α,
      solve c p j = iterate c f c.maxPhase2Iterations 0 b s j := by
  dsimp only [solve, bind, Except.bind]
  rw [hf]
  dsimp only
  rw [hb]
  exact ⟨_, rfl⟩

/-- At tolerance zero the method answers a problem whose rows convert with what a tableau shows that
represents it and has no negative right-hand side. -/
theorem solve_concludes (ht : c.tolerance = 0) {p : Problem ℚ}
    (hf : StandardForm.ofProblem p = .ok f) {rows : List (List ℚ × ℚ)}
    (hrows : f.slackRows = .ok rows) (j : Journal ℚ) :
    ∃ sol, (solve c p j).result = .ok sol ∧ Concludes f (fun t =>
      ({ f.slackModel p with tableau := t } : Model ℚ).Represents 0 ⟨p, []⟩ ∧
        ∀ i, 0 ≤ t.rhs (i + 1)) sol := by
  have hb : Basis.ofStandardForm f = .ok (Basis.ofSlackRows f rows) := by
    rw [Basis.ofStandardForm, hrows]
    rfl
  obtain ⟨t, hbuild, hm⟩ := Basis.exists_mirror hf hb
  obtain ⟨rfl, hconv⟩ := PrimalSimplex.buildTableau_eq_ok hbuild
  have hrep := StandardForm.represents_slackModel hf
  obtain ⟨s, hsolve⟩ := solve_eq_iterate c hf hb j
  rw [hsolve]
  refine iterate_spec ht (fun t row col hP hcol hleave => ?_) _ _ hm
    ⟨hrep, StandardForm.rhs_slackModel_nonneg hf fun row hrow => (hconv row hrow).1⟩ s j
  obtain ⟨hrep, hrhs⟩ := hP
  obtain ⟨k, rfl, -, hpos, -⟩ := Tableau.leaving_eq_some hleave
  have hpivot : t.pivot (k + 1) col 0 = .ok (t.eliminate (k + 1) col) :=
    Tableau.pivot_of_lt (abs_pos.2 hpos.ne')
  exact ⟨hrep.carries (hrep.stands.carries.pivot (Nat.succ_pos k) hcol hpivot),
    hrep.stands.states.rectangular.rhs_nonneg_eliminate hrhs hleave⟩

section Region

variable {m : Model ℚ} {p : Problem ℚ} {b : Basis ℚ}

/-- The objective at the point of column values in the region. -/
theorem objectiveValue_point (h : m.Represents 0 ⟨p, []⟩) {y : ℕ → ℚ}
    (hy : y ∈ m.Region (m.columns.Holds (⟨p, []⟩ : Posed ℚ).rows)) :
    p.objectiveValue (m.columns.point y) =
      PrimalSimplex.ofMaximized p.sense ((⟨p, []⟩ : Posed ℚ).penalized 0 y) := by
  have hcurrent : (⟨p, []⟩ : Posed ℚ).current = p := by simp [Posed.current]
  rw [Posed.penalized_region h.columns_eq h.aux_eq 0 hy.2.2, hcurrent, Sense.ofMaximized_ofMaximized]

/-- The feasible points are those of column values in the region. -/
theorem feasible_iff_mem_region (hp : p.Indexed) (h : m.Represents 0 ⟨p, []⟩) {x : List ℚ} :
    p.Feasible x ↔
      ∃ y ∈ m.Region (m.columns.Holds (⟨p, []⟩ : Posed ℚ).rows), m.columns.point y = x := by
  have hcurrent : (⟨p, []⟩ : Posed ℚ).current = p := by simp [Posed.current]
  constructor
  · intro hx
    rw [← hcurrent] at hx
    exact Posed.exists_region hp h.columns_eq h.aux_eq hx
  · rintro ⟨y, hy, rfl⟩
    rw [← hcurrent]
    exact Posed.feasible_point hp h.columns_eq h.aux_eq hy

/-- The values of the columns lie in the region, at the value that the mirrored tableau shows. -/
theorem columnValues_mem_region (hm : b.Mirrors m.tableau) (h : m.Represents 0 ⟨p, []⟩)
    (hrhs : ∀ i, 0 ≤ m.tableau.rhs (i + 1)) (hart : ∀ j, m.isArtificial j = false) :
    let y := fun j => b.columnValues.getD j 0
    y ∈ m.Region (m.columns.Holds (⟨p, []⟩ : Posed ℚ).rows) ∧
      (⟨p, []⟩ : Posed ℚ).penalized 0 y = m.tableau.objectiveValue := by
  have hbasic := hm.isBasicSolution_columnValues
  obtain ⟨y, hE, hz, hy⟩ := h.stands.states.exists_isBasicSolution hm.isBasis
  obtain rfl := hbasic.eq hy
  refine ⟨⟨hE, hbasic.nonneg hrhs, fun j hj => ?_⟩, hz⟩
  rw [hart j] at hj
  cases hj

/-- An optimum reports the point and the slacks of the values of the columns. -/
theorem values_of_mirrors {sol : Solution ℚ} (hm : b.Mirrors m.tableau)
    (h : m.Represents 0 ⟨p, []⟩)
    (hvalues : sol.values = PrimalSimplex.namedValues m.columns b.columnValues) :
    let y := fun j => b.columnValues.getD j 0
    sol.decisionValues p.numVariables = m.columns.point y ∧
      ∀ k, k < (⟨p, []⟩ : Posed ℚ).rows.length →
        sol.value? (.auxiliary .slack (k + 1)) = some (y (m.columns.numColumns + k)) := by
  intro y
  have hlen : (m.columns.point y).length = p.numVariables := by
    rw [ColumnMap.length_point, h.columns_eq]
    exact List.length_map _
  rw [b.columnValues_eq, ← hm.rhsCol_eq, h.rhsCol_eq] at hvalues
  obtain ⟨hdecision, hslack⟩ := PrimalSimplex.get?_namedValues m.columns
    (⟨p, []⟩ : Posed ℚ).rows.length y
  refine ⟨?_, fun k hk => ?_⟩
  · rw [← hlen]
    exact Solution.decisionValues_eq fun i v hv => by
      rw [Solution.value?, hvalues]
      exact hdecision i v hv
  · rw [Solution.value?, hvalues]
    exact hslack k hk

/-- Where no column enters, the values of the columns are those of a best feasible point. -/
theorem optimal_of_mirrors (hp : p.Indexed) {sol : Solution ℚ} (hm : b.Mirrors m.tableau)
    (h : m.Represents 0 ⟨p, []⟩) (hrhs : ∀ i, 0 ≤ m.tableau.rhs (i + 1))
    (hart : ∀ j, m.isArtificial j = false) (hcol : m.tableau.entering 0 = none)
    (hvalue : sol.optimalValue =
      some (PrimalSimplex.ofMaximized p.sense m.tableau.objectiveValue))
    (hvalues : sol.values = PrimalSimplex.namedValues m.columns b.columnValues) :
    let x := sol.decisionValues p.numVariables
    p.Feasible x ∧
      (∀ k row, (p.constraints ++ p.binaryBounds)[k]? = some row →
        sol.value? (.auxiliary .slack (k + 1)) = some (row.slack x)) ∧
      sol.optimalValue = some (p.objectiveValue x) ∧
      ∀ x', p.Feasible x' → ¬p.sense.Beats (p.objectiveValue x') (p.objectiveValue x) := by
  obtain ⟨hx, hslack⟩ := values_of_mirrors hm h hvalues
  obtain ⟨hy, hz⟩ := columnValues_mem_region hm h hrhs hart
  have hobj := objectiveValue_point h hy
  rw [hx]
  refine ⟨(feasible_iff_mem_region hp h).2 ⟨_, hy, rfl⟩, fun k row hrow => ?_, ?_, fun x' hx' => ?_⟩
  · rw [← List.append_nil (p.constraints ++ p.binaryBounds)] at hrow
    have hsat := ((Posed.feasible_iff hp).1 (Posed.feasible_point hp h.columns_eq h.aux_eq hy)).2
    rw [hslack k (List.getElem?_eq_some_iff.1 hrow).1, hy.1 k row hrow]
    exact congrArg some (Constraint.residual_eq_slack (hsat row (List.mem_of_getElem? hrow)))
  · rw [hobj, hz, hvalue]
  · obtain ⟨y', hy', rfl⟩ := (feasible_iff_mem_region hp h).1 hx'
    have hred := h.stands.states.rectangular.entering_zero_eq_none.1 hcol
    have hle := h.stands.le_optimum (.done hrhs fun j hj _ => hred j hj) hy'
    rw [Sense.beats_iff, hobj, objectiveValue_point h hy', Sense.ofMaximized_ofMaximized,
      Sense.ofMaximized_ofMaximized, hz]
    exact not_lt.2 hle

/-- Where a column enters and no row leaves, feasible points have values beyond every bound. -/
theorem exists_beats (hp : p.Indexed) (h : m.Represents 0 ⟨p, []⟩)
    (hrhs : ∀ i, 0 ≤ m.tableau.rhs (i + 1)) (hart : ∀ j, m.isArtificial j = false) {col : ℕ}
    (hcol : m.tableau.entering 0 = some col) (hrow : m.tableau.leaving col 0 = none) (bound : ℚ) :
    ∃ x, p.Feasible x ∧ p.sense.Beats (p.objectiveValue x) bound := by
  obtain ⟨hlt, -, hneg, hleast⟩ := h.stands.states.rectangular.enteringWhere_eq_some hcol
  rw [neg_zero] at hneg
  have hcolumn : ∀ i, m.tableau.entry (i + 1) col ≤ 0 := by
    intro i
    rcases Nat.lt_or_ge i m.tableau.numConstraints with hi | hi
    · exact Tableau.leaving_eq_none hrow i hi
    · exact (Tableau.entry_of_numRows_le (Nat.succ_le_succ hi) _).le
  have hshows : m.Shows m.tableau (.unbounded col none) :=
    .unbounded hrhs hlt hneg hcolumn (hart col) fun j hj _ => hleast j hj rfl
  obtain ⟨y, hy, hgt⟩ := h.stands.exists_gt hart hshows (PrimalSimplex.ofMaximized p.sense bound)
  refine ⟨_, (feasible_iff_mem_region hp h).2 ⟨y, hy, rfl⟩, ?_⟩
  rwa [Sense.beats_iff, objectiveValue_point h hy, Sense.ofMaximized_ofMaximized]

end Region

/-- At tolerance zero the method answers every problem whose rows convert, no exchange refused. An
optimum is a feasible point with the slacks of its rows, its value is the optimal value, and no
feasible point has a better one; where the answer is that the problem is unbounded, feasible points
have values beyond every bound. -/
theorem solve_exact (ht : c.tolerance = 0) {p : Problem ℚ} (hf : StandardForm.ofProblem p = .ok f)
    {rows : List (List ℚ × ℚ)} (hrows : f.slackRows = .ok rows) (j : Journal ℚ) :
    ∃ sol, (solve c p j).result = .ok sol ∧ (p.Indexed →
      (sol.status = .optimal →
        let x := sol.decisionValues p.numVariables
        p.Feasible x ∧
        (∀ k row, (p.constraints ++ p.binaryBounds)[k]? = some row →
          sol.value? (.auxiliary .slack (k + 1)) = some (row.slack x)) ∧
        sol.optimalValue = some (p.objectiveValue x) ∧
        ∀ x', p.Feasible x' → ¬p.sense.Beats (p.objectiveValue x') (p.objectiveValue x)) ∧
      (sol.status = .unbounded →
        ∀ b, ∃ x, p.Feasible x ∧ p.sense.Beats (p.objectiveValue x) b)) := by
  obtain ⟨sol, hsol, hconcludes⟩ := solve_concludes ht hf hrows j
  refine ⟨sol, hsol, fun hp => ?_⟩
  obtain ⟨-, hsense, -, -⟩ := StandardForm.ofProblem_eq_ok hf
  have hart := StandardForm.isArtificial_slackModel p fun row hrow =>
    ((StandardForm.mapM_slackRow_eq_ok id hrows).2 row hrow).2
  cases hconcludes with
  | optimal hm hP hcol hstatus hvalue hvalues =>
    obtain ⟨hrep, hrhs⟩ := hP
    rw [hsense] at hvalue
    exact ⟨fun _ => optimal_of_mirrors hp hm hrep hrhs hart hcol hvalue hvalues,
      fun hunb => (nomatch hstatus.symm.trans hunb)⟩
  | unbounded hP hcol hrow hstatus =>
    obtain ⟨hrep, hrhs⟩ := hP
    exact ⟨fun hopt => (nomatch hstatus.symm.trans hopt),
      fun _ => exists_beats hp hrep hrhs hart hcol hrow⟩
  | stopped hstatus =>
    exact ⟨fun hopt => (nomatch hstatus.symm.trans hopt),
      fun hunb => (nomatch hstatus.symm.trans hunb)⟩

/-- The least `-3 x₁ + 2 x₂ - 4 x₃ - x₄` with `x₂ ≤ 0`, a binary `x₃` and a free `x₄`, under
`x₁ - x₂ + x₄ ≤ 4`, `-x₁ - x₃ + x₄ ≥ -3` and `x₃ + x₄ ≤ 2`. -/
theorem solve_exact_mixed :
    let p : Problem ℚ :=
      { sense := .minimize
        vars := [⟨0, -3, .nonNegative⟩, ⟨1, 2, .nonPositive⟩, ⟨2, -4, .binary⟩,
          ⟨3, -1, .unrestricted⟩]
        constraints := [⟨[1, -1, 0, 1], .le, 4⟩, ⟨[-1, 0, -1, 1], .ge, -3⟩,
          ⟨[0, 0, 1, 1], .le, 2⟩] }
    ∃ sol, (solve .exact p {}).result = .ok sol ∧ sol.status = .optimal ∧
      sol.optimalValue = some (-14) ∧
      let x := sol.decisionValues p.numVariables
      p.Feasible x ∧
      (∀ k row, (p.constraints ++ p.binaryBounds)[k]? = some row →
        sol.value? (.auxiliary .slack (k + 1)) = some (row.slack x)) ∧
      p.objectiveValue x = -14 ∧
      ∀ x', p.Feasible x' → ¬p.sense.Beats (p.objectiveValue x') (p.objectiveValue x) := by
  intro p
  have hp : p.Indexed := by
    intro i v hv
    match i, hv with
    | 0, hv | 1, hv | 2, hv | 3, hv => rw [← Option.some.inj hv]
  have hconverts : (StandardForm.ofProblem p).toOption.map
      (fun f => f.slackRows.toOption.map fun _ => ()) = some (some ()) := by decide +kernel
  obtain ⟨f, hf, hrows⟩ := exists_ok_of_map hconverts
  obtain ⟨rows, hrows, -⟩ := exists_ok_of_map hrows
  have hrun : (solve .exact p {}).result.toOption.map (fun sol => (sol.status, sol.optimalValue)) =
      some (.optimal, some (-14)) := by decide +kernel
  obtain ⟨sol, hsol, hexact⟩ := solve_exact (c := .exact) rfl hf hrows {}
  rw [hsol] at hrun
  obtain ⟨hopt, hvalue⟩ := Prod.mk.inj (Option.some.inj hrun)
  obtain ⟨hx, hslack, hobj, hbest⟩ := (hexact hp).1 hopt
  exact ⟨sol, hsol, hopt, hvalue, hx, hslack, Option.some.inj (hobj.symm.trans hvalue), hbest⟩

end RevisedSimplex
end LinOpt
