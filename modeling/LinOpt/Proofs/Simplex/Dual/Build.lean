import LinOpt.Proofs.Simplex.Dual.Growth
import LinOpt.Proofs.Simplex.Dual.Represents

/-!
# Building and extending models

The tableau of a standard form grows out of its objective row, one constraint after the other
(`Model.plainTableau_concat`), and so does what it states (`Model.initial_plainTableau`). The
penalties come last (`Model.initial_penalties`), and the model that is built represents its problem
(`Model.represents_build`). A constraint that comes to a pivoted model is described with the others
(`Model.Describes.extend`) and at tolerance zero represented (`Model.Represents.extend`). A row that
belongs to no constraint adds its equation if it is zero in a basic column of every row
(`Model.Stands.appendRow`).
-/

namespace LinOpt

/-! ## Rows over columns -/

namespace ColumnMap

/-- A row over columns. -/
def spreadRow {α : Type} [Scalar α] (m : ColumnMap) (c : Constraint α) : Constraint α :=
  { c with coefficients := spreadAll m.placements c.coefficients }

/-- A row has a coefficient for every decision column. -/
theorem length_spreadRow {α : Type} [Scalar α] (m : ColumnMap) (c : Constraint α) :
    (m.spreadRow c).coefficients.length = m.numColumns := length_spreadAll _ _

/-- The left-hand side over columns is that of the constraint at the point. -/
theorem sum_spreadRow (m : ColumnMap) (c : Constraint ℚ) (y : ℕ → ℚ) :
    ∑ j ∈ Finset.range m.numColumns, (m.spreadRow c).coefficients.getD j 0 * y j =
      c.lhs (m.point y) := by
  rw [← Scalar.dot_range]
  exact dot_spreadAll _ _ _

/-- A constraint that is not refused is carried over. -/
theorem constraintToColumns_eq_ok {α : Type} [Scalar α] {m : ColumnMap} {c c' : Constraint α}
    (h : m.constraintToColumns c = .ok c') : c' = m.spreadRow c := by
  unfold constraintToColumns at h
  cases hc : m.toColumns c.coefficients with
  | error e => rw [hc] at h; cases h
  | ok as =>
    rw [hc] at h
    rw [← Except.ok.inj h, toColumns_eq_ok hc]
    rfl

/-- Constraints that are not refused are carried over one by one. -/
theorem mapM_constraintToColumns {α : Type} [Scalar α] {m : ColumnMap}
    {cs cs' : List (Constraint α)} (h : cs.mapM m.constraintToColumns = .ok cs') :
    cs' = cs.map m.spreadRow := by
  induction cs generalizing cs' with
  | nil => exact (Except.ok.inj h).symm
  | cons c cs ih =>
    rw [List.mapM_cons] at h
    cases hc : m.constraintToColumns c with
    | error e => rw [hc] at h; cases h
    | ok c' =>
      rw [hc] at h
      cases hcs : cs.mapM m.constraintToColumns with
      | error e => rw [hcs] at h; cases h
      | ok cs'' =>
        rw [hcs] at h
        rw [← Except.ok.inj h, List.map_cons, constraintToColumns_eq_ok hc, ih hcs]

/-- The entries of a row in front of its own column: its coefficients, and zero in `k` auxiliary
columns. -/
def rowEntries (m : ColumnMap) (c : Constraint ℚ) (k : ℕ) : List ℚ :=
  (m.spreadRow c).coefficients.map (c.rowSign * ·) ++ List.replicate k 0

/-- The entries of a new row are those of the decision columns and of the auxiliary columns so
far. -/
theorem length_rowEntries (m : ColumnMap) (c : Constraint ℚ) (k : ℕ) :
    (m.rowEntries c k).length = m.numColumns + k := by
  rw [rowEntries, List.length_append, List.length_map, length_spreadRow, List.length_replicate]

/-- A new row is zero in the auxiliary columns so far. -/
theorem getD_rowEntries_of_le (m : ColumnMap) (c : Constraint ℚ) (k : ℕ) {j : ℕ}
    (hj : m.numColumns ≤ j) : (m.rowEntries c k).getD j 0 = 0 := by
  have hlen : ((m.spreadRow c).coefficients.map (c.rowSign * ·)).length = m.numColumns := by
    rw [List.length_map, length_spreadRow]
  rw [rowEntries, List.getD_append_right _ _ _ _ (by omega), List.getD_eq_getElem?_getD,
    List.getElem?_replicate]
  split_ifs <;> rfl

/-- The left-hand side of a row in the tableau is that of the constraint at the point. -/
theorem sum_rowEntries (m : ColumnMap) (c : Constraint ℚ) (k : ℕ) (y : ℕ → ℚ) :
    ∑ j ∈ Finset.range (m.numColumns + k), (m.rowEntries c k).getD j 0 * y j =
      c.rowSign * c.lhs (m.point y) := by
  have hlen : ((m.spreadRow c).coefficients.map (c.rowSign * ·)).length = m.numColumns := by
    rw [List.length_map, length_spreadRow]
  have haux : ∀ j ∈ Finset.range k,
      (m.rowEntries c k).getD (m.numColumns + j) 0 * y (m.numColumns + j) = 0 := by
    intro j _
    rw [getD_rowEntries_of_le _ _ _ (Nat.le_add_right _ _), zero_mul]
  have hdec : ∀ j ∈ Finset.range m.numColumns, (m.rowEntries c k).getD j 0 * y j =
      ((m.spreadRow c).coefficients.map (c.rowSign * ·)).getD j 0 * y j := by
    intro j hj
    rw [rowEntries, List.getD_append _ _ _ _ (by rw [hlen]; exact Finset.mem_range.1 hj)]
  rw [Finset.sum_range_add, Finset.sum_eq_zero haux, add_zero, Finset.sum_congr rfl hdec,
    ← Scalar.dot_range, Scalar.dot_map_mul]
  exact congrArg _ (dot_spreadAll _ _ _)

end ColumnMap

/-- A row more with the residual in its column. -/
theorem Tableau.States.growRow {t : Tableau ℚ} {m : ColumnMap} {rows : List (Constraint ℚ)}
    {z : (ℕ → ℚ) → ℚ} (h : t.States (m.Holds rows) z)
    (hcol : t.rhsCol = m.numColumns + rows.length) (c : Constraint ℚ) :
    (t.grow (m.rowEntries c rows.length) (c.rowSign * c.rhs)).States (m.Holds (rows ++ [c])) z := by
  refine (h.grow ((m.length_rowEntries c _).trans hcol.symm) _).restate (fun y => ?_) fun _ _ => rfl
  rw [ColumnMap.holds_concat, hcol, m.sum_rowEntries c, Constraint.residual]
  refine and_congr_right fun _ => ?_
  constructor <;> intro hy <;> linarith

/-- What the standard form of a problem is. -/
theorem StandardForm.ofProblem_eq_ok {α : Type} [Scalar α] {p : Problem α} {f : StandardForm α}
    (h : ofProblem p = .ok f) :
    f.columns = .ofProblem p ∧ f.sense = p.sense ∧
      f.objective = ColumnMap.spreadAll f.columns.placements p.objective ∧
      f.rows = (p.constraints ++ p.binaryBounds).map f.columns.spreadRow := by
  dsimp only [ofProblem, bind, Except.bind] at h
  cases hobj : (ColumnMap.ofProblem p).toColumns p.objective with
  | error e => rw [hobj] at h; cases h
  | ok objective =>
    rw [hobj] at h
    dsimp only at h
    cases hrows : (p.constraints ++ p.binaryBounds).mapM
        (ColumnMap.ofProblem p).constraintToColumns with
    | error e => rw [hrows] at h; cases h
    | ok rows =>
      rw [hrows] at h
      rw [← Except.ok.inj h]
      exact ⟨rfl, rfl, ColumnMap.toColumns_eq_ok hobj, ColumnMap.mapM_constraintToColumns hrows⟩

/-- The standard form with the rows of other constraints. -/
def StandardForm.withRows (f : StandardForm ℚ) (cs : List (Constraint ℚ)) : StandardForm ℚ :=
  { f with rows := cs.map f.columns.spreadRow }

/-- A tableau in which the auxiliary columns are basic, each in its own row. -/
structure Tableau.Initial (t : Tableau ℚ) (m : ColumnMap) (cs : List (Constraint ℚ))
    (z : (ℕ → ℚ) → ℚ) : Prop where
  numRows_eq : t.numRows = cs.length + 1
  rhsCol_eq : t.rhsCol = m.numColumns + cs.length
  states : t.States (m.Holds cs) z
  basic : ∀ k, k < cs.length → t.Basic (k + 1) (m.numColumns + k)

namespace Tableau.Initial

variable {t : Tableau ℚ} {m : ColumnMap} {cs : List (Constraint ℚ)} {z : (ℕ → ℚ) → ℚ}

/-- The auxiliary columns are a basis of the initial tableau. -/
theorem hasBasis (h : t.Initial m cs z) : t.HasBasis := by
  intro i hi hlt
  rw [h.numRows_eq] at hlt
  obtain ⟨k, rfl⟩ : ∃ k, i = k + 1 := ⟨i - 1, by omega⟩
  exact ⟨_, h.basic k (by omega)⟩

/-- One row more, with its auxiliary column. -/
theorem growRow (h : t.Initial m cs z) (c : Constraint ℚ) :
    (t.grow (m.rowEntries c cs.length) (c.rowSign * c.rhs)).Initial m (cs ++ [c]) z := by
  have hr := (m.length_rowEntries c cs.length).trans h.rhsCol_eq.symm
  have hgrown := Grown.grow h.states.rectangular hr (c.rowSign * c.rhs)
  refine ⟨?_, ?_, h.states.growRow h.rhsCol_eq c, fun k hk => ?_⟩
  · rw [hgrown.numRows_eq, h.numRows_eq, List.length_append, List.length_singleton]
  · rw [hgrown.rhsCol_eq, h.rhsCol_eq, List.length_append, List.length_singleton, ← Nat.add_assoc]
  · rw [List.length_append, List.length_singleton] at hk
    rcases Nat.lt_succ_iff_lt_or_eq.1 hk with hk | rfl
    · refine hgrown.basic_old (h.basic k hk) ?_
      rw [entry_grow_numRows _ hr _ (by rw [h.rhsCol_eq]; exact Nat.add_lt_add_left hk _),
        m.getD_rowEntries_of_le _ _ (Nat.le_add_right _ _)]
    · have := hgrown.basic_own
      rwa [h.rhsCol_eq, h.numRows_eq] at this

/-- A penalty on one of the auxiliary columns. -/
theorem penalize (h : t.Initial m cs z) {k : ℕ} (hk : k < cs.length) (bigM : ℚ) :
    (t.penalize (k + 1) (m.numColumns + k) bigM).Initial m cs
      fun y => z y - bigM * y (m.numColumns + k) := by
  have hb := h.basic k hk
  have hr := h.states.rectangular.penalize (c := m.numColumns + k) hb.row_lt bigM
  refine ⟨?_, ?_, h.states.penalize hb bigM, fun l hl => ?_⟩
  · rw [numRows_penalize, h.numRows_eq]
  · rw [← h.rhsCol_eq]
    exact congrArg (· - 1) hr.2
  · refine hb.penalize h.states.rectangular (h.basic l hl) (fun hlk => ?_) bigM
    rw [Nat.succ_injective hlk]

end Tableau.Initial

namespace Model

open Tableau (Basic HasBasis States Grown Clearing)

/-! ## Building -/

/-- The objective to maximize at columns. -/
theorem dot_maxObjective {f : StandardForm ℚ} {objective : List ℚ}
    (h : f.objective = ColumnMap.spreadAll f.columns.placements objective) (y : ℕ → ℚ) :
    Scalar.dot f.maxObjective ((List.range f.columns.numColumns).map y) =
      PrimalSimplex.ofMaximized f.sense (Scalar.dot objective (f.columns.point y)) := by
  have hdot : Scalar.dot f.objective ((List.range f.columns.numColumns).map y) =
      Scalar.dot objective (f.columns.point y) := by
    rw [h, ColumnMap.dot_spreadAll]
    rfl
  unfold StandardForm.maxObjective PrimalSimplex.ofMaximized
  cases f.sense with
  | maximize => exact hdot
  | minimize => rw [Scalar.dot_map_neg, hdot]

/-- Turning an objective round keeps its length. -/
theorem length_maxObjective {α : Type} [Scalar α] (f : StandardForm α) :
    f.maxObjective.length = f.objective.length := by
  unfold StandardForm.maxObjective
  cases f.sense with
  | maximize => rfl
  | minimize => exact List.length_map _

/-- The right-hand side stands behind the decision columns and the auxiliary columns. -/
theorem rhsCol_plainTableau {α : Type} [Scalar α] {f : StandardForm α} {n : ℕ}
    (hobj : f.objective.length = n) : (plainTableau f).rhsCol = n + f.rows.length := by
  show (f.maxObjective.map (- ·) ++ List.replicate (f.rows.length + 1) 0).length - 1 = _
  rw [List.length_append, List.length_map, length_maxObjective, hobj, List.length_replicate]
  rfl

/-- A row more grows the tableau by that row. -/
theorem plainTableau_concat {f : StandardForm ℚ} {n : ℕ} (hobj : f.objective.length = n)
    (hrows : ∀ r ∈ f.rows, r.coefficients.length = n) (row : Constraint ℚ) :
    plainTableau { f with rows := f.rows ++ [row] } = (plainTableau f).grow
      (row.coefficients.map (row.rowSign * ·) ++ List.replicate f.rows.length 0)
      (row.rowSign * row.rhs) := by
  have hunit : ∀ i, Scalar.unit (f.rows.length + 1) i =
      (Scalar.unit f.rows.length i : List ℚ) ++ [if f.rows.length = i then 1 else 0] := by
    intro i
    rw [Scalar.unit, List.range_succ, List.map_append]
    rfl
  have hsplit : ∀ (a b : List ℚ) (v : ℚ), a.length = n → b.length = f.rows.length →
      Tableau.insertEntry (n + f.rows.length) (a ++ b ++ [v]) = a ++ b ++ [0] ++ [v] := by
    intro a b v ha hb
    have hlen : (a ++ b).length = n + f.rows.length := by rw [List.length_append, ha, hb]
    rw [Tableau.insertEntry, ← hlen, List.take_left, List.drop_left]
    simp
  rw [Tableau.grow, Tableau.insertColumn, rhsCol_plainTableau hobj]
  refine congrArg₂ Tableau.mk ?_ ?_
  · have hlen : (f.maxObjective.map (- ·)).length = n := by
      rw [List.length_map, length_maxObjective, hobj]
    show f.maxObjective.map (- ·) ++ List.replicate ((f.rows ++ [row]).length + 1) 0 =
      Tableau.insertEntry _ (f.maxObjective.map (- ·) ++ List.replicate (f.rows.length + 1) 0)
    have hold := hsplit _ (List.replicate f.rows.length 0) 0 hlen List.length_replicate
    rw [List.append_assoc, ← List.replicate_succ'] at hold
    rw [hold, List.length_append, List.length_singleton, List.replicate_succ']
    simp
  · show (f.rows ++ [row]).mapIdx (tableauRow (f.rows ++ [row]).length) =
      (f.rows.mapIdx (tableauRow f.rows.length)).mapIdx (fun _ r =>
        Tableau.insertEntry _ r) ++ [_]
    rw [List.mapIdx_concat, List.length_append, List.length_singleton]
    refine congrArg₂ (· ++ ·) ?_ ?_
    · rw [List.mapIdx_mapIdx]
      refine List.ext_getElem (by simp) fun i hi _ => ?_
      have hi : i < f.rows.length := by simpa using hi
      rw [List.getElem_mapIdx, List.getElem_mapIdx]
      show _ = Tableau.insertEntry _ (tableauRow f.rows.length i f.rows[i])
      rw [tableauRow, tableauRow, hsplit _ _ _ _ (by simp [Scalar.unit]), hunit, if_neg hi.ne']
      · simp
      · rw [List.length_map]
        exact hrows _ (List.getElem_mem _)
    · have hzero : (Scalar.unit f.rows.length f.rows.length : List ℚ) =
          List.replicate f.rows.length 0 := by
        refine List.ext_getElem (by simp [Scalar.unit]) fun i hi _ => ?_
        have hi : i < f.rows.length := by simpa [Scalar.unit] using hi
        simp [Scalar.unit, hi.ne]
      rw [tableauRow, hunit, if_pos rfl, hzero]
      simp

/-- The tableau before penalties without any row is the objective row. -/
theorem initial_nil {f : StandardForm ℚ} {objective : List ℚ}
    (hobj : f.objective = ColumnMap.spreadAll f.columns.placements objective) :
    (plainTableau (f.withRows [])).Initial f.columns [] fun y =>
      PrimalSimplex.ofMaximized f.sense (Scalar.dot objective (f.columns.point y)) := by
  have hrow : (plainTableau (f.withRows [])).row 0 = f.maxObjective.map (- ·) ++ [0] := rfl
  have hneg : (f.maxObjective.map (- ·)).length = f.columns.numColumns := by
    rw [List.length_map, length_maxObjective, hobj, ColumnMap.length_spreadAll]
    rfl
  have hlen : ((plainTableau (f.withRows [])).row 0).length = f.columns.numColumns + 1 := by
    rw [hrow, List.length_append, hneg, List.length_singleton]
  have hcol : (plainTableau (f.withRows [])).rhsCol = f.columns.numColumns :=
    congrArg (· - 1) hlen
  refine ⟨rfl, hcol, ⟨⟨?_, fun r hr => (nomatch hr)⟩, fun y => ?_, fun y _ => ?_⟩,
    fun k hk => absurd hk (Nat.not_lt_zero k)⟩
  · show 0 < ((plainTableau (f.withRows [])).row 0).length
    rw [hlen]
    exact Nat.succ_pos _
  · refine ⟨fun _ k row hk => (nomatch hk), fun _ i => ?_⟩
    have hi : (plainTableau (f.withRows [])).numRows ≤ i + 1 := Nat.succ_le_succ (Nat.zero_le i)
    rw [Tableau.rowSum, Tableau.rhs_def, Tableau.entry_of_numRows_le hi]
    exact Finset.sum_eq_zero fun j _ => by rw [Tableau.entry_of_numRows_le hi, zero_mul]
  · have hsum : (plainTableau (f.withRows [])).rowSum 0 y =
        Scalar.dot (f.maxObjective.map (- ·)) ((List.range f.columns.numColumns).map y) := by
      rw [Scalar.dot_range, Tableau.rowSum, hcol]
      refine Finset.sum_congr rfl fun j hj => ?_
      rw [Tableau.entry_def, hrow,
        List.getD_append _ _ _ _ (by rw [hneg]; exact Finset.mem_range.1 hj)]
    have hvalue : (plainTableau (f.withRows [])).objectiveValue = 0 := by
      rw [Tableau.objectiveValue, Tableau.rhs_def, Tableau.entry_def, hrow, hcol,
        List.getD_append_right _ _ _ _ hneg.le, hneg, Nat.sub_self]
      rfl
    rw [hsum, Scalar.dot_map_neg, dot_maxObjective hobj, hvalue]
    ring

/-- The tableau before penalties has the auxiliary columns as its basis. The induction is on the
rows, of which the last one comes last. -/
theorem initial_plainTableau {f : StandardForm ℚ} {objective : List ℚ}
    (hobj : f.objective = ColumnMap.spreadAll f.columns.placements objective)
    (cs : List (Constraint ℚ)) :
    (plainTableau (f.withRows cs)).Initial f.columns cs fun y =>
      PrimalSimplex.ofMaximized f.sense (Scalar.dot objective (f.columns.point y)) := by
  induction cs using List.reverseRecOn with
  | nil => exact initial_nil hobj
  | append_singleton cs c ih =>
    have hlen : (f.withRows cs).objective.length = f.columns.numColumns := by
      show f.objective.length = _
      rw [hobj, ColumnMap.length_spreadAll]
      rfl
    have hrows : ∀ r ∈ (f.withRows cs).rows, r.coefficients.length = f.columns.numColumns := by
      intro r hr
      obtain ⟨c', -, rfl⟩ := List.mem_map.1 hr
      exact ColumnMap.length_spreadRow _ _
    have hconcat : f.withRows (cs ++ [c]) =
        { f.withRows cs with rows := (f.withRows cs).rows ++ [f.columns.spreadRow c] } := by
      simp [StandardForm.withRows]
    have hlength : (f.withRows cs).rows.length = cs.length := List.length_map _
    rw [hconcat, plainTableau_concat hlen hrows, hlength]
    exact ih.growRow c

/-- Carrying rows over to columns keeps their auxiliary columns. -/
theorem ofRows_map_spreadRow {α : Type} [Scalar α] (m : ColumnMap) (cs : List (Constraint α)) :
    AuxColumn.ofRows (cs.map m.spreadRow) = AuxColumn.ofRows cs := by
  induction cs using List.reverseRecOn with
  | nil => rfl
  | append_singleton cs c ih =>
    rw [List.map_append, List.map_singleton, AuxColumn.ofRows_concat _ _ 0,
      AuxColumn.ofRows_concat _ _ 0, ih]
    rfl

/-- The sum of the artificial columns, by kind of column. -/
theorem artificialSum_eq (m : ColumnMap) (cs : List (Constraint ℚ)) (y : ℕ → ℚ) :
    m.artificialSum cs y = ((AuxColumn.ofRows cs).zipIdx.map fun e =>
      if e.1.kind = .artificial then y (m.numColumns + e.2) else 0).sum := by
  induction cs using List.reverseRecOn with
  | nil => rfl
  | append_singleton cs c ih =>
    rw [m.artificialSum_concat, ih, AuxColumn.ofRows_concat _ _ 0, List.zipIdx_append, List.map_append,
      List.sum_append, AuxColumn.length_ofRows]
    cases hrel : c.relation <;> simp [AuxColumn.ofRow, hrel, Relation.auxKind]

/-- Penalties on the artificial columns listed, one after the other. -/
theorem initial_penalties {m : ColumnMap} {cs : List (Constraint ℚ)} (bigM : ℚ) :
    ∀ (aux : List (AuxColumn × ℕ)) (t : Tableau ℚ) (z : (ℕ → ℚ) → ℚ), t.Initial m cs z →
      (∀ e ∈ aux, e.2 < cs.length) →
      (aux.foldl (fun t e => if e.1.kind = .artificial
        then t.penalize (e.2 + 1) (m.numColumns + e.2) bigM else t) t).Initial m cs fun y =>
          z y - bigM * (aux.map fun e =>
            if e.1.kind = .artificial then y (m.numColumns + e.2) else 0).sum
  | [], t, z, h, _ => by simpa using h
  | e :: aux, t, z, h, haux => by
    rw [List.foldl_cons]
    simp only [List.map_cons, List.sum_cons, mul_add, ← sub_sub]
    refine initial_penalties bigM aux _ _ ?_ fun e' he' => haux e' (List.mem_cons_of_mem _ he')
    split_ifs
    · exact h.penalize (haux e List.mem_cons_self) bigM
    · simpa using h

/-- The model that is built represents the problem. -/
theorem represents_build {bigM : ℚ} {p : Problem ℚ} {m : Model ℚ} (h : build bigM p = .ok m) :
    m.Represents bigM ⟨p, []⟩ := by
  rw [build_eq] at h
  cases hf : StandardForm.ofProblem p with
  | error e => rw [hf] at h; cases h
  | ok f =>
    rw [hf] at h
    obtain ⟨hcol, hsense, hobj, hrows⟩ := StandardForm.ofProblem_eq_ok hf
    have hposed : (⟨p, []⟩ : Posed ℚ).rows = p.constraints ++ p.binaryBounds :=
      List.append_nil _
    have haux : AuxColumn.ofRows f.rows = AuxColumn.ofRows (⟨p, []⟩ : Posed ℚ).rows := by
      rw [hrows, ofRows_map_spreadRow, hposed]
    have hplain : f.withRows (⟨p, []⟩ : Posed ℚ).rows = f := by
      rw [hposed, StandardForm.withRows, ← hrows]
    have hinit := initial_plainTableau hobj (⟨p, []⟩ : Posed ℚ).rows
    rw [hplain] at hinit
    have hpen := initial_penalties bigM (AuxColumn.ofRows f.rows).zipIdx _ _ hinit fun e he => by
      have hlt := List.snd_lt_of_mem_zipIdx he
      rwa [haux, AuxColumn.length_ofRows, Nat.add_zero] at hlt
    obtain rfl := Except.ok.inj h
    refine ⟨?_, hcol, haux, rfl, hpen.numRows_eq, ⟨?_, hpen.hasBasis, ?_⟩⟩
    · simp [Posed.current]
    · refine hpen.states.restate (fun y => Iff.rfl) fun y _ => ?_
      rw [haux, ← artificialSum_eq, hsense, hcol]
      rfl
    · show _ = _ + (AuxColumn.ofRows f.rows).length
      rw [haux, AuxColumn.length_ofRows]
      exact hpen.rhsCol_eq

/-! ## Extending -/

/-- One row more adds its penalty if it is an equality. -/
theorem penalized_add (q : Posed ℚ) (k : Constraint ℚ) (bigM : ℚ) (y : ℕ → ℚ) :
    (q.add k).penalized bigM y = q.penalized bigM y - bigM * if k.relation = .eq
      then y ((ColumnMap.ofProblem q.problem).numColumns + q.rows.length) else 0 := by
  rw [Posed.penalized, Posed.penalized, Posed.rows_add]
  show _ - bigM * (ColumnMap.ofProblem q.problem).artificialSum (q.rows ++ [k]) y = _
  rw [ColumnMap.artificialSum_concat, mul_add, ← sub_sub]
  rfl

/-- The tableau grown by the row of a constraint, with the columns that count as basic cleared in
it. -/
def clearedTableau (m : Model ℚ) (tolerance : ℚ) (k : Constraint ℚ) : Tableau ℚ :=
  clearBasics tolerance m.tableau.numRows
    ((List.range m.columns.numColumns).map (m.tableau.basicRow · tolerance))
    (m.tableau.grow (m.columns.rowEntries k m.aux.length) (k.rowSign * k.rhs))

/-- At any tolerance the cleared tableau states the equation of the constraint too. -/
theorem Describes.clearedTableau {m : Model ℚ} {bigM : ℚ} {q : Posed ℚ} (h : m.Describes bigM q)
    (tolerance : ℚ) (k : Constraint ℚ) : m.tableau.Grown (m.clearedTableau tolerance k) ∧
      (m.clearedTableau tolerance k).States (m.columns.Holds (q.rows ++ [k]))
        (q.penalized bigM) := by
  have hlen : m.aux.length = q.rows.length := by rw [h.aux_eq, AuxColumn.length_ofRows]
  have hr := (m.columns.length_rowEntries k _).trans h.rhsCol_eq.symm
  rw [Model.clearedTableau, hlen]
  refine Grown.clearBasics tolerance (fun b hb => ?_) (Grown.grow h.states.rectangular hr _)
    (h.states.growRow h.rhsCol_eq k)
  obtain ⟨j, -, hj⟩ := List.mem_map.1 hb
  exact Tableau.basicRow_range hj

/-- At tolerance zero every row keeps a basic column in which the new row is zero. -/
theorem Represents.hasBasis_clearedTableau {m : Model ℚ} {bigM : ℚ} {q : Posed ℚ}
    (h : m.Represents bigM q) (k : Constraint ℚ) : (m.clearedTableau 0 k).HasBasis := by
  have hlen : m.aux.length = q.rows.length := by rw [h.aux_eq, AuxColumn.length_ofRows]
  have hr := (m.columns.length_rowEntries k _).trans h.rhsCol_eq.symm
  have hstart : Clearing m.tableau m.columns.numColumns 0
      (m.tableau.grow (m.columns.rowEntries k q.rows.length) (k.rowSign * k.rhs)) := by
    refine ⟨Grown.grow h.stands.states.rectangular hr _, fun i j hj hcase => ⟨j, hj, hcase, ?_⟩⟩
    rw [Tableau.entry_grow_numRows _ hr _ hj.lt,
      m.columns.getD_rowEntries_of_le _ _ (hcase.resolve_left (Nat.not_lt_zero j))]
  have hclear := hstart.clearBasics (h.rhsCol_eq ▸ Nat.le_add_right _ _) _ le_rfl
  rw [Model.clearedTableau, hlen]
  refine hclear.grown.hasBasis fun i hi hlt => ?_
  obtain ⟨j, hj⟩ := h.stands.basis i hi hlt
  obtain ⟨j', hj', -, h0⟩ := hclear.covers i j hj (Nat.lt_or_ge j _)
  exact ⟨j', hj', h0⟩

/-- A constraint comes to the tableau as its cleared row, with a penalty for an equality. The row
has `1` in its own column, so its sign is never changed. -/
theorem extendTableau_eq {m : Model ℚ} {c : Config ℚ} (k : Constraint ℚ)
    (h : m.tableau.Grown (m.clearedTableau c.tolerance k)) :
    m.extendTableau c (m.columns.spreadRow k) = if k.relation = .eq
      then (m.clearedTableau c.tolerance k).penalize m.tableau.numRows m.tableau.rhsCol c.bigM
      else m.clearedTableau c.tolerance k := by
  have hsign : ¬(m.clearedTableau c.tolerance k).entry m.tableau.numRows m.tableau.rhsCol < 0 := by
    rw [h.own]
    exact not_lt.2 zero_le_one
  show (if k.relation = .eq then
      (if (m.clearedTableau c.tolerance k).entry m.tableau.numRows m.tableau.rhsCol < 0
        then (m.clearedTableau c.tolerance k).negateRow m.tableau.numRows
        else m.clearedTableau c.tolerance k).penalize _ _ _
    else if (m.clearedTableau c.tolerance k).entry m.tableau.numRows m.tableau.rhsCol < 0
      then (m.clearedTableau c.tolerance k).negateRow m.tableau.numRows
      else m.clearedTableau c.tolerance k) = _
  rw [if_neg hsign]

/-- The tableau after a constraint came to it, at any tolerance. -/
theorem Describes.extendTableau {m : Model ℚ} {c : Config ℚ} {q : Posed ℚ}
    (h : m.Describes c.bigM q) (k : Constraint ℚ) :
    (m.extendTableau c (m.columns.spreadRow k)).numRows = m.tableau.numRows + 1 ∧
      (m.extendTableau c (m.columns.spreadRow k)).rhsCol = m.tableau.rhsCol + 1 ∧
      (m.extendTableau c (m.columns.spreadRow k)).States (m.columns.Holds (q.add k).rows)
        ((q.add k).penalized c.bigM) := by
  obtain ⟨hgrown, hstates⟩ := h.clearedTableau c.tolerance k
  have hobj : ∀ y, (q.add k).penalized c.bigM y = q.penalized c.bigM y -
      c.bigM * if k.relation = .eq then y m.tableau.rhsCol else 0 := by
    intro y
    rw [penalized_add, ← h.columns_eq, ← h.rhsCol_eq]
  rw [extendTableau_eq k hgrown, Posed.rows_add]
  have hown := hgrown.basic_own
  by_cases heq : k.relation = .eq
  · simp only [if_pos heq] at hobj ⊢
    have hpen := hgrown.rectangular.penalize (c := m.tableau.rhsCol) hown.row_lt c.bigM
    refine ⟨?_, ?_, ?_⟩
    · rw [Tableau.numRows_penalize, hgrown.numRows_eq]
    · rw [← hgrown.rhsCol_eq]
      exact congrArg (· - 1) hpen.2
    · exact (hstates.penalize hown c.bigM).restate (fun _ => Iff.rfl) fun y _ => hobj y
  · simp only [if_neg heq, mul_zero, sub_zero] at hobj ⊢
    exact ⟨hgrown.numRows_eq, hgrown.rhsCol_eq,
      hstates.restate (fun _ => Iff.rfl) fun y _ => hobj y⟩

/-- At tolerance zero the tableau keeps a basis when a constraint comes to it. -/
theorem Represents.hasBasis_extendTableau {m : Model ℚ} {c : Config ℚ} {q : Posed ℚ}
    (h : m.Represents c.bigM q) (ht : c.tolerance = 0) (k : Constraint ℚ) :
    (m.extendTableau c (m.columns.spreadRow k)).HasBasis := by
  obtain ⟨hgrown, -⟩ := h.describes.clearedTableau c.tolerance k
  have hbasis := h.hasBasis_clearedTableau k
  rw [extendTableau_eq k hgrown]
  rw [ht] at hgrown ⊢
  split_ifs
  · exact hbasis.penalize hgrown.rectangular hgrown.basic_own _
  · exact hbasis

/-- What a model is that took a constraint. -/
theorem extend_eq_ok {α : Type} [Scalar α] {m m' : Model α} {c : Config α} {k : Constraint α}
    (h : m.extend c k = .ok m') : ∃ p, m.problem.addConstraint k = .ok p ∧
      m' = { m with
        problem := p
        tableau := m.extendTableau c (m.columns.spreadRow k)
        aux := m.aux ++ [.ofRow m.counts k]
        counts := m.counts.add k.relation.auxKind } := by
  dsimp only [extend, bind, Except.bind] at h
  cases hrow : m.columns.constraintToColumns k with
  | error e => rw [hrow] at h; cases h
  | ok row =>
    rw [hrow] at h
    obtain rfl := ColumnMap.constraintToColumns_eq_ok hrow
    dsimp only at h
    cases hp : m.problem.addConstraint k with
    | error e => rw [hp] at h; cases h
    | ok p =>
      rw [hp] at h
      exact ⟨p, rfl, (Except.ok.inj h).symm⟩

/-- A model that took a constraint goes on counting right. -/
theorem Counted.extend {α : Type} [Scalar α] {m m' : Model α} (h : m.Counted) {c : Config α}
    {k : Constraint α} (hk : m.extend c k = .ok m') : m'.Counted := by
  obtain ⟨p, -, rfl⟩ := extend_eq_ok hk
  exact h.pushRow k

/-- A constraint that is added to a model is described with the others, at any tolerance. -/
theorem Describes.extend {m m' : Model ℚ} {c : Config ℚ} {q : Posed ℚ} {k : Constraint ℚ}
    (h : m.Describes c.bigM q) (hk : m.extend c k = .ok m') : m'.Describes c.bigM (q.add k) := by
  have hcounted := h.counted.extend hk
  obtain ⟨p, hp, rfl⟩ := extend_eq_ok hk
  obtain ⟨hnum, hcol, hstates⟩ := h.extendTableau k
  refine ⟨?_, h.columns_eq, ?_, hcounted, ?_, ?_, hstates⟩
  · rw [h.problem_eq] at hp
    exact Posed.addConstraint_current hp
  · rw [Posed.rows_add, ← h.counted.ofRows_concat h.aux_eq]
  · rw [Posed.rows_add, List.length_append, List.length_singleton, ← h.numRows_eq]
    exact hnum
  · rw [Posed.rows_add, List.length_append, List.length_singleton, ← Nat.add_assoc, ← h.rhsCol_eq]
    exact hcol

/-- At tolerance zero a constraint that is added to a model is represented with the others. -/
theorem Represents.extend {m m' : Model ℚ} {c : Config ℚ} {q : Posed ℚ} {k : Constraint ℚ}
    (h : m.Represents c.bigM q) (ht : c.tolerance = 0) (hk : m.extend c k = .ok m') :
    m'.Represents c.bigM (q.add k) := by
  refine (h.describes.extend hk).represents ?_
  obtain ⟨p, -, rfl⟩ := extend_eq_ok hk
  exact h.hasBasis_extendTableau ht k

/-! ## Rows that belong to no constraint -/

variable {m : Model ℚ} {E : (ℕ → ℚ) → Prop} {z : (ℕ → ℚ) → ℚ}

/-- The slack column of an appended row is not artificial. -/
theorem isArtificial_appendRow (m : Model ℚ) (coefficients : List ℚ) (b : ℚ) (j : ℕ) :
    (m.appendRow coefficients b).isArtificial j = m.isArtificial j := by
  unfold isArtificial auxAt?
  show Option.any _ (if j < m.numDecisions then none
    else (m.aux ++ [AuxColumn.ofRow m.counts ⟨coefficients, .le, b⟩])[j - m.numDecisions]?) = _
  split_ifs
  · rfl
  · rcases Nat.lt_trichotomy (j - m.numDecisions) m.aux.length with hlt | heq | hgt
    · rw [List.getElem?_append_left hlt]
    · rw [heq, List.getElem?_concat_length, List.getElem?_eq_none le_rfl]
      rfl
    · rw [List.getElem?_eq_none, List.getElem?_eq_none hgt.le]
      rw [List.length_append, List.length_singleton]
      exact hgt

/-- An appended row adds its equation, if every row keeps a basic column in which it is zero. -/
theorem Stands.appendRow (h : m.Stands E z) {coefficients : List ℚ}
    (hlen : coefficients.length = m.tableau.rhsCol) (b : ℚ)
    (hbasis : ∀ i, 0 < i → i < m.tableau.numRows →
      ∃ j, m.tableau.Basic i j ∧ coefficients.getD j 0 = 0) :
    (m.appendRow coefficients b).Stands (fun y => E y ∧
      ∑ j ∈ Finset.range m.tableau.rhsCol, coefficients.getD j 0 * y j +
        y m.tableau.rhsCol = b) z := by
  have hrect := h.states.rectangular
  refine ⟨h.states.grow hlen b, (Tableau.Grown.grow hrect hlen b).hasBasis fun i hi hlt => ?_, ?_⟩
  · obtain ⟨j, hj, h0⟩ := hbasis i hi hlt
    exact ⟨j, hj, by rw [m.tableau.entry_grow_numRows hlen b hj.lt, h0]⟩
  · show (m.tableau.grow coefficients b).rhsCol = m.numDecisions + (m.aux ++ [_]).length
    rw [hrect.rhsCol_grow, h.rhsCol_eq, List.length_append, List.length_singleton, Nat.add_assoc]

end Model
end LinOpt
