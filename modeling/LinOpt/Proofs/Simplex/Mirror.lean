import LinOpt.Proofs.Simplex.Inverse
import LinOpt.Proofs.Simplex.Primal
import LinOpt.Proofs.Tableau.Choice
import LinOpt.Simplex.Revised

/-!
# Bases and their tableaux

A basis of the revised method belongs to a system `[A | I] x = b` (`Basis.Holds`) and keeps the
inverse of its columns (`Basis.Consistent`). A tableau mirrors it (`Basis.Mirrors`) when it states
the same system and the columns of the basis are basic in it, row by row. This determines the
tableau: its rows are those of the inverse times the matrix (`Basis.Mirrors.constraints_eq`), and
its row `0` holds the reduced costs with their signs changed (`Basis.Mirrors.row_zero`). Both are
one argument, that a linear form with one value at all solutions is zero if the basic columns do not
occur in it (`Basis.Mirrors.eq_zero_of_sum`), so it does not matter that the inverse is computed
anew after every exchange while the tableau is carried along.

So both choose the same column and the same row, the first of several included
(`Basis.Mirrors.entering_eq`, `Basis.Mirrors.leaving_eq`). At the slack basis the tableau of the
primal method is a mirror (`Basis.exists_mirror`).
-/

namespace LinOpt

open Finset (sum_congr)

namespace Basis

/-! ## The system of a basis -/

/-- The constraint rows of the tableau at a basis: the inverse times the matrix, and behind every
row the value of its basic column. -/
def tableauRows {α : Type} [Scalar α] (b : Basis α) : List (List α) :=
  b.inverse.zipWith (fun r x =>
    (List.range b.objective.length).map (fun j => Scalar.dot r (b.matrixColumn j)) ++ [x]) b.values

/-- The values of all columns satisfy `[A | I] x = b`. -/
def Holds (b : Basis ℚ) (y : ℕ → ℚ) : Prop := ∀ k < b.rhs.length,
  ∑ j ∈ Finset.range b.objective.length, Matrix.entry b.matrix k j * y j = b.rhs.getD k 0

/-- The objective at values of all columns. -/
def objectiveAt (b : Basis ℚ) (y : ℕ → ℚ) : ℚ :=
  ∑ j ∈ Finset.range b.objective.length, b.cost j * y j

/-- Inverse and values of a basis belong to its columns. -/
structure Consistent (b : Basis ℚ) : Prop where
  matrix_length : b.matrix.length = b.rhs.length
  columns_length : b.columns.length = b.rhs.length
  inverse_length : b.inverse.length = b.rhs.length
  values_eq : b.values = b.inverse.map (Scalar.dot · b.rhs)
  dot_column : ∀ i < b.rhs.length, ∀ l < b.rhs.length,
    Scalar.dot (b.inverse.getD i []) (b.matrixColumn (b.columns.getD l 0)) = if i = l then 1 else 0

variable {b b' : Basis ℚ} {y : ℕ → ℚ} {t : Tableau ℚ} {tolerance : ℚ} {row col : ℕ}

/-- The entries of a column of the matrix. -/
theorem getD_matrixColumn (b : Basis ℚ) (j k : ℕ) :
    (b.matrixColumn j).getD k 0 = Matrix.entry b.matrix k j :=
  List.getD_map b.matrix [] (n := k) fun r => r.getD j 0

/-- A combination of the rows of the matrix, in one column. -/
theorem dot_matrixColumn (h : b.matrix.length = b.rhs.length) (r : List ℚ) (j : ℕ) :
    Scalar.dot r (b.matrixColumn j) =
      ∑ k ∈ Finset.range b.rhs.length, r.getD k 0 * Matrix.entry b.matrix k j := by
  rw [Scalar.dot_eq_sum, matrixColumn, List.length_map, h]
  exact sum_congr rfl fun k _ => by rw [← getD_matrixColumn, matrixColumn]

/-- A combination of the rows of the system holds where the system does. -/
theorem Holds.sum_dot (hy : b.Holds y) (h : b.matrix.length = b.rhs.length) (r : List ℚ) :
    ∑ j ∈ Finset.range b.objective.length, Scalar.dot r (b.matrixColumn j) * y j =
      Scalar.dot r b.rhs := by
  simp only [dot_matrixColumn h, Finset.sum_mul, mul_assoc]
  rw [Finset.sum_comm, Scalar.dot_eq_sum]
  refine sum_congr rfl fun k hk => ?_
  rw [← Finset.mul_sum, hy k (Finset.mem_range.1 hk)]

/-- The multipliers are the costs of the basic columns times the inverse. -/
theorem Consistent.dot_multipliers (h : b.Consistent) (v : List ℚ) (hv : v.length = b.rhs.length) :
    Scalar.dot b.multipliers v =
      Scalar.dot (b.columns.map b.cost) (b.inverse.map (Scalar.dot · v)) := by
  have hcol : ∀ k, (b.inverse.map (·.getD k 0)).length = b.rhs.length := fun k => by
    rw [List.length_map, h.inverse_length]
  have hinv : ∀ i k, (b.inverse.map (·.getD k 0)).getD i 0 = (b.inverse.getD i []).getD k 0 :=
    fun i k => List.getD_map b.inverse [] (n := i) fun r => r.getD k 0
  have hdot : ∀ i, (b.inverse.map (Scalar.dot · v)).getD i 0 =
      Scalar.dot (b.inverse.getD i []) v := by
    intro i
    rw [← Scalar.dot_nil_left v]
    exact List.getD_map b.inverse [] (n := i) (Scalar.dot · v)
  have hmul : ∀ k ∈ Finset.range v.length, b.multipliers.getD k 0 =
      ∑ i ∈ Finset.range b.rhs.length,
        (b.columns.map b.cost).getD i 0 * (b.inverse.getD i []).getD k 0 := by
    intro k hk
    have hk : k < b.rhs.length := hv ▸ Finset.mem_range.1 hk
    rw [multipliers, List.getD_eq_getElem _ _ (by simpa using hk), List.getElem_map,
      List.getElem_range, Scalar.dot_eq_sum, hcol]
    exact sum_congr rfl fun i _ => by rw [hinv]
  rw [Scalar.dot_eq_sum, sum_congr rfl fun k hk => by rw [hmul k hk, Finset.sum_mul],
    Finset.sum_comm, Scalar.dot_eq_sum, List.length_map, h.inverse_length]
  refine sum_congr rfl fun i _ => ?_
  rw [hdot, Scalar.dot_eq_sum, Finset.mul_sum]
  exact sum_congr rfl fun k _ => mul_assoc _ _ _

/-- The value of the objective is that of the multipliers. -/
theorem Consistent.dot_multipliers_rhs (h : b.Consistent) :
    Scalar.dot b.multipliers b.rhs = b.objectiveValue := by
  rw [h.dot_multipliers _ rfl, objectiveValue, h.values_eq]

/-- The reduced cost of a basic column is zero. -/
theorem Consistent.reducedCost_eq_zero (h : b.Consistent) {l : ℕ} (hl : l < b.rhs.length) :
    b.reducedCost b.multipliers (b.columns.getD l 0) = 0 := by
  have hunit : b.inverse.map (Scalar.dot · (b.matrixColumn (b.columns.getD l 0))) =
      (List.range b.rhs.length).map fun i => if i = l then 1 else 0 := by
    refine List.ext_getElem (by simp [h.inverse_length]) fun i hi _ => ?_
    have hi : i < b.inverse.length := by simpa using hi
    rw [List.getElem_map, List.getElem_map, List.getElem_range,
      ← h.dot_column i (h.inverse_length ▸ hi) l hl, List.getD_eq_getElem _ _ hi]
  have hl' : l < b.columns.length := h.columns_length ▸ hl
  rw [reducedCost, h.dot_multipliers _ (by rw [matrixColumn, List.length_map, h.matrix_length]),
    hunit, Scalar.dot_range]
  simp only [mul_ite, mul_one, mul_zero]
  rw [Finset.sum_ite_eq', if_pos (Finset.mem_range.2 hl),
    List.getD_eq_getElem _ _ hl', List.getD_eq_getElem (b.columns.map b.cost) _ (by simpa using hl'),
    List.getElem_map, sub_self]

/-- The entries of the matrix of some columns. -/
theorem entry_columns {matrix : List (List ℚ)} {columns : List ℕ} {k l : ℕ}
    (hk : k < matrix.length) (hl : l < columns.length) :
    Matrix.entry (matrix.map fun r => columns.map (r.getD · 0)) k l =
      Matrix.entry matrix k (columns.getD l 0) := by
  rw [Matrix.entry, Matrix.entry, List.getD_eq_getElem (matrix.map _) _ (by simpa using hk),
    List.getElem_map, List.getD_eq_getElem (columns.map _) _ (by simpa using hl), List.getElem_map,
    List.getD_eq_getElem _ _ hk, List.getD_eq_getElem _ _ hl]

/-- What an exchange does that is not refused: inverse and values belong to the new columns. -/
theorem Consistent.exchange (ht : 0 ≤ tolerance) (h : b.Consistent)
    (hb' : b.exchange row col tolerance = .ok b') : ∃ inverse values,
      b' = { b with columns := b.columns.set row col, inverse, values } ∧ b'.Consistent := by
  dsimp only [Basis.exchange] at hb'
  have hlen : (b.columns.set row col).length = b.rhs.length := by
    rw [List.length_set, h.columns_length]
  generalize b.columns.set row col = columns at hb' hlen ⊢
  cases hinv : Matrix.invert (b.matrix.map fun r => columns.map (r.getD · 0)) tolerance with
  | error e => rw [hinv] at hb'; cases hb'
  | ok inverse =>
    have hsquare : (b.matrix.map fun r => columns.map (r.getD · 0)).length = b.rhs.length := by
      rw [List.length_map, h.matrix_length]
    have hN := Matrix.invert_eq_ok ht (fun r hr => by
      obtain ⟨r', -, rfl⟩ := List.mem_map.1 hr
      rw [List.length_map, hlen, hsquare]) hinv
    rw [hinv] at hb'
    refine ⟨inverse, inverse.map (Scalar.dot · b.rhs), (Except.ok.inj hb').symm, ?_⟩
    rw [← Except.ok.inj hb']
    refine ⟨h.matrix_length, hlen, hN.length_eq.trans hsquare, rfl, fun i hi l hl => ?_⟩
    have hmul := hN.mul_eq i (hsquare ▸ hi) l (hsquare ▸ hl)
    rw [hsquare] at hmul
    rw [← hmul]
    refine (dot_matrixColumn h.matrix_length _ _).trans (sum_congr rfl fun k hk => ?_)
    rw [entry_columns (h.matrix_length ▸ Finset.mem_range.1 hk) (hlen ▸ hl)]
    rfl

/-! ## Mirrored bases -/

/-- Columns that are basic row by row are a choice for the rows. -/
theorem isBasis_of_basic {columns : List ℕ} {m : ℕ} (hm : t.numConstraints = m)
    (h : ∀ i < m, t.Basic (i + 1) (columns.getD i 0)) :
    t.IsBasis fun i => columns.getD (i - 1) 0 := by
  intro i hi hlt
  obtain ⟨k, rfl⟩ := Nat.exists_eq_add_one_of_ne_zero hi.ne'
  rw [Tableau.numRows_eq, hm] at hlt
  exact h k (Nat.lt_of_succ_lt_succ hlt)

/-- The tableau and the basis belong to one system, and the columns of the basis are basic in the
rows of the tableau. -/
structure Mirrors (b : Basis ℚ) (t : Tableau ℚ) : Prop where
  consistent : b.Consistent
  states : t.States b.Holds b.objectiveAt
  numConstraints_eq : t.numConstraints = b.rhs.length
  rhsCol_eq : t.rhsCol = b.objective.length
  basic : ∀ i < b.rhs.length, t.Basic (i + 1) (b.columns.getD i 0)

namespace Mirrors

/-- The columns of a basis are one of the tableau that mirrors it. -/
theorem isBasis (h : b.Mirrors t) : t.IsBasis fun i => b.columns.getD (i - 1) 0 :=
  isBasis_of_basic h.numConstraints_eq h.basic

/-- A linear form that has one value at all solutions and is zero in the basic columns is zero. -/
theorem eq_zero_of_sum (h : b.Mirrors t) {d : ℕ → ℚ} {s : ℚ}
    (hsum : ∀ y, b.Holds y → ∑ j ∈ Finset.range b.objective.length, d j * y j = s)
    (hd : ∀ l < b.rhs.length, d (b.columns.getD l 0) = 0) :
    s = 0 ∧ ∀ j < b.objective.length, d j = 0 := by
  rw [← h.rhsCol_eq] at hsum ⊢
  refine h.states.eq_zero_of_sum h.isBasis hsum fun j hj => ?_
  obtain ⟨i, hi, hlt, rfl⟩ := Tableau.mem_basisColumns.1 hj
  rw [Tableau.numRows_eq, h.numConstraints_eq] at hlt
  exact hd (i - 1) (by omega)

/-- A constraint row of the tableau is that row of the inverse times the system. -/
theorem row_eq (h : b.Mirrors t) {i : ℕ} (hi : i < b.rhs.length) :
    t.rhs (i + 1) = Scalar.dot (b.inverse.getD i []) b.rhs ∧ ∀ j < b.objective.length,
      t.entry (i + 1) j = Scalar.dot (b.inverse.getD i []) (b.matrixColumn j) := by
  have hsum : ∀ y, b.Holds y → ∑ j ∈ Finset.range b.objective.length,
      (t.entry (i + 1) j - Scalar.dot (b.inverse.getD i []) (b.matrixColumn j)) * y j =
        t.rhs (i + 1) - Scalar.dot (b.inverse.getD i []) b.rhs := by
    intro y hy
    simp only [sub_mul, Finset.sum_sub_distrib]
    rw [hy.sum_dot h.consistent.matrix_length, ← (h.states.solves_iff y).2 hy i, Tableau.rowSum,
      h.rhsCol_eq]
  have hbasic : ∀ l < b.rhs.length, t.entry (i + 1) (b.columns.getD l 0) -
      Scalar.dot (b.inverse.getD i []) (b.matrixColumn (b.columns.getD l 0)) = 0 := by
    intro l hl
    rw [h.consistent.dot_column i hi l hl]
    split_ifs with hil
    · rw [hil, (h.basic l hl).one, sub_self]
    · rw [(h.basic l hl).zero _ (by omega), sub_self]
  obtain ⟨hrhs, hrow⟩ := h.eq_zero_of_sum hsum hbasic
  exact ⟨sub_eq_zero.1 hrhs, fun j hj => sub_eq_zero.1 (hrow j hj)⟩

/-- Row `0` of the tableau holds the negated reduced costs and the value of the objective. -/
theorem row_zero (h : b.Mirrors t) : t.objectiveValue = b.objectiveValue ∧
    ∀ j < b.objective.length, t.entry 0 j = -b.reducedCost b.multipliers j := by
  have hsum : ∀ y, b.Holds y → ∑ j ∈ Finset.range b.objective.length,
      (t.entry 0 j + b.reducedCost b.multipliers j) * y j =
        t.objectiveValue - b.objectiveValue := by
    intro y hy
    have hrow := h.states.objective_eq y hy
    rw [Tableau.rowSum, h.rhsCol_eq, objectiveAt] at hrow
    simp only [reducedCost, add_mul, sub_mul, Finset.sum_add_distrib, Finset.sum_sub_distrib]
    rw [hy.sum_dot h.consistent.matrix_length, h.consistent.dot_multipliers_rhs, ← hrow]
    ring
  have hbasic : ∀ l < b.rhs.length, t.entry 0 (b.columns.getD l 0) +
      b.reducedCost b.multipliers (b.columns.getD l 0) = 0 := by
    intro l hl
    rw [(h.basic l hl).zero 0 (Nat.succ_ne_zero l).symm, h.consistent.reducedCost_eq_zero hl,
      add_zero]
  obtain ⟨hvalue, hrow⟩ := h.eq_zero_of_sum hsum hbasic
  exact ⟨sub_eq_zero.1 hvalue, fun j hj => eq_neg_of_add_eq_zero_left (hrow j hj)⟩

/-- The constraint rows of the tableau are the inverse times the system. -/
theorem constraints_eq (h : b.Mirrors t) : t.constraints = b.tableauRows := by
  have hlen : b.values.length = b.rhs.length := by
    rw [h.consistent.values_eq, List.length_map, h.consistent.inverse_length]
  refine List.ext_getElem ?_ fun i hi _ => ?_
  · rw [tableauRows, List.length_zipWith, h.consistent.inverse_length, hlen, min_self]
    exact h.numConstraints_eq
  have hi' : i < b.rhs.length := h.numConstraints_eq ▸ hi
  have hinv : i < b.inverse.length := h.consistent.inverse_length ▸ hi'
  have hcols : t.constraints[i].length = b.objective.length + 1 := by
    rw [h.states.rectangular.2 _ (List.getElem_mem hi), ← h.states.rectangular.rhsCol_succ,
      h.rhsCol_eq]
  have hentry : ∀ j, t.entry (i + 1) j = t.constraints[i].getD j 0 := by
    intro j
    rw [Tableau.entry_def, Tableau.row_succ, List.getD_eq_getElem _ _ hi]
  obtain ⟨hrhs, hrow⟩ := h.row_eq hi'
  rw [Tableau.rhs_def, h.rhsCol_eq, hentry, List.getD_eq_getElem _ _ (by omega)] at hrhs
  simp only [tableauRows, List.getElem_zipWith]
  refine List.ext_getElem (by simp [hcols]) fun j hj _ => ?_
  rw [hcols] at hj
  rcases Nat.lt_succ_iff_lt_or_eq.1 hj with hlt | rfl
  · rw [List.getElem_append_left (by simpa using hlt), List.getElem_map, List.getElem_range,
      ← List.getD_eq_getElem _ [] hinv, ← hrow j hlt, hentry, List.getD_eq_getElem _ _ (by omega)]
  · rw [hrhs, List.getElem_append_right (by simp)]
    simp only [List.length_map, List.length_range, Nat.sub_self, List.getElem_cons_zero,
      List.getD_eq_getElem _ _ hinv, h.consistent.values_eq, List.getElem_map]

/-! ## The same choices -/

/-- A basic column has no entry in row `0`. -/
theorem entry_zero_of_mem (h : b.Mirrors t) {j : ℕ} (hj : j ∈ b.columns) : t.entry 0 j = 0 := by
  obtain ⟨l, hl, rfl⟩ := List.mem_iff_getElem.1 hj
  rw [← List.getD_eq_getElem _ 0]
  exact (h.basic l (h.consistent.columns_length ▸ hl)).zero 0 (Nat.succ_ne_zero l).symm

/-- The same column enters: a basic column is passed over in the one and has no entry in the other,
and the greatest reduced cost is the most negative entry. -/
theorem entering_eq (ht : 0 ≤ tolerance) (h : b.Mirrors t) :
    t.entering tolerance = (b.entering tolerance).map (·.1) := by
  have hentries : t.reducedCosts.mapIdx (fun _ v => some v) =
      (List.range b.objective.length).map fun j => some (t.entry 0 j) := by
    refine List.ext_getElem? fun j => ?_
    rw [List.getElem?_mapIdx, h.states.rectangular.getElem?_reducedCosts, h.rhsCol_eq,
      List.getElem?_map]
    by_cases hj : j < b.objective.length
    · rw [if_pos hj, List.getElem?_range hj]
      rfl
    · rw [if_neg hj, List.getElem?_eq_none (by simpa using hj)]
      rfl
  have hsame : Tableau.mostNegative tolerance (t.reducedCosts.mapIdx fun _ v => some v) =
      (b.entering tolerance).map fun e => (e.1, -e.2) := by
    rw [hentries]
    refine Selection.firstBest_rename (fun v : ℚ => -v) (fun v => ?_) (fun v w => ?_)
      (fun v w hw hvw => ?_) ?_
    · simp
    · simp
    · exact decide_eq_true ((of_decide_eq_true hw).trans (of_decide_eq_true hvw))
    rw [List.forall₂_map_left_iff, List.forall₂_map_right_iff, List.forall₂_same]
    intro j hj
    rw [List.mem_range] at hj
    by_cases hmem : j ∈ b.columns
    · refine .inr ⟨if_pos (List.contains_iff_mem.2 hmem), _, rfl, ?_, fun v hv => ?_⟩
      · rw [h.entry_zero_of_mem hmem]
        exact decide_eq_false (by linarith)
      · rw [h.entry_zero_of_mem hmem]
        have hv := of_decide_eq_true hv
        exact decide_eq_false (by linarith)
    · rw [if_neg (fun hcon => hmem (List.contains_iff_mem.1 hcon)), h.row_zero.2 j hj]
      exact .inl rfl
  rw [Tableau.entering, Tableau.enteringWhere]
  simp only [if_true]
  rw [hsame, Option.map_map]
  rfl

/-- The same row leaves, because the ratios are the same. -/
theorem leaving_eq (h : b.Mirrors t) (hcol : col < b.objective.length) :
    t.leaving col tolerance = (b.leaving (b.direction col) tolerance).map (· + 1) := by
  have hratio : ∀ (r : List ℚ) (x : ℚ),
      let cols := (List.range b.objective.length).map fun j => Scalar.dot r (b.matrixColumn j)
      (cols ++ [x]).getD col 0 = Scalar.dot r (b.matrixColumn col) ∧
        (cols ++ [x]).getD b.objective.length 0 = x := by
    intro r x cols
    have hlen : cols.length = b.objective.length := by simp [cols]
    refine ⟨?_, ?_⟩
    · rw [List.getD_append _ _ _ _ (hlen ▸ hcol), List.getD_eq_getElem _ _ (hlen ▸ hcol)]
      simp [cols]
    · rw [List.getD_append_right _ _ _ _ hlen.le, hlen, Nat.sub_self]
      rfl
  rw [Tableau.leaving, Basis.leaving, h.constraints_eq, tableauRows, h.rhsCol_eq, direction,
    List.map_zipWith, List.zipWith_map_left, Option.map_map]
  simp only [hratio]
  rfl

/-- After the pivot of an exchange the new columns are basic. -/
theorem basic_exchange (h : b.Mirrors t) (hcol : col < b.objective.length)
    (hp : t.entry (row + 1) col ≠ 0) {i : ℕ} (hi : i < b.rhs.length) :
    (t.eliminate (row + 1) col).Basic (i + 1) ((b.columns.set row col).getD i 0) := by
  have hrect := h.states.rectangular
  have hlen : i < b.columns.length := h.consistent.columns_length ▸ hi
  rw [List.getD_eq_getElem?_getD]
  by_cases hir : i = row
  · subst hir
    rw [List.getElem?_set_self hlen]
    exact hrect.basic_eliminate hp (h.rhsCol_eq ▸ hcol)
  · rw [List.getElem?_set_ne (Ne.symm hir), ← List.getD_eq_getElem?_getD]
    exact (h.basic i hi).eliminate hrect (by omega) hp

/-- The pivot of an exchange keeps the size of the tableau. -/
theorem size_exchange (h : b.Mirrors t) (hp : t.entry (row + 1) col ≠ 0) :
    (t.eliminate (row + 1) col).numConstraints = b.rhs.length ∧
      (t.eliminate (row + 1) col).rhsCol = b.objective.length := by
  have hcols : (t.eliminate (row + 1) col).rhsCol = t.rhsCol :=
    congrArg (· - 1) (h.states.rectangular.eliminate (Tableau.lt_numRows_of_entry_ne hp) col).2
  have hrows : (t.eliminate (row + 1) col).numConstraints = t.numConstraints :=
    Nat.succ_injective (Tableau.numRows_eliminate t (row + 1) col)
  exact ⟨hrows.trans h.numConstraints_eq, hcols.trans h.rhsCol_eq⟩

/-- A pivot mirrors an exchange. -/
theorem exchange (ht : 0 ≤ tolerance) (h : b.Mirrors t) (hcol : col < b.objective.length)
    (hp : t.entry (row + 1) col ≠ 0) (hb' : b.exchange row col tolerance = .ok b') :
    b'.Mirrors (t.eliminate (row + 1) col) ∧ b'.matrix = b.matrix := by
  obtain ⟨inverse, values, rfl, hconsistent⟩ := h.consistent.exchange ht hb'
  obtain ⟨hrows, hcols⟩ := h.size_exchange hp
  exact ⟨⟨hconsistent, h.states.eliminate hp, hrows, hcols, fun i hi => h.basic_exchange hcol hp hi⟩,
    rfl⟩

end Mirrors

/-! ## The slack basis -/

/-- The tableau of the system as it is given: the matrix with the right-hand sides behind it, and
above it the negated objective. -/
def system (b : Basis ℚ) : Tableau ℚ where
  objective := b.objective.map (- ·) ++ [0]
  constraints := b.matrix.zipWith (fun r x => r ++ [x]) b.rhs

/-- There is one right-hand side for every row of the matrix and one coefficient for every
column. -/
structure Shaped (b : Basis ℚ) : Prop where
  matrix_length : b.matrix.length = b.rhs.length
  row_length : ∀ r ∈ b.matrix, r.length = b.objective.length

/-- The system has a column for every cost. -/
theorem rhsCol_system (b : Basis ℚ) : b.system.rhsCol = b.objective.length := by
  simp [Tableau.rhsCol, Tableau.numCols, system]

/-- Row `0` of the system holds the costs with their signs changed. -/
theorem entry_system_zero {j : ℕ} (hj : j < b.objective.length) :
    b.system.entry 0 j = -b.cost j := by
  show (b.objective.map (- ·) ++ [0]).getD j 0 = _
  rw [List.getD_append _ _ _ _ (by simpa using hj), cost, List.getD_eq_getElem _ _ (by simpa using hj),
    List.getElem_map, List.getD_eq_getElem _ _ hj]

namespace Shaped

/-- The system has a row for every right-hand side. -/
theorem numConstraints_system (h : b.Shaped) : b.system.numConstraints = b.rhs.length := by
  simp [Tableau.numConstraints, system, h.matrix_length]

/-- A constraint row of the tableau. -/
theorem row_system (h : b.Shaped) {k : ℕ} (hk : k < b.rhs.length) :
    b.system.row (k + 1) = b.matrix.getD k [] ++ [b.rhs.getD k 0] ∧
      (b.matrix.getD k []).length = b.objective.length := by
  have hk' : k < b.matrix.length := h.matrix_length ▸ hk
  refine ⟨?_, h.row_length _ (Matrix.getD_mem hk')⟩
  rw [Tableau.row_succ, system, List.getD_eq_getElem _ _ (by simp [hk, hk']), List.getElem_zipWith,
    List.getD_eq_getElem _ _ hk', List.getD_eq_getElem _ _ hk]

/-- The rows of the system hold the matrix. -/
theorem entry_system (h : b.Shaped) {k j : ℕ} (hk : k < b.rhs.length)
    (hj : j < b.objective.length) : b.system.entry (k + 1) j = Matrix.entry b.matrix k j := by
  obtain ⟨hrow, hw⟩ := h.row_system hk
  rw [Tableau.entry_def, hrow, List.getD_append _ _ _ _ (hw ▸ hj), Matrix.entry]

/-- The rows of the system end with the right-hand sides. -/
theorem rhs_system (h : b.Shaped) {k : ℕ} (hk : k < b.rhs.length) :
    b.system.rhs (k + 1) = b.rhs.getD k 0 := by
  obtain ⟨hrow, hw⟩ := h.row_system hk
  rw [Tableau.rhs_def, rhsCol_system, Tableau.entry_def, hrow,
    List.getD_append_right _ _ _ _ hw.le, hw, Nat.sub_self]
  rfl

/-- The tableau of the system states the system. -/
theorem states_system (h : b.Shaped) : b.system.States b.Holds b.objectiveAt := by
  have hsum : ∀ k < b.rhs.length, ∀ y, b.system.rowSum (k + 1) y =
      ∑ j ∈ Finset.range b.objective.length, Matrix.entry b.matrix k j * y j := by
    intro k hk y
    rw [Tableau.rowSum, rhsCol_system]
    exact sum_congr rfl fun j hj => by
      rw [h.entry_system hk (Finset.mem_range.1 hj)]
  refine ⟨⟨by simp [Tableau.numCols, system], fun r hr => ?_⟩, fun y => ⟨fun hs k hk => ?_,
    fun hy => ?_⟩, fun y _ => ?_⟩
  · obtain ⟨k, hk, rfl⟩ := List.mem_iff_getElem.1 hr
    have hk : k < b.matrix.length := by
      have : k < b.matrix.length ∧ k < b.rhs.length := by simpa [system] using hk
      exact this.1
    simp [system, Tableau.numCols, h.row_length _ (List.getElem_mem hk)]
  · rw [← hsum k hk, hs k, h.rhs_system hk]
  · refine Tableau.solves_of_lt fun k hk => ?_
    have hk : k < b.rhs.length := by
      rw [Tableau.numRows_eq, h.numConstraints_system] at hk
      exact Nat.lt_of_succ_lt_succ hk
    rw [hsum k hk, hy k hk, h.rhs_system hk]
  · have hvalue : b.system.objectiveValue = 0 := by
      rw [Tableau.objectiveValue, Tableau.rhs_def, rhsCol_system]
      show (b.objective.map (- ·) ++ [0]).getD b.objective.length 0 = 0
      rw [List.getD_append_right _ _ _ _ (by simp)]
      simp
    rw [hvalue, Tableau.rowSum, rhsCol_system, objectiveAt, ← Finset.sum_add_distrib]
    refine Finset.sum_eq_zero fun j hj => ?_
    rw [entry_system_zero (Finset.mem_range.1 hj)]
    ring

end Shaped

/-- The basis of the slack columns for rows that convert. -/
def ofSlackRows (f : StandardForm ℚ) (rows : List (List ℚ × ℚ)) : Basis ℚ where
  matrix := rows.mapIdx fun i row => row.1 ++ Scalar.unit rows.length i
  rhs := rows.map (·.2)
  objective := f.maxObjective ++ List.replicate rows.length 0
  columns := List.range' f.columns.numColumns rows.length
  inverse := Matrix.identity rows.length
  values := rows.map (·.2)

section SlackRows

variable {f : StandardForm ℚ} {rows : List (List ℚ × ℚ)}

/-- The tableau of the slack basis is that of the system as it is given. -/
theorem buildTableau_of_slackRows (h : f.slackRows = .ok rows) :
    PrimalSimplex.buildTableau f = .ok (ofSlackRows f rows).system := by
  rw [PrimalSimplex.buildTableau, h]
  refine congrArg Except.ok (congrArg₂ Tableau.mk ?_ (List.ext_getElem ?_ fun i _ _ => ?_))
  · simp [ofSlackRows, List.replicate_succ']
  · simp [ofSlackRows]
  · simp [ofSlackRows]

variable (hobj : f.objective.length = f.columns.numColumns)
  (hrows : ∀ row ∈ rows, row.1.length = f.columns.numColumns)

include hobj in
/-- The slack basis has a cost for every decision column and every slack. -/
theorem length_objective_ofSlackRows (rows : List (List ℚ × ℚ)) :
    (ofSlackRows f rows).objective.length = f.columns.numColumns + rows.length := by
  simp [ofSlackRows, Model.length_maxObjective, hobj]

include hobj in
/-- The slack columns have no cost. -/
theorem cost_ofSlackRows (rows : List (List ℚ × ℚ)) (i : ℕ) :
    (ofSlackRows f rows).cost (f.columns.numColumns + i) = 0 := by
  have hle : f.maxObjective.length ≤ f.columns.numColumns + i := by
    rw [Model.length_maxObjective, hobj]
    exact Nat.le_add_right _ _
  rw [cost, ofSlackRows, List.getD_append_right _ _ _ _ hle, List.getD_eq_getElem?_getD,
    List.getElem?_replicate]
  split_ifs <;> rfl

/-- The slack basis has a right-hand side for every row. -/
theorem length_rhs_ofSlackRows (f : StandardForm ℚ) (rows : List (List ℚ × ℚ)) :
    (ofSlackRows f rows).rhs.length = rows.length := List.length_map _

/-- The basic columns are the slack columns. -/
theorem getD_columns_ofSlackRows (f : StandardForm ℚ) {l : ℕ} (hl : l < rows.length) :
    (ofSlackRows f rows).columns.getD l 0 = f.columns.numColumns + l := by
  rw [ofSlackRows, List.getD_eq_getElem _ _ (by simpa using hl), List.getElem_range', one_mul]

include hrows in
/-- The slack columns are those of the identity. -/
theorem entry_ofSlackRows {k i : ℕ} (hk : k < rows.length) (hi : i < rows.length) :
    Matrix.entry (ofSlackRows f rows).matrix k (f.columns.numColumns + i) =
      if k = i then 1 else 0 := by
  have hlen := hrows _ (List.getElem_mem hk)
  rw [Matrix.entry, ofSlackRows, List.getD_eq_getElem (rows.mapIdx _) _ (by simpa using hk),
    List.getElem_mapIdx, List.getD_append_right _ _ _ _ (by omega), hlen, Nat.add_sub_cancel_left]
  simp [Scalar.unit, hi, eq_comm]

include hobj hrows in
/-- The parts of the slack basis fit together. -/
theorem shaped_ofSlackRows : (ofSlackRows f rows).Shaped := by
  refine ⟨by simp [ofSlackRows], fun r hr => ?_⟩
  obtain ⟨i, hi, rfl⟩ := List.mem_mapIdx.1 hr
  rw [length_objective_ofSlackRows hobj, List.length_append, hrows _ (List.getElem_mem hi)]
  simp [Scalar.unit]

include hrows in
/-- The identity is the inverse of the slack columns. -/
theorem consistent_ofSlackRows : (ofSlackRows f rows).Consistent := by
  have hm := length_rhs_ofSlackRows f rows
  have hinverse : ∀ i < rows.length,
      (ofSlackRows f rows).inverse.getD i [] = Scalar.unit rows.length i := by
    intro i hi
    rw [ofSlackRows, List.getD_eq_getElem _ _ (by simpa [Matrix.identity] using hi)]
    simp [Matrix.identity]
  refine ⟨by simp [ofSlackRows], by simp [ofSlackRows], by simp [ofSlackRows, Matrix.identity], ?_,
    fun i hi l hl => ?_⟩
  · refine List.ext_getElem (by simp [ofSlackRows, Matrix.identity]) fun i hi hi' => ?_
    have hi : i < rows.length := by simpa [ofSlackRows] using hi
    have hinv : i < (ofSlackRows f rows).inverse.length := by simpa using hi'
    rw [List.getElem_map, ← List.getD_eq_getElem _ [] hinv, hinverse i hi, Scalar.dot_unit hi hm,
      List.getD_eq_getElem _ _ (hm ▸ hi)]
    rfl
  · rw [hm] at hi hl
    rw [hinverse i hi, getD_columns_ofSlackRows f hl,
      Scalar.dot_unit hi (by simp [matrixColumn, ofSlackRows]), getD_matrixColumn,
      entry_ofSlackRows hrows hi hl]

include hobj hrows in
/-- The slack columns are basic in the tableau of the system. -/
theorem basic_ofSlackRows {i : ℕ} (hi : i < rows.length) :
    (ofSlackRows f rows).system.Basic (i + 1) (f.columns.numColumns + i) := by
  have hm := length_rhs_ofSlackRows f rows
  have hshape := shaped_ofSlackRows hobj hrows
  have hj : f.columns.numColumns + i < (ofSlackRows f rows).objective.length := by
    rw [length_objective_ofSlackRows hobj]
    exact Nat.add_lt_add_left hi _
  have hentry : ∀ k < rows.length,
      (ofSlackRows f rows).system.entry (k + 1) (f.columns.numColumns + i) =
        if k = i then 1 else 0 := by
    intro k hk
    rw [hshape.entry_system (hm ▸ hk) hj, entry_ofSlackRows hrows hk hi]
  refine ⟨Nat.succ_pos i, (rhsCol_system _).symm ▸ hj, by rw [hentry i hi, if_pos rfl], ?_⟩
  rintro (_ | k) hk
  · rw [entry_system_zero hj, cost_ofSlackRows hobj, neg_zero]
  · rcases Nat.lt_or_ge k rows.length with hlt | hge
    · rw [hentry k hlt, if_neg fun h => hk (congrArg (· + 1) h)]
    · refine Tableau.entry_of_numRows_le ?_ _
      rw [Tableau.numRows_eq, hshape.numConstraints_system, hm]
      exact Nat.succ_le_succ hge

include hobj hrows in
/-- The tableau of the system mirrors the slack basis. -/
theorem mirrors_ofSlackRows : (ofSlackRows f rows).Mirrors (ofSlackRows f rows).system := by
  have hshape := shaped_ofSlackRows hobj hrows
  refine ⟨consistent_ofSlackRows hrows, hshape.states_system, hshape.numConstraints_system,
    rhsCol_system _, fun i hi => ?_⟩
  rw [length_rhs_ofSlackRows] at hi
  rw [getD_columns_ofSlackRows f hi]
  exact basic_ofSlackRows hobj hrows hi

end SlackRows

/-- The slack basis of a problem has a mirror, the tableau that the primal method starts from. -/
theorem exists_mirror {p : Problem ℚ} {f : StandardForm ℚ} (hf : StandardForm.ofProblem p = .ok f)
    (hb : ofStandardForm f = .ok b) :
    ∃ t, PrimalSimplex.buildTableau f = .ok t ∧ b.Mirrors t := by
  obtain ⟨hobj, hlen⟩ := StandardForm.length_of_ofProblem hf
  rw [ofStandardForm] at hb
  cases hrows : f.slackRows with
  | error e => rw [hrows] at hb; cases hb
  | ok rows =>
    rw [hrows] at hb
    obtain rfl : ofSlackRows f rows = b := Except.ok.inj hb
    refine ⟨_, buildTableau_of_slackRows hrows, mirrors_ofSlackRows hobj fun row hrow => ?_⟩
    obtain ⟨rfl, -⟩ := StandardForm.mapM_slackRow_eq_ok id hrows
    obtain ⟨r, hr, rfl⟩ := List.mem_map.1 hrow
    rw [List.length_map, hlen r hr]

end Basis
end LinOpt
