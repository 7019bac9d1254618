import Mathlib.Data.List.GetD
import LinOpt.Proofs.Arithmetic
import LinOpt.Proofs.Changes

/-!
# Entries after an operation

What every operation on a tableau does to its shape, over any scalars, and to its entries, over the
rationals. A position outside the tableau reads as zero, so the formulas hold at all positions
(`entry_eliminate`, `entry_subtractRow`) and later proofs reason about the function `t.entry` alone.
Every operation keeps the tableau rectangular and says what its size is.
-/

namespace LinOpt.Tableau

variable {α : Type} {t : Tableau α}

/-! ## Rows and sizes -/

@[simp] theorem rows_length (t : Tableau α) : t.rows.length = t.numRows := rfl

/-- The rows are row `0` and the constraint rows. -/
theorem numRows_eq (t : Tableau α) : t.numRows = t.numConstraints + 1 := rfl

/-- There is always row `0`. -/
theorem numRows_pos (t : Tableau α) : 0 < t.numRows := Nat.succ_pos _

/-- The right-hand side is the last column. -/
theorem Rectangular.rhsCol_succ (h : t.Rectangular) : t.rhsCol + 1 = t.numCols :=
  Nat.sub_add_cancel h.1

/-- A row outside the tableau is empty. -/
theorem row_of_numRows_le {i : ℕ} (h : t.numRows ≤ i) : t.row i = [] :=
  List.getD_eq_default _ _ h

/-- The rows behind the objective row are the constraint rows. -/
theorem row_succ (t : Tableau α) (i : ℕ) : t.row (i + 1) = t.constraints.getD i [] :=
  List.getD_cons_succ

/-- All rows of a rectangular tableau have one length. -/
theorem Rectangular.row_length (h : t.Rectangular) {i : ℕ} (hi : i < t.numRows) :
    (t.row i).length = t.numCols := by
  have hmem : t.row i ∈ t.rows := by
    rw [row, List.getD_eq_getElem _ _ hi]
    exact List.getElem_mem _
  rcases List.mem_cons.1 hmem with he | hc
  · rw [he]; rfl
  · exact h.2 _ hc

/-! ## Changing rows -/

/-- The row of a changed tableau is the changed row. -/
theorem row_mapRows (f : ℕ → List α → List α) {i : ℕ} (hi : i < t.numRows) :
    (t.mapRows f).row i = f i (t.row i) := by
  cases i with
  | zero => rfl
  | succ i =>
    have hi : i < t.constraints.length := Nat.lt_of_succ_lt_succ hi
    simp [row, rows, mapRows, hi]

@[simp] theorem numRows_mapRows (t : Tableau α) (f : ℕ → List α → List α) :
    (t.mapRows f).numRows = t.numRows := by simp [numRows, mapRows]

/-- A change that keeps the lengths of the rows keeps the shape. -/
theorem Rectangular.mapRows (h : t.Rectangular) {f : ℕ → List α → List α} {n : ℕ} (hn : 0 < n)
    (hf : ∀ i r, r.length = t.numCols → (f i r).length = n) :
    (t.mapRows f).Rectangular ∧ (t.mapRows f).numCols = n := by
  have h0 : (t.mapRows f).numCols = n := hf 0 _ rfl
  refine ⟨⟨by rw [h0]; exact hn, fun r hr => ?_⟩, h0⟩
  obtain ⟨i, hi, rfl⟩ := List.mem_mapIdx.1 hr
  rw [h0]
  exact hf _ _ (h.2 _ (List.getElem_mem _))

/-- The changed row. -/
theorem row_modifyRow (f : List α → List α) {i : ℕ} (hi : i < t.numRows) :
    (t.modifyRow i f).row i = f (t.row i) := by
  rw [modifyRow, row_mapRows _ hi, if_pos rfl]

@[simp] theorem numRows_modifyRow (t : Tableau α) (i : ℕ) (f : List α → List α) :
    (t.modifyRow i f).numRows = t.numRows := numRows_mapRows _ _

/-- Changing one row without changing its length keeps the shape. -/
theorem Rectangular.modifyRow (h : t.Rectangular) (i : ℕ) {f : List α → List α}
    (hf : ∀ r, r.length = t.numCols → (f r).length = t.numCols) :
    (t.modifyRow i f).Rectangular ∧ (t.modifyRow i f).numCols = t.numCols :=
  h.mapRows h.1 fun k r hr => by
    by_cases hk : k = i
    · rw [if_pos hk]; exact hf r hr
    · rw [if_neg hk]; exact hr

@[simp] theorem numRows_set (t : Tableau α) (i j : ℕ) (v : α) :
    (t.set i j v).numRows = t.numRows := numRows_modifyRow _ _ _

/-- Changing an entry keeps the shape. -/
theorem Rectangular.set (h : t.Rectangular) (i j : ℕ) (v : α) :
    (t.set i j v).Rectangular ∧ (t.set i j v).numCols = t.numCols :=
  h.modifyRow i fun r hr => by rw [List.length_set, hr]

@[simp] theorem numRows_appendRow (t : Tableau α) (r : List α) :
    (t.appendRow r).numRows = t.numRows + 1 := by simp [numRows, appendRow]

@[simp] theorem rhsCol_appendRow (t : Tableau α) (r : List α) :
    (t.appendRow r).rhsCol = t.rhsCol := rfl

/-- A row of the right length more. -/
theorem Rectangular.appendRow (h : t.Rectangular) {r : List α} (hr : r.length = t.numCols) :
    (t.appendRow r).Rectangular := by
  refine ⟨h.1, fun s hs => ?_⟩
  rcases List.mem_append.1 hs with hs | hs
  · exact h.2 s hs
  · rw [List.mem_singleton.1 hs]
    exact hr

variable [Scalar α]

/-- An entry is read from its row. -/
theorem entry_def (t : Tableau α) (i j : ℕ) : t.entry i j = (t.row i).getD j 0 := rfl

@[simp] theorem rhs_def (t : Tableau α) (i : ℕ) : t.rhs i = t.entry i t.rhsCol := rfl

/-- Below the last row all entries are zero. -/
theorem entry_of_numRows_le {i : ℕ} (h : t.numRows ≤ i) (j : ℕ) : t.entry i j = 0 := by
  rw [entry_def, row_of_numRows_le h]
  rfl

/-- A nonzero entry lies in a row of the tableau. -/
theorem lt_numRows_of_entry_ne {i j : ℕ} (h : t.entry i j ≠ 0) : i < t.numRows :=
  not_le.1 fun hi => h (entry_of_numRows_le hi j)

/-- Only the changed row differs. -/
theorem entry_modifyRow_of_ne (f : List α → List α) {i k : ℕ} (hk : k ≠ i) (j : ℕ) :
    (t.modifyRow i f).entry k j = t.entry k j := by
  rcases Nat.lt_or_ge k t.numRows with hlt | hge
  · rw [entry_def, modifyRow, row_mapRows _ hlt, if_neg hk]
    rfl
  · rw [entry_of_numRows_le hge, entry_of_numRows_le (by simpa [modifyRow] using hge)]

/-! ## Pivoting -/

/-- Subtracting a multiple of a row keeps the length. -/
theorem length_subtractMultiple {f : α} {s r : List α} (h : s.length = r.length) :
    (subtractMultiple f s r).length = r.length := by simp [subtractMultiple, h]

/-- Clearing a column keeps the length of a row. -/
theorem length_clear {p r : List α} {c : ℕ} (h : p.length = r.length) :
    (clear p c r).length = r.length := by
  dsimp only [clear]
  split_ifs
  · rfl
  · rw [List.length_set, length_subtractMultiple h]

@[simp] theorem numRows_eliminate (t : Tableau α) (i c : ℕ) :
    (t.eliminate i c).numRows = t.numRows := numRows_mapRows _ _

/-- Elimination keeps the shape. -/
theorem Rectangular.eliminate (h : t.Rectangular) {i : ℕ} (hi : i < t.numRows) (c : ℕ) :
    (t.eliminate i c).Rectangular ∧ (t.eliminate i c).numCols = t.numCols :=
  h.mapRows h.1 fun k r hr => by
    have hlen : ((t.row i).map (· / t.entry i c)).length = t.numCols := by
      rw [List.length_map, h.row_length hi]
    by_cases hk : k = i
    · rw [if_pos hk, hlen]
    · rw [if_neg hk, length_clear (hlen.trans hr.symm), hr]

/-- A pivot that is not refused eliminates at an entry outside the tolerance. -/
theorem pivot_eq_ok_abs {i c : ℕ} {tolerance : α} {t' : Tableau α}
    (h : t.pivot i c tolerance = .ok t') :
    tolerance < Scalar.abs (t.entry i c) ∧ t' = t.eliminate i c := by
  rw [pivot_eq] at h
  split_ifs at h with hp
  · exact ⟨hp, (Except.ok.inj h).symm⟩

variable {t : Tableau ℚ}

/-- Entry by entry, a multiple of the source is subtracted. -/
theorem getD_subtractMultiple {f : ℚ} {s r : List ℚ} (h : s.length = r.length) (j : ℕ) :
    (subtractMultiple f s r).getD j 0 = r.getD j 0 - f * s.getD j 0 := by
  rcases Nat.lt_or_ge j r.length with hj | hj
  · have hs : j < s.length := h ▸ hj
    simp [subtractMultiple, hj, hs]
  · rw [List.getD_eq_default _ _ (by rw [length_subtractMultiple h]; exact hj),
      List.getD_eq_default _ _ hj, List.getD_eq_default _ _ (h ▸ hj)]
    ring

/-- Clearing a column subtracts the multiple of the pivot row that makes it zero. -/
theorem getD_clear {p r : List ℚ} {c : ℕ} (h : p.length = r.length) (hp : p.getD c 0 = 1) (j : ℕ) :
    (clear p c r).getD j 0 = r.getD j 0 - r.getD c 0 * p.getD j 0 := by
  unfold clear
  by_cases hf : r.getD c 0 = 0
  · simp only [hf, beq_self_eq_true, if_true, zero_mul, sub_zero]
  · rw [if_neg (by simpa using hf)]
    have hc : c < (subtractMultiple (r.getD c 0) p r).length := by
      rw [length_subtractMultiple h]
      by_contra hge
      exact hf (List.getD_eq_default _ _ (not_lt.1 hge))
    by_cases hj : j = c
    · subst hj
      rw [List.getD_eq_getElem?_getD, List.getElem?_set_self hc, hp]
      show (0 : ℚ) = _
      ring
    · rw [List.getD_eq_getElem?_getD, List.getElem?_set_ne (Ne.symm hj),
        ← List.getD_eq_getElem?_getD,
        getD_subtractMultiple h]

/-- The pivot row is divided by the pivot element, and every other row loses the multiple of it that
clears the pivot column. -/
theorem Rectangular.entry_eliminate (h : t.Rectangular) {i c : ℕ} (hp : t.entry i c ≠ 0)
    (k j : ℕ) : (t.eliminate i c).entry k j =
      if k = i then t.entry i j / t.entry i c
      else t.entry k j - t.entry k c * (t.entry i j / t.entry i c) := by
  have hi := lt_numRows_of_entry_ne hp
  have hdiv : ∀ l, ((t.row i).map (· / t.entry i c)).getD l 0 = t.entry i l / t.entry i c := by
    intro l
    rw [entry_def t i l, List.getD_eq_getElem?_getD, List.getD_eq_getElem?_getD, List.getElem?_map]
    cases (t.row i)[l]? with
    | none => exact (zero_div _).symm
    | some v => rfl
  rcases Nat.lt_or_ge k t.numRows with hk | hk
  · rw [entry_def, Tableau.eliminate, row_mapRows _ hk]
    by_cases hki : k = i
    · rw [if_pos hki, if_pos hki, hdiv]
    · rw [if_neg hki, if_neg hki, getD_clear _ (by rw [hdiv, div_self hp]), hdiv]
      · rfl
      · rw [List.length_map, h.row_length hi, h.row_length hk]
  · rw [if_neg (by omega), entry_of_numRows_le hk, entry_of_numRows_le hk,
      entry_of_numRows_le (by simpa using hk)]
    ring

/-- A pivot on rational numbers that is not refused eliminates at an entry outside the tolerance. -/
theorem pivot_eq_ok {i c : ℕ} {tolerance : ℚ} {t' : Tableau ℚ}
    (h : t.pivot i c tolerance = .ok t') :
    tolerance < |t.entry i c| ∧ t' = t.eliminate i c := pivot_eq_ok_abs h

/-! ## Row operations -/

@[simp] theorem numRows_subtractRow (t : Tableau α) (k i : ℕ) (f : α) :
    (t.subtractRow k i f).numRows = t.numRows := by
  dsimp only [subtractRow]
  split_ifs
  · rfl
  · exact numRows_modifyRow _ _ _

/-- Subtracting a row keeps the shape. -/
theorem Rectangular.subtractRow {t : Tableau α} (h : t.Rectangular) (k : ℕ) {i : ℕ}
    (hi : i < t.numRows) (f : α) :
    (t.subtractRow k i f).Rectangular ∧ (t.subtractRow k i f).numCols = t.numCols := by
  dsimp only [Tableau.subtractRow]
  split_ifs
  · exact ⟨h, rfl⟩
  · refine h.modifyRow k fun r hr => ?_
    rw [length_subtractMultiple ((h.row_length hi).trans hr.symm), hr]

/-- The target row loses a multiple of the source row. -/
theorem Rectangular.entry_subtractRow (h : t.Rectangular) {k i : ℕ} (hk : k < t.numRows)
    (hi : i < t.numRows) (hki : k ≠ i) (f : ℚ) (l j : ℕ) :
    (t.subtractRow k i f).entry l j =
      if l = k then t.entry k j - f * t.entry i j else t.entry l j := by
  by_cases hf : f = 0
  · subst hf
    have hid : t.subtractRow k i 0 = t := by simp [Tableau.subtractRow]
    rw [hid, zero_mul, sub_zero]
    split_ifs with hl
    · rw [hl]
    · rfl
  · have hmod : t.subtractRow k i f = t.modifyRow k (subtractMultiple f (t.row i)) := by
      simp [Tableau.subtractRow, hf, hki]
    rw [hmod]
    split_ifs with hl
    · subst hl
      rw [entry_def, row_modifyRow _ hk,
        getD_subtractMultiple ((h.row_length hi).trans (h.row_length hk).symm)]
      rfl
    · exact entry_modifyRow_of_ne _ hl j

@[simp] theorem numRows_negateRow (t : Tableau α) (k : ℕ) :
    (t.negateRow k).numRows = t.numRows := numRows_modifyRow _ _ _

/-- Changing the sign of a row keeps the shape. -/
theorem Rectangular.negateRow {t : Tableau α} (h : t.Rectangular) (k : ℕ) :
    (t.negateRow k).Rectangular ∧ (t.negateRow k).numCols = t.numCols :=
  h.modifyRow k fun r hr => by rw [List.length_map, hr]

/-- One entry changes. -/
theorem Rectangular.entry_set (h : t.Rectangular) {i j : ℕ} (hi : i < t.numRows)
    (hj : j < t.numCols) (v : ℚ) (k l : ℕ) :
    (t.set i j v).entry k l = if k = i ∧ l = j then v else t.entry k l := by
  by_cases hk : k = i
  · subst hk
    have hlen : j < (t.row k).length := by rw [h.row_length hi]; exact hj
    rw [entry_def, Tableau.set, row_modifyRow _ hi, List.getD_eq_getElem?_getD]
    by_cases hl : l = j
    · subst hl
      rw [if_pos ⟨rfl, rfl⟩, List.getElem?_set_self hlen]
      rfl
    · rw [if_neg fun h => hl h.2, List.getElem?_set_ne (Ne.symm hl), ← List.getD_eq_getElem?_getD]
      rfl
  · rw [if_neg fun h => hk h.1]
    exact entry_modifyRow_of_ne _ hk l

/-! ## Growing -/

@[simp] theorem numRows_insertColumn (t : Tableau α) : t.insertColumn.numRows = t.numRows :=
  numRows_mapRows _ _

/-- A column more. -/
theorem Rectangular.insertColumn {t : Tableau α} (h : t.Rectangular) :
    t.insertColumn.Rectangular ∧ t.insertColumn.numCols = t.numCols + 1 :=
  h.mapRows (Nat.succ_pos _) fun i r hr => by
    have hle : t.rhsCol ≤ r.length := by have := h.rhsCol_succ; omega
    simp only [insertEntry, List.length_append, List.length_take, List.length_cons,
      List.length_drop]
    omega

/-- The new column holds zeros and only the right-hand side moves. -/
theorem Rectangular.entry_insertColumn (h : t.Rectangular) (i j : ℕ) :
    t.insertColumn.entry i j =
      if j < t.rhsCol then t.entry i j else if j = t.rhsCol then 0 else t.entry i (j - 1) := by
  rcases Nat.lt_or_ge i t.numRows with hi | hi
  · have hlen := h.row_length hi
    have hcol := h.rhsCol_succ
    have htake : ((t.row i).take t.rhsCol).length = t.rhsCol := by
      rw [List.length_take]; omega
    rw [entry_def, Tableau.insertColumn, row_mapRows _ hi, insertEntry]
    split_ifs with h1 h2
    · rw [List.getD_append _ _ _ _ (by omega), entry_def, List.getD_eq_getElem?_getD,
        List.getElem?_take_of_lt h1, ← List.getD_eq_getElem?_getD]
    · rw [List.getD_append_right _ _ _ _ (by omega), htake, h2, Nat.sub_self]
      rfl
    · obtain ⟨k, rfl⟩ : ∃ k, j = t.rhsCol + 1 + k := ⟨j - (t.rhsCol + 1), by omega⟩
      rw [List.getD_append_right _ _ _ _ (by omega), htake, entry_def,
        show t.rhsCol + 1 + k - t.rhsCol = k + 1 by omega, List.getD_cons_succ,
        List.getD_eq_getElem?_getD, List.getElem?_drop, ← List.getD_eq_getElem?_getD]
      congr 1
      omega
  · simp only [entry_of_numRows_le hi,
      entry_of_numRows_le (t := t.insertColumn) (by simpa using hi), ite_self]

/-- The old rows are as they were and the new row is the last. -/
theorem entry_appendRow (r : List ℚ) (i j : ℕ) :
    (t.appendRow r).entry i j = if i = t.numRows then r.getD j 0 else t.entry i j := by
  have hrow : ∀ i, (t.appendRow r).row i = if i = t.numRows then r else t.row i := by
    intro i
    show (t.rows ++ [r]).getD i [] = _
    split_ifs with h
    · subst h
      rw [List.getD_append_right _ _ _ _ (by simp), rows_length, Nat.sub_self]
      rfl
    · rcases Nat.lt_or_ge i t.numRows with hi | hi
      · rw [List.getD_append _ _ _ _ hi]
        rfl
      · rw [row_of_numRows_le hi, List.getD_eq_default]
        rw [List.length_append, rows_length, List.length_singleton]
        omega
  rw [entry_def, hrow]
  split_ifs <;> rfl

/-- The tableau with the row `r · y + s = b` below it and the column `s` of that row behind the
others. -/
def grow (t : Tableau ℚ) (r : List ℚ) (b : ℚ) : Tableau ℚ :=
  t.insertColumn.appendRow (r ++ [1, b])

@[simp] theorem numRows_grow (t : Tableau ℚ) (r : List ℚ) (b : ℚ) :
    (t.grow r b).numRows = t.numRows + 1 := by simp [grow]

/-- The new column stands where the right-hand side was. -/
theorem Rectangular.rhsCol_grow (h : t.Rectangular) (r : List ℚ) (b : ℚ) :
    (t.grow r b).rhsCol = t.rhsCol + 1 := by
  have hlast := h.rhsCol_succ
  rw [Tableau.grow, rhsCol_appendRow, rhsCol, h.insertColumn.2]
  omega

/-- A row and a column of its own keep the tableau rectangular. -/
theorem Rectangular.grow (h : t.Rectangular) {r : List ℚ} (hr : r.length = t.rhsCol) (b : ℚ) :
    (t.grow r b).Rectangular := by
  have hlast := h.rhsCol_succ
  refine h.insertColumn.1.appendRow ?_
  rw [h.insertColumn.2, List.length_append, hr]
  show t.rhsCol + 2 = _
  omega

/-- The new row has the length of the others. -/
theorem Rectangular.pushRow_grow (h : t.Rectangular) {r : List ℚ} (hr : r.length = t.rhsCol)
    (b : ℚ) : t.insertColumn.pushRow (r ++ [1, b]) = .ok (t.grow r b) := by
  refine if_neg (not_not.2 ?_)
  rw [h.insertColumn.2, List.length_append, hr, ← h.rhsCol_succ]
  rfl

/-- The old rows are zero in the new column. -/
theorem Rectangular.entry_grow_of_ne (h : t.Rectangular) (r : List ℚ) (b : ℚ) {i : ℕ}
    (hi : i ≠ t.numRows) (j : ℕ) : (t.grow r b).entry i j =
      if j < t.rhsCol then t.entry i j else if j = t.rhsCol then 0 else t.entry i (j - 1) := by
  rw [Tableau.grow, entry_appendRow, if_neg (by simpa using hi), h.entry_insertColumn]

/-- The right-hand sides of the old rows. -/
theorem Rectangular.rhs_grow_of_ne (h : t.Rectangular) (r : List ℚ) (b : ℚ) {i : ℕ}
    (hi : i ≠ t.numRows) : (t.grow r b).rhs i = t.rhs i := by
  rw [rhs_def, h.rhsCol_grow, h.entry_grow_of_ne r b hi, if_neg (by omega), if_neg (by omega)]
  rfl

/-- The new row. -/
theorem entry_grow_numRows (t : Tableau ℚ) {r : List ℚ} (hr : r.length = t.rhsCol) (b : ℚ) {j : ℕ}
    (hj : j < t.rhsCol) : (t.grow r b).entry t.numRows j = r.getD j 0 := by
  rw [grow, entry_appendRow, if_pos (by simp), List.getD_append _ _ _ _ (hr ▸ hj)]

/-- The new row in its own column. -/
theorem entry_grow_rhsCol (t : Tableau ℚ) {r : List ℚ} (hr : r.length = t.rhsCol) (b : ℚ) :
    (t.grow r b).entry t.numRows t.rhsCol = 1 := by
  rw [grow, entry_appendRow, if_pos (by simp), List.getD_append_right _ _ _ _ hr.le, hr,
    Nat.sub_self]
  rfl

/-- The new row ends with its right-hand side. -/
theorem Rectangular.rhs_grow_numRows (h : t.Rectangular) {r : List ℚ} (hr : r.length = t.rhsCol)
    (b : ℚ) : (t.grow r b).rhs t.numRows = b := by
  rw [rhs_def, h.rhsCol_grow, Tableau.grow, entry_appendRow, if_pos (by simp),
    List.getD_append_right _ _ _ _ (by omega), hr, Nat.add_sub_cancel_left]
  rfl

end LinOpt.Tableau
