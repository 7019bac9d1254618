import Mathlib.Algebra.BigOperators.Field
import LinOpt.Proofs.Tableau.Entries
import LinOpt.Simplex.Inverse

/-!
# Elimination inverts

A matrix is inverted with the identity beside it. Row operations keep that the left half of every
row is the combination of the rows of the matrix that the right half tells (`Reduces.combines`), and
elimination makes the left half the identity, column by column (`Reduces.unit`). So the right half
ends as the inverse (`invert_eq_ok`). Which rows come up does not matter, as long as they are not
done (`pivotRow_range`), and the tolerance only sees to it that no pivot element is zero.
-/

namespace LinOpt.Matrix

/-- One entry; zero outside the matrix. -/
def entry (rows : List (List ℚ)) (i j : ℕ) : ℚ := (rows.getD i []).getD j 0

/-- `N` is a left inverse of the square matrix `B`. -/
structure Inverts (N B : List (List ℚ)) : Prop where
  length_eq : N.length = B.length
  row_length : ∀ r ∈ N, r.length = B.length
  mul_eq : ∀ i < B.length, ∀ j < B.length,
    ∑ k ∈ Finset.range B.length, entry N i k * entry B k j = if i = j then 1 else 0

variable {rows : List (List ℚ)} {i k l col n : ℕ}

/-- A row inside the matrix is one of its rows. -/
theorem getD_mem (hi : i < rows.length) : rows.getD i [] ∈ rows := by
  rw [List.getD_eq_getElem _ _ hi]
  exact List.getElem_mem hi

/-! ## Row operations -/

@[simp] theorem length_swapRows (rows : List (List ℚ)) (i k : ℕ) :
    (swapRows rows i k).length = rows.length := by simp [swapRows]

/-- Swapping exchanges two rows and leaves the others. -/
theorem getD_swapRows (hi : i < rows.length) (hk : k < rows.length) (l : ℕ) :
    (swapRows rows i k).getD l [] =
      if l = i then rows.getD k [] else if l = k then rows.getD i [] else rows.getD l [] := by
  simp only [swapRows, List.getD_eq_getElem?_getD]
  by_cases hlk : l = k
  · subst hlk
    rw [List.getElem?_set_self (by simpa using hk), if_pos rfl, Option.getD_some]
    split_ifs with hli
    · rw [hli]
    · rfl
  · rw [if_neg hlk, List.getElem?_set_ne (Ne.symm hlk)]
    by_cases hli : l = i
    · subst hli
      rw [if_pos rfl, List.getElem?_set_self hi, Option.getD_some]
    · rw [if_neg hli, List.getElem?_set_ne (Ne.symm hli)]

/-- Swapping exchanges the entries of two rows and leaves the others. -/
theorem entry_swapRows (hi : i < rows.length) (hk : k < rows.length) (l j : ℕ) :
    entry (swapRows rows i k) l j =
      if l = i then entry rows k j else if l = k then entry rows i j else entry rows l j := by
  rw [entry, getD_swapRows hi hk]
  split_ifs <;> rfl

@[simp] theorem length_eliminate (rows : List (List ℚ)) (col : ℕ) :
    (eliminate rows col).length = rows.length := by simp [eliminate]

/-- The row by which a column is cleared, divided by its pivot element. -/
def pivotRowAt (rows : List (List ℚ)) (col : ℕ) : List ℚ :=
  (rows.getD col []).map (· / entry rows col col)

/-- The pivot row is divided by its pivot. -/
theorem getD_pivotRowAt (rows : List (List ℚ)) (col j : ℕ) :
    (pivotRowAt rows col).getD j 0 = entry rows col j / entry rows col col := by
  have h := List.getD_map (rows.getD col []) 0 (n := j) (· / entry rows col col)
  rwa [zero_div] at h

/-- Elimination leaves the pivot row divided and subtracts a multiple of it from every other row
that is not zero in the column. -/
theorem getD_eliminate (hl : l < rows.length) (col : ℕ) : (eliminate rows col).getD l [] =
    if l = col then pivotRowAt rows col
    else if entry rows l col == 0 then rows.getD l []
      else Tableau.subtractMultiple (entry rows l col) (pivotRowAt rows col) (rows.getD l []) := by
  unfold eliminate
  dsimp only
  rw [List.getD_eq_getElem _ _ (by simpa using hl), List.getElem_mapIdx,
    ← List.getD_eq_getElem rows [] hl]
  rfl

/-- Elimination keeps the lengths of the rows. -/
theorem row_length_eliminate (hcol : col < rows.length) (hlen : ∀ r ∈ rows, r.length = n) :
    ∀ r ∈ eliminate rows col, r.length = n := by
  intro r hr
  obtain ⟨l, hl, rfl⟩ := List.mem_iff_getElem.1 hr
  rw [length_eliminate] at hl
  have hpivot : (pivotRowAt rows col).length = n := by
    rw [pivotRowAt, List.length_map, hlen _ (getD_mem hcol)]
  rw [← List.getD_eq_getElem _ [], getD_eliminate hl]
  have hrow := hlen _ (getD_mem hl)
  split_ifs
  · exact hpivot
  · exact hrow
  · rw [Tableau.length_subtractMultiple (hpivot.trans hrow.symm), hrow]

/-- The pivot row is divided by the pivot element, and every other row loses the multiple of it that
clears the column. -/
theorem entry_eliminate (hcol : col < rows.length) (hl : l < rows.length)
    (hlen : ∀ r ∈ rows, r.length = n) (j : ℕ) : entry (eliminate rows col) l j =
      if l = col then entry rows col j / entry rows col col
      else entry rows l j - entry rows l col * (entry rows col j / entry rows col col) := by
  rw [entry, getD_eliminate hl, ← getD_pivotRowAt]
  split_ifs with hlc hzero
  · rfl
  · rw [eq_of_beq hzero, zero_mul, sub_zero]
    rfl
  · rw [Tableau.getD_subtractMultiple]
    · rfl
    · rw [pivotRowAt, List.length_map, hlen _ (getD_mem hcol), hlen _ (getD_mem hl)]

/-! ## The choice of the pivot row -/

/-- The row that comes up is one of those that are not done. -/
theorem pivotRow_range (hcol : col < rows.length) :
    col ≤ pivotRow rows col ∧ pivotRow rows col < rows.length := by
  refine List.foldlRecOn (motive := fun i => col ≤ i ∧ i < rows.length) _ _ ⟨le_rfl, hcol⟩
    fun best hbest i hi => ?_
  rw [List.mem_range'_1] at hi
  split_ifs
  · omega
  · exact hbest

/-! ## Elimination column by column -/

/-- The state of the elimination before column `col`: the left half of every row combines the rows
of `B` as the right half tells, and the columns before `col` are those of the identity. -/
structure Reduces (B : List (List ℚ)) (col : ℕ) (rows : List (List ℚ)) : Prop where
  length_eq : rows.length = B.length
  row_length : ∀ r ∈ rows, r.length = B.length + B.length
  combines : ∀ i < B.length, ∀ j < B.length, entry rows i j =
    ∑ k ∈ Finset.range B.length, entry rows i (B.length + k) * entry B k j
  unit : ∀ i < B.length, ∀ j < col, entry rows i j = if i = j then 1 else 0

variable {B : List (List ℚ)} {tolerance : ℚ}

/-- With the identity beside it nothing is reduced yet. -/
theorem reduces_identity (hB : ∀ r ∈ B, r.length = B.length) :
    Reduces B 0 (B.zipWith (· ++ ·) (identity B.length)) := by
  have hrow : ∀ i < B.length, (B.zipWith (· ++ ·) (identity B.length)).getD i [] =
      B.getD i [] ++ Scalar.unit B.length i := by
    intro i hi
    rw [List.getD_eq_getElem _ _ (by simpa [identity] using hi), List.getD_eq_getElem _ _ hi]
    simp [identity]
  refine ⟨by simp [identity], fun r hr => ?_, fun i hi j hj => ?_, fun i _ j hj => ?_⟩
  · obtain ⟨i, hi, rfl⟩ := List.mem_iff_getElem.1 hr
    have hi : i < B.length := by simpa [identity] using hi
    rw [← List.getD_eq_getElem _ [], hrow i hi, List.length_append, hB _ (getD_mem hi)]
    simp [Scalar.unit]
  · have hlen := hB _ (getD_mem hi)
    have hright : ∀ k ∈ Finset.range B.length,
        entry (B.zipWith (· ++ ·) (identity B.length)) i (B.length + k) * entry B k j =
          if k = i then entry B i j else 0 := by
      intro k hk
      rw [entry, hrow i hi, List.getD_append_right _ _ _ _ (by omega), hlen,
        Nat.add_sub_cancel_left]
      by_cases hki : k = i
      · subst hki; simp [Scalar.unit, hi]
      · simp [Scalar.unit, Finset.mem_range.1 hk, hki]
    rw [Finset.sum_congr rfl hright, Finset.sum_ite_eq', if_pos (Finset.mem_range.2 hi), entry,
      hrow i hi, List.getD_append _ _ _ _ (by omega)]
    rfl
  · exact absurd hj (Nat.not_lt_zero j)

namespace Reduces

/-- Exchanging rows that are not done. -/
theorem swapRows (h : Reduces B col rows) (hi : col ≤ i) (hi' : i < B.length) (hk : col ≤ k)
    (hk' : k < B.length) : Reduces B col (Matrix.swapRows rows i k) := by
  have hi'' : i < rows.length := h.length_eq ▸ hi'
  have hk'' : k < rows.length := h.length_eq ▸ hk'
  have hrow := entry_swapRows hi'' hk''
  refine ⟨by rw [length_swapRows, h.length_eq], fun r hr => ?_, fun l hl j hj => ?_,
    fun l hl j hj => ?_⟩
  · obtain ⟨l, hl, rfl⟩ := List.mem_iff_getElem.1 hr
    rw [length_swapRows] at hl
    rw [← List.getD_eq_getElem _ [], getD_swapRows hi'' hk'']
    split_ifs <;> exact h.row_length _ (getD_mem (by assumption))
  · simp only [hrow]
    split_ifs
    · exact h.combines k hk' j hj
    · exact h.combines i hi' j hj
    · exact h.combines l hl j hj
  · rw [hrow]
    by_cases hli : l = i
    · rw [if_pos hli, h.unit k hk' j hj, if_neg (by omega), if_neg (by omega)]
    · by_cases hlk : l = k
      · rw [if_neg hli, if_pos hlk, h.unit i hi' j hj, if_neg (by omega), if_neg (by omega)]
      · rw [if_neg hli, if_neg hlk, h.unit l hl j hj]

/-- Elimination by the row of the column. -/
theorem eliminate (h : Reduces B col rows) (hcol : col < B.length) (hp : entry rows col col ≠ 0) :
    Reduces B (col + 1) (Matrix.eliminate rows col) := by
  have hcol' : col < rows.length := h.length_eq ▸ hcol
  have hrow : ∀ l < B.length, ∀ j, entry (Matrix.eliminate rows col) l j =
      if l = col then entry rows col j / entry rows col col
      else entry rows l j - entry rows l col * (entry rows col j / entry rows col col) :=
    fun l hl => entry_eliminate hcol' (h.length_eq ▸ hl) h.row_length
  refine ⟨by rw [length_eliminate, h.length_eq], row_length_eliminate hcol' h.row_length,
    fun l hl j hj => ?_, fun l hl j hj => ?_⟩
  · simp only [hrow l hl]
    split_ifs with hlc
    · rw [h.combines col hcol j hj, Finset.sum_div]
      exact Finset.sum_congr rfl fun k _ => by ring
    · rw [h.combines l hl j hj, h.combines col hcol j hj, Finset.sum_div, Finset.mul_sum,
        ← Finset.sum_sub_distrib]
      exact Finset.sum_congr rfl fun k _ => by ring
  · rw [hrow l hl]
    rcases Nat.lt_succ_iff_lt_or_eq.1 hj with hlt | rfl
    · -- a column that is done is zero in the pivot row
      rw [h.unit col hcol j hlt, if_neg hlt.ne', zero_div, mul_zero, sub_zero]
      split_ifs with hlc hlj hlj
      · omega
      · rfl
      · rw [h.unit l hl j hlt, if_pos hlj]
      · rw [h.unit l hl j hlt, if_neg hlj]
    · rw [div_self hp, mul_one, sub_self]

end Reduces

/-- A run of the elimination that is not refused reduces all columns. -/
theorem Reduces.of_reduceFrom (ht : 0 ≤ tolerance) {left : ℕ} {out : List (List ℚ)}
    (h : Reduces B col rows) (hleft : col + left = B.length)
    (hout : reduceFrom tolerance left col rows = .ok out) : Reduces B B.length out := by
  induction left generalizing col rows with
  | zero =>
    rw [reduceFrom] at hout
    rw [← hleft, Nat.add_zero, ← Except.ok.inj hout]
    exact h
  | succ left ih =>
    unfold reduceFrom at hout
    dsimp only at hout
    split_ifs at hout with hsmall
    have hcol : col < rows.length := by rw [h.length_eq]; omega
    obtain ⟨hle, hlt⟩ := pivotRow_range hcol
    have hswap := h.swapRows le_rfl (by omega) hle (h.length_eq ▸ hlt)
    refine ih (hswap.eliminate (by omega) fun hzero => hsmall ?_) (by omega) hout
    -- the row that came up holds the pivot element that was tested
    rw [entry, getD_swapRows hcol hlt, if_pos rfl] at hzero
    rw [hzero, Scalar.abs_rat, abs_zero]
    exact ht

/-- A matrix that is not refused as singular is inverted. -/
theorem invert_eq_ok (ht : 0 ≤ tolerance) {N : List (List ℚ)} (hB : ∀ r ∈ B, r.length = B.length)
    (h : invert B tolerance = .ok N) : Inverts N B := by
  unfold invert at h
  dsimp only at h
  cases hrun : reduceFrom tolerance B.length 0 (B.zipWith (· ++ ·) (identity B.length)) with
  | error e => rw [hrun] at h; cases h
  | ok out =>
    rw [hrun] at h
    have hout := (reduces_identity hB).of_reduceFrom ht (Nat.zero_add _) hrun
    obtain rfl : out.map (·.drop B.length) = N := Except.ok.inj h
    have hentry : ∀ i k, entry (out.map (·.drop B.length)) i k = entry out i (B.length + k) := by
      intro i k
      rw [entry, ← List.drop_nil (i := B.length), List.getD_map, entry]
      simp only [List.getD_eq_getElem?_getD, List.getElem?_drop]
    refine ⟨by rw [List.length_map, hout.length_eq], fun r hr => ?_, fun i hi j hj => ?_⟩
    · obtain ⟨r', hr', rfl⟩ := List.mem_map.1 hr
      rw [List.length_drop, hout.row_length r' hr', Nat.add_sub_cancel]
    · rw [← hout.unit i hi j hj, hout.combines i hi j hj]
      exact Finset.sum_congr rfl fun k _ => by rw [hentry]

end LinOpt.Matrix
