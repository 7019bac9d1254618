import LinOpt.Proofs.Simplex.Inverse

/-!
# A matrix that is refused is singular

Row operations neither win nor lose a vector that all rows send to zero (`Kills.of_swapRows`,
`Kills.of_eliminate`). The row that comes up has the greatest magnitude of those that are not done
(`abs_entry_le_pivotRow`), so at tolerance zero a refusal means that a column is zero from its row
on, and then it is a combination of the columns before it (`Reduces.exists_kills`). That combination
is sent to zero by the matrix itself (`singular_of_invert_eq_error`).
-/

namespace LinOpt.Matrix

variable {rows B : List (List ℚ)} {i k l col n : ℕ} {v : ℕ → ℚ}

/-- The first `n` columns of all rows send `v` to zero. -/
def Kills (rows : List (List ℚ)) (n : ℕ) (v : ℕ → ℚ) : Prop :=
  ∀ i < rows.length, ∑ j ∈ Finset.range n, entry rows i j * v j = 0

/-- A square matrix sends a vector to zero that is not zero. -/
def Singular (B : List (List ℚ)) : Prop := ∃ v, Kills B B.length v ∧ ∃ j < B.length, v j ≠ 0

/-! ## Row operations -/

/-- Exchanging rows wins no vector. -/
theorem Kills.of_swapRows (hi : i < rows.length) (hk : k < rows.length)
    (h : Kills (swapRows rows i k) n v) : Kills rows n v := by
  have hrow : ∀ l < rows.length, ∑ j ∈ Finset.range n, entry (swapRows rows i k) l j * v j = 0 :=
    fun l hl => h l (by rwa [length_swapRows])
  simp only [entry_swapRows hi hk] at hrow
  intro l hl
  rcases eq_or_ne l i with rfl | hli
  · rcases eq_or_ne k l with rfl | hkl
    · simpa only [if_true] using hrow k hk
    · simpa only [if_neg hkl, if_true] using hrow k hk
  · rcases eq_or_ne l k with rfl | hlk
    · simpa only [if_true] using hrow i hi
    · simpa only [if_neg hli, if_neg hlk] using hrow l hl

/-- Elimination wins no vector. -/
theorem Kills.of_eliminate (hcol : col < rows.length) (hlen : ∀ r ∈ rows, r.length = l)
    (hp : entry rows col col ≠ 0) (h : Kills (eliminate rows col) n v) : Kills rows n v := by
  have hrow : ∀ i < rows.length, ∑ j ∈ Finset.range n, (if i = col then
      entry rows col j / entry rows col col
      else entry rows i j - entry rows i col * (entry rows col j / entry rows col col)) * v j = 0 := by
    intro i hi
    rw [← h i (by rwa [length_eliminate])]
    exact Finset.sum_congr rfl fun j _ => by rw [entry_eliminate hcol hi hlen]
  have hpivot : ∑ j ∈ Finset.range n, entry rows col j / entry rows col col * v j = 0 := by
    simpa using hrow col hcol
  intro i hi
  by_cases hic : i = col
  · subst hic
    have hmul : ∑ j ∈ Finset.range n, entry rows i j * v j =
        entry rows i i * ∑ j ∈ Finset.range n, entry rows i j / entry rows i i * v j := by
      rw [Finset.mul_sum]
      exact Finset.sum_congr rfl fun j _ => by field_simp
    rw [hmul, hpivot, mul_zero]
  · have hsplit : ∑ j ∈ Finset.range n, entry rows i j * v j =
        ∑ j ∈ Finset.range n,
          (entry rows i j - entry rows i col * (entry rows col j / entry rows col col)) * v j +
        entry rows i col * ∑ j ∈ Finset.range n, entry rows col j / entry rows col col * v j := by
      rw [Finset.mul_sum, ← Finset.sum_add_distrib]
      exact Finset.sum_congr rfl fun j _ => by ring
    have hrow := hrow i hi
    simp only [if_neg hic] at hrow
    rw [hsplit, hrow, hpivot, mul_zero, add_zero]

/-! ## The greatest magnitude -/

/-- Going through positions for the last of the greatest values finds a greatest value. -/
theorem le_foldl_rankLe (f : ℕ → ℚ) (is : List ℕ) (best : ℕ) :
    let found := is.foldl
      (fun best i => if Scalar.rankLe (some (f best)) (some (f i)) then i else best) best
    f best ≤ f found ∧ ∀ i ∈ is, f i ≤ f found := by
  induction is generalizing best with
  | nil => exact ⟨le_rfl, fun i hi => (nomatch hi)⟩
  | cons i is ih =>
    rw [List.foldl_cons]
    have hrank : Scalar.rankLe (some (f best)) (some (f i)) = decide (f best ≤ f i) := rfl
    by_cases hle : f best ≤ f i
    · rw [if_pos (hrank.trans (decide_eq_true hle))]
      obtain ⟨hi, his⟩ := ih i
      exact ⟨hle.trans hi, List.forall_mem_cons.2 ⟨hi, his⟩⟩
    · rw [if_neg fun h => hle (of_decide_eq_true (hrank.symm.trans h))]
      obtain ⟨hbest, his⟩ := ih best
      exact ⟨hbest, List.forall_mem_cons.2 ⟨(not_le.1 hle).le.trans hbest, his⟩⟩

/-- The row that comes up has the greatest magnitude of those that are not done. -/
theorem abs_entry_le_pivotRow (hle : col ≤ i) (hi : i < rows.length) :
    |entry rows i col| ≤ |entry rows (pivotRow rows col) col| := by
  obtain ⟨hfirst, hrest⟩ := le_foldl_rankLe (fun i => |entry rows i col|)
    (List.range' (col + 1) (rows.length - (col + 1))) col
  rcases hle.eq_or_lt with rfl | hlt
  · exact hfirst
  · exact hrest i (List.mem_range'_1.2 (by omega))

/-! ## Refusals -/

/-- A column that is zero from its row on is a combination of the columns before it. -/
theorem Reduces.exists_kills (h : Reduces B col rows) (hcol : col < B.length)
    (hzero : ∀ i, col ≤ i → i < B.length → entry rows i col = 0) :
    ∃ v, Kills rows B.length v ∧ v col ≠ 0 := by
  refine ⟨fun j => (if j = col then 1 else 0) - if j < col then entry rows j col else 0,
    fun i hi => ?_, by simp⟩
  rw [h.length_eq] at hi
  -- of the columns before it only the one of the row counts
  have hbefore : ∀ j, entry rows i j * (if j < col then entry rows j col else 0) =
      if j = i then (if i < col then entry rows i col else 0) else 0 := by
    intro j
    by_cases hj : j < col
    · rw [h.unit i hi j hj]
      rcases eq_or_ne j i with rfl | hji
      · simp only [if_true, one_mul]
      · rw [if_neg hji.symm, if_neg hji, zero_mul]
    · rw [if_neg hj, mul_zero]
      split_ifs with hji hlt
      · omega
      · rfl
      · rfl
  simp only [mul_sub, hbefore, Finset.sum_sub_distrib, mul_ite, mul_one, mul_zero,
    Finset.sum_ite_eq', Finset.mem_range, if_pos hcol, if_pos hi]
  split_ifs with hlt
  · exact sub_self _
  · rw [hzero i (not_lt.1 hlt) hi, sub_zero]

/-- A run of the elimination at tolerance zero is refused where the matrix is singular only. -/
theorem Reduces.singular_of_reduceFrom {left : ℕ} {e : Error ℚ} (h : Reduces B col rows)
    (hleft : col + left = B.length) (hB : ∀ v, Kills rows B.length v → Kills B B.length v)
    (hout : reduceFrom 0 left col rows = .error e) : Singular B := by
  induction left generalizing col rows with
  | zero => cases hout
  | succ left ih =>
    unfold reduceFrom at hout
    dsimp only at hout
    have hcol : col < rows.length := by rw [h.length_eq]; omega
    obtain ⟨hle, hlt⟩ := pivotRow_range hcol
    split_ifs at hout with hsmall
    · -- the greatest magnitude is zero
      obtain ⟨v, hv, hne⟩ := h.exists_kills (by omega) fun i hi hi' => by
        have hmax := abs_entry_le_pivotRow hi (h.length_eq ▸ hi')
        exact abs_nonpos_iff.1 (hmax.trans hsmall)
      exact ⟨v, hB v hv, col, by omega, hne⟩
    · have hswap := h.swapRows le_rfl (by omega) hle (h.length_eq ▸ hlt)
      have hp : entry (Matrix.swapRows rows col (pivotRow rows col)) col col ≠ 0 := by
        rw [entry_swapRows hcol hlt, if_pos rfl]
        exact fun hzero => hsmall (abs_nonpos_iff.2 hzero)
      refine ih (hswap.eliminate (by omega) hp) (by omega) (fun v hv => hB v ?_) hout
      exact (hv.of_eliminate (by rwa [length_swapRows]) hswap.row_length hp).of_swapRows hcol hlt

/-- A matrix that is refused at tolerance zero is singular. -/
theorem singular_of_invert_eq_error {e : Error ℚ} (hB : ∀ r ∈ B, r.length = B.length)
    (h : invert B 0 = .error e) : Singular B := by
  unfold invert at h
  dsimp only at h
  cases hrun : reduceFrom 0 B.length 0 (B.zipWith (· ++ ·) (identity B.length)) with
  | ok out => rw [hrun] at h; cases h
  | error e' =>
    refine (reduces_identity hB).singular_of_reduceFrom (Nat.zero_add _) (fun v hv i hi => ?_) hrun
    have hlen : i < (B.zipWith (· ++ ·) (identity B.length)).length := by simpa [identity] using hi
    rw [← hv i hlen]
    refine Finset.sum_congr rfl fun j hj => congrArg (· * v j) ?_
    -- the matrix is the left half
    rw [entry, entry, List.getD_eq_getElem _ _ hlen, List.getElem_zipWith,
      List.getD_append _ _ _ _ (by rw [hB _ (List.getElem_mem hi)]; exact Finset.mem_range.1 hj),
      List.getD_eq_getElem _ _ hi]

end LinOpt.Matrix
