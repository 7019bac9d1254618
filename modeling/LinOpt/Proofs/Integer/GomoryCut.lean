import LinOpt.Integer.GomoryCut
import LinOpt.Proofs.Integer.Fractional
import LinOpt.Proofs.Tableau.System

/-!
# What a Gomory cut keeps

A cut is read from a row `∑ aⱼ yⱼ = b`. At tolerance zero it splits numbers into floor and
fractional part (`SplitValue.of_zero`). Take from every entry the integer that the cut drops; what
is left is its rest (`GomoryCut.rest`), so at column values that are integral where they are marked
the rests sum up to the fractional part of `b` plus an integer (`exists_sum_rest`). Every weight of
the cut is at least the rest, and in a mixed cut at least the negative of the rest, scaled
(`rest_le_weight`, `neg_rest_le_weight`). Whichever sign the integer has, one of the two makes the
weights sum up to the fractional part of `b` at least.

So the slack of a cut is not negative, and it is an integer unless the cut is mixed
(`slack_ofRow`). A column that is marked has weight zero if its entry is an integer, and so has any
column with entry zero (`weight_eq_zero`), which makes the formulas hold for rows that are too short
as well. A vertex that is zero where the cut has a coefficient is cut off (`ofRow_valid`).
-/

namespace LinOpt

/-- At tolerance zero a number is split into its floor and its fractional part. -/
theorem SplitValue.of_zero (x : ℚ) : SplitValue.of 0 x = ⟨⌊x⌋, Int.fract x⟩ := by
  have hpair : (if x - Scalar.trunc x < 0 then (Scalar.trunc x - 1, x - Scalar.trunc x + 1)
      else (Scalar.trunc x, x - Scalar.trunc x)) = ((⌊x⌋ : ℚ), Int.fract x) := by
    unfold Scalar.trunc
    split_ifs with hneg hlt hlt
    · rw [Scalar.ceil_rat] at hlt ⊢
      have hfloor : ⌊x⌋ = ⌈x⌉ - 1 := by
        rw [Int.floor_eq_iff]
        have := Int.ceil_lt_add_one x
        push_cast
        constructor <;> linarith
      rw [Int.fract, hfloor]
      push_cast
      ring_nf
    · rw [Scalar.ceil_rat] at hlt ⊢
      have hceil : x = ⌈x⌉ := le_antisymm (Int.le_ceil x) (by linarith)
      rw [Int.fract, hceil, Int.ceil_intCast, Int.floor_intCast]
    · rw [Scalar.floor_rat] at hlt
      exact absurd hlt (not_lt.2 (Int.fract_nonneg x))
    · rfl
  unfold SplitValue.of
  dsimp only
  rw [hpair]
  dsimp only
  rw [if_neg (not_lt.2 (Int.fract_nonneg x)),
    if_neg (by rw [sub_zero]; exact not_lt.2 (Int.fract_lt_one x).le)]

namespace GomoryCut

/-! ## Rests and weights -/

/-- What is left of an entry `a` when the integer that a cut drops is taken from it. -/
def rest (mixed : Bool) (f₀ : ℚ) (isInteger : Bool) (a : ℚ) : ℚ :=
  if !mixed then Int.fract a
  else if isInteger then (if Int.fract a ≤ f₀ then Int.fract a else Int.fract a - 1)
  else a

variable {mixed isInteger : Bool} {f₀ a : ℚ}

/-- The rest of an entry differs from it by an integer. -/
theorem exists_sub_rest (h : isInteger = true ∨ mixed = false) :
    ∃ k : ℤ, a - rest mixed f₀ isInteger a = k := by
  unfold rest
  cases mixed with
  | false => exact ⟨⌊a⌋, by simp⟩
  | true =>
    obtain rfl : isInteger = true := h.resolve_right Bool.noConfusion
    simp only [Bool.not_true, Bool.false_eq_true, if_false, if_true]
    split_ifs
    · exact ⟨⌊a⌋, by simp⟩
    · refine ⟨⌊a⌋ + 1, ?_⟩
      rw [Int.fract]
      push_cast
      ring

/-- The weight of a column is at least the rest of its entry. -/
theorem rest_le_weight (h₀ : 0 ≤ f₀) (h₁ : f₀ < 1) :
    rest mixed f₀ isInteger a ≤ weight mixed f₀ isInteger (Int.fract a) a := by
  have hfrac : Int.fract a < 1 := Int.fract_lt_one a
  have hpos : 0 < 1 - f₀ := sub_pos.2 h₁
  unfold rest weight
  split_ifs with hmixed hint hle ha
  · exact le_rfl
  · exact le_rfl
  · have hweight : 0 ≤ f₀ * (1 - Int.fract a) / (1 - f₀) :=
      div_nonneg (mul_nonneg h₀ (by linarith)) hpos.le
    linarith
  · exact le_rfl
  · have hweight : 0 ≤ -a * f₀ / (1 - f₀) :=
      div_nonneg (mul_nonneg (by linarith) h₀) hpos.le
    linarith

/-- In a mixed cut the weight is also at least the negative of the rest, scaled so that `f₀ - 1`
turns into `f₀`. -/
theorem neg_rest_le_weight (h₀ : 0 ≤ f₀) (h₁ : f₀ < 1) :
    -rest true f₀ isInteger a * (f₀ / (1 - f₀)) ≤ weight true f₀ isInteger (Int.fract a) a := by
  have hnonneg := Int.fract_nonneg a
  have hscale : 0 ≤ f₀ / (1 - f₀) := div_nonneg h₀ (sub_pos.2 h₁).le
  unfold rest weight
  simp only [Bool.not_true, Bool.false_eq_true, if_false]
  split_ifs with hint hle ha
  · have := mul_nonneg hnonneg hscale
    linarith
  · refine le_of_eq ?_
    ring
  · have := mul_nonneg ha hscale
    linarith
  · refine le_of_eq ?_
    ring

/-- An entry zero has weight zero, and so has an integer in a column that is integral. -/
theorem weight_eq_zero (h₀ : 0 ≤ f₀) (h : a = 0 ∨ isInteger = true ∧ Int.fract a = 0) :
    weight mixed f₀ isInteger (Int.fract a) a = 0 := by
  have hfract : Int.fract a = 0 := by
    rcases h with rfl | ⟨-, h⟩
    · exact Int.fract_zero
    · exact h
  unfold weight
  rw [hfract]
  split_ifs with hmixed hint ha
  · rfl
  · rfl
  · rcases h with rfl | ⟨hint', -⟩
    · rfl
    · exact absurd hint' hint
  · rcases h with rfl | ⟨hint', -⟩
    · exact absurd le_rfl ha
    · exact absurd hint' hint

/-! ## Sums -/

section
variable {n : ℕ} {b : ℚ} {entry y : ℕ → ℚ} {marked : ℕ → Bool}

/-- At column values that are integral where they are marked, the rests of a row sum up to the
fractional part of the right-hand side plus an integer. -/
theorem exists_sum_rest (f₀ : ℚ) (hrow : ∑ j ∈ Finset.range n, entry j * y j = b)
    (hint : ∀ j < n, marked j = true → ∃ k : ℤ, y j = k)
    (hmixed : mixed = false → ∀ j < n, marked j = false → entry j = 0) :
    ∃ k : ℤ, ∑ j ∈ Finset.range n, rest mixed f₀ (marked j) (entry j) * y j = Int.fract b + k := by
  have hterm : ∀ j < n, ∃ k : ℤ,
      (entry j - rest mixed f₀ (marked j) (entry j)) * y j = k := by
    intro j hlt
    cases hj : marked j with
    | true =>
      obtain ⟨k, hk⟩ := @exists_sub_rest mixed true f₀ (entry j) (.inl rfl)
      obtain ⟨l, hl⟩ := hint j hlt hj
      exact ⟨k * l, by rw [hk, hl, Int.cast_mul]⟩
    | false =>
      refine ⟨0, ?_⟩
      cases mixed with
      | true => simp [rest]
      | false => simp [rest, hmixed rfl j hlt hj]
  obtain ⟨k, hk⟩ := Scalar.exists_sum_intCast hterm
  refine ⟨⌊b⌋ - k, ?_⟩
  simp only [sub_mul, Finset.sum_sub_distrib, hrow] at hk
  rw [Int.fract]
  push_cast
  linarith

/-- The weights sum up to the fractional part of the right-hand side at least. -/
theorem le_sum_weight (hpos : ∀ j < n, 0 ≤ y j) {k : ℤ} (h₀ : 0 ≤ f₀) (h₁ : f₀ < 1)
    (hk : ∑ j ∈ Finset.range n, rest mixed f₀ (marked j) (entry j) * y j = f₀ + k) :
    f₀ ≤ ∑ j ∈ Finset.range n,
      weight mixed f₀ (marked j) (Int.fract (entry j)) (entry j) * y j := by
  have hpos : ∀ j ∈ Finset.range n, 0 ≤ y j := fun j hj => hpos j (Finset.mem_range.1 hj)
  rcases le_or_gt 0 k with hk0 | hk0
  · have hle : ∑ j ∈ Finset.range n, rest mixed f₀ (marked j) (entry j) * y j ≤
        ∑ j ∈ Finset.range n, weight mixed f₀ (marked j) (Int.fract (entry j)) (entry j) * y j :=
      Finset.sum_le_sum fun j hj =>
        mul_le_mul_of_nonneg_right (rest_le_weight h₀ h₁) (hpos j hj)
    have hk0 : (0 : ℚ) ≤ k := by exact_mod_cast hk0
    linarith
  · have hk1 : (k : ℚ) ≤ -1 := by exact_mod_cast Int.le_sub_one_of_lt hk0
    cases mixed with
    | false =>
      -- the rests are fractional parts, so their sum is not negative
      have hsum : 0 ≤ ∑ j ∈ Finset.range n, rest false f₀ (marked j) (entry j) * y j :=
        Finset.sum_nonneg fun j hj => mul_nonneg (Int.fract_nonneg _) (hpos j hj)
      linarith
    | true =>
      have hscale : 0 ≤ f₀ / (1 - f₀) := div_nonneg h₀ (sub_pos.2 h₁).le
      calc f₀ = (1 - f₀) * (f₀ / (1 - f₀)) := (mul_div_cancel₀ f₀ (sub_pos.2 h₁).ne').symm
        _ ≤ -(f₀ + k) * (f₀ / (1 - f₀)) := mul_le_mul_of_nonneg_right (by linarith) hscale
        _ = ∑ j ∈ Finset.range n,
            -rest true f₀ (marked j) (entry j) * (f₀ / (1 - f₀)) * y j := by
          rw [← hk, ← Finset.sum_neg_distrib, Finset.sum_mul]
          exact Finset.sum_congr rfl fun j _ => by ring
        _ ≤ _ := Finset.sum_le_sum fun j hj =>
          mul_le_mul_of_nonneg_right (neg_rest_le_weight h₀ h₁) (hpos j hj)

end

/-! ## Cuts of a row -/

section
variable {t : Tableau ℚ} {i : ℕ} {marks : List Bool}

/-- The source row has an entry for every column. -/
theorem length_entries (h : t.Rectangular) (hi : i < t.numRows) :
    ((t.row i).take t.rhsCol).length = t.rhsCol := by
  have hlen := h.row_length hi
  have hcol := h.rhsCol_succ
  rw [List.length_take]
  omega

/-- The entries of the source row. -/
theorem getElem?_entries {j : ℕ} (hj : j < t.rhsCol) (hlen : j < (t.row i).length) :
    ((t.row i).take t.rhsCol)[j]? = some (t.entry i j) := by
  rw [List.getElem?_take_of_lt hj, Tableau.entry_def, List.getD_eq_getElem _ _ hlen]
  exact List.getElem?_eq_getElem _

/-- A column without a mark counts as continuous. -/
theorem getElem?_integerColumns {j : ℕ} (hj : j < t.rhsCol) :
    (ofRow t i marks 0).integerColumns[j]? = some (marks.getD j false) := by
  simp [ofRow, hj]

@[simp] theorem bound_ofRow : (ofRow t i marks 0).bound = -Int.fract (t.rhs i) := by
  rw [bound, ofRow, SplitValue.of_zero]

/-- The right-hand side of the cut is negative unless that of the row is an integer. -/
theorem bound_neg (h : ¬∃ k : ℤ, t.rhs i = k) : (ofRow t i marks 0).bound < 0 := by
  rw [bound_ofRow, neg_lt_zero]
  refine lt_of_le_of_ne (Int.fract_nonneg _) fun hzero => h ?_
  obtain ⟨k, hk⟩ := Int.fract_eq_zero_iff.1 hzero.symm
  exact ⟨k, hk.symm⟩

/-- A cut has one coefficient for every column, at any tolerance. -/
theorem length_coefficients (h : t.Rectangular) (hi : i < t.numRows) (tolerance : ℚ) :
    (ofRow t i marks tolerance).coefficients.length = t.rhsCol := by
  simp only [coefficients, ofRow, List.length_map, List.length_zip, length_entries h hi,
    List.length_range, min_self]

/-- The coefficients of a cut are the negative weights of the columns. Where the row is too short
both are zero. -/
theorem getD_coefficients {j : ℕ} (hj : j < t.rhsCol) :
    (ofRow t i marks 0).coefficients.getD j 0 =
      -weight (ofRow t i marks 0).mixed (Int.fract (t.rhs i)) (marks.getD j false)
        (Int.fract (t.entry i j)) (t.entry i j) := by
  rcases Nat.lt_or_ge j (t.row i).length with hlen | hlen
  · have hneg : ∀ g : ℚ, (if g == 0 then 0 else -g) = -g := by
      intro g
      split_ifs with hg
      · rw [beq_iff_eq.1 hg, neg_zero]
      · rfl
    have hentry := getElem?_entries hj hlen
    have hsplit : ((ofRow t i marks 0).splitEntries)[j]? =
        some ⟨⌊t.entry i j⌋, Int.fract (t.entry i j)⟩ := by
      rw [ofRow, List.getElem?_map, hentry, Option.map_some, SplitValue.of_zero]
    have hzip : (((ofRow t i marks 0).splitEntries.zip ((t.row i).take t.rhsCol)).zip
        (ofRow t i marks 0).integerColumns)[j]? =
          some ((⟨⌊t.entry i j⌋, Int.fract (t.entry i j)⟩, t.entry i j), marks.getD j false) :=
      List.getElem?_zip_eq_some.2
        ⟨List.getElem?_zip_eq_some.2 ⟨hsplit, hentry⟩, getElem?_integerColumns hj⟩
    rw [coefficients, List.getD_eq_getElem?_getD, List.getElem?_map]
    show Option.getD (Option.map _ (((ofRow t i marks 0).splitEntries.zip
      ((t.row i).take t.rhsCol)).zip (ofRow t i marks 0).integerColumns)[j]?) 0 = _
    rw [hzip, Option.map_some, Option.getD_some]
    dsimp only
    rw [hneg]
    show -weight _ (SplitValue.of 0 (t.rhs i)).fraction _ _ _ = _
    rw [SplitValue.of_zero]
  · have hentry : t.entry i j = 0 := List.getD_eq_default _ _ hlen
    have hshort : (ofRow t i marks 0).coefficients.length ≤ j := by
      simp only [coefficients, ofRow, List.length_map, List.length_zip, List.length_take]
      omega
    rw [List.getD_eq_default _ _ hshort, weight_eq_zero (Int.fract_nonneg _) (.inl hentry),
      neg_zero]

/-- A cut that is not mixed has entry zero in every column that is not marked. -/
theorem entry_eq_zero_of_not_mixed (hmixed : (ofRow t i marks 0).mixed = false) {j : ℕ}
    (hj : j < t.rhsCol) (hmark : marks.getD j false = false) : t.entry i j = 0 := by
  by_contra hne
  have hlen : j < (t.row i).length := by
    by_contra hge
    exact hne (List.getD_eq_default _ _ (not_lt.1 hge))
  have hcol : (ofRow t i marks 0).integerColumns[j]? = _ := getElem?_integerColumns hj
  rw [hmark] at hcol
  have hmem : (t.entry i j, false) ∈
      ((t.row i).take t.rhsCol).zip (ofRow t i marks 0).integerColumns :=
    List.mem_of_getElem? (List.getElem?_zip_eq_some.2 ⟨getElem?_entries hj hlen, hcol⟩)
  refine Bool.false_ne_true (hmixed.symm.trans (List.any_eq_true.2 ⟨_, hmem, ?_⟩))
  simp [hne]

/-- The coefficient of a column with entry zero is zero, and so is that of a marked column with an
integer. -/
theorem coefficient_eq_zero {j : ℕ} (hj : j < t.rhsCol)
    (hzero : t.entry i j = 0 ∨ marks.getD j false = true ∧ Int.fract (t.entry i j) = 0) :
    (ofRow t i marks 0).coefficients.getD j 0 = 0 := by
  rw [getD_coefficients hj, weight_eq_zero (Int.fract_nonneg _) hzero, neg_zero]

/-- At a solution of the row without negative values, integral where it is marked, the slack of the
cut is not negative, and it is an integer unless the cut is mixed. -/
theorem slack_ofRow {y : ℕ → ℚ} (hpos : ∀ j < t.rhsCol, 0 ≤ y j)
    (hint : ∀ j < t.rhsCol, marks.getD j false = true → ∃ k : ℤ, y j = k)
    (hrow : t.rowSum i y = t.rhs i) :
    let cut := ofRow t i marks 0
    let slack := cut.bound - ∑ j ∈ Finset.range t.rhsCol, cut.coefficients.getD j 0 * y j
    0 ≤ slack ∧ (cut.mixed = false → ∃ k : ℤ, slack = k) := by
  intro cut slack
  have hmixed : cut.mixed = false → ∀ j < t.rhsCol, marks.getD j false = false → t.entry i j = 0 :=
    fun hmixed j hj => entry_eq_zero_of_not_mixed hmixed hj
  obtain ⟨k, hk⟩ := exists_sum_rest (Int.fract (t.rhs i)) hrow hint hmixed
  have hslack : slack = ∑ j ∈ Finset.range t.rhsCol, weight cut.mixed (Int.fract (t.rhs i))
      (marks.getD j false) (Int.fract (t.entry i j)) (t.entry i j) * y j -
        Int.fract (t.rhs i) := by
    have hsum : ∑ j ∈ Finset.range t.rhsCol, cut.coefficients.getD j 0 * y j =
        -∑ j ∈ Finset.range t.rhsCol, weight cut.mixed (Int.fract (t.rhs i))
          (marks.getD j false) (Int.fract (t.entry i j)) (t.entry i j) * y j := by
      rw [← Finset.sum_neg_distrib]
      refine Finset.sum_congr rfl fun j hj => ?_
      rw [getD_coefficients (Finset.mem_range.1 hj), neg_mul]
    show cut.bound - _ = _
    rw [hsum, bound_ofRow]
    ring
  rw [hslack]
  refine ⟨sub_nonneg.2 (le_sum_weight hpos (Int.fract_nonneg _) (Int.fract_lt_one _) hk),
    fun hm => ⟨k, ?_⟩⟩
  rw [hm] at hk ⊢
  exact sub_eq_of_eq_add' hk

/-- Column values that are zero where the cut has a coefficient violate the cut, unless the
right-hand side of the row is an integer. -/
theorem bound_lt_of_not_integer (hrhs : ¬∃ k : ℤ, t.rhs i = k) {y : ℕ → ℚ}
    (hy : ∀ j < t.rhsCol, (ofRow t i marks 0).coefficients.getD j 0 ≠ 0 → y j = 0) :
    (ofRow t i marks 0).bound <
      ∑ j ∈ Finset.range t.rhsCol, (ofRow t i marks 0).coefficients.getD j 0 * y j := by
  have hsum : ∑ j ∈ Finset.range t.rhsCol, (ofRow t i marks 0).coefficients.getD j 0 * y j = 0 := by
    refine Finset.sum_eq_zero fun j hj => mul_eq_zero.2 (or_iff_not_imp_left.2 fun hne => ?_)
    exact hy j (Finset.mem_range.1 hj) hne
  rw [hsum]
  exact bound_neg hrhs

/-- The cut of any row, with any columns marked as integral, at tolerance zero. Its right-hand side
has a rest from `0` to below `1`. Every solution of the row without negative values, integral in the
marked columns, satisfies the cut, and its slack is an integer unless the cut is mixed. If the
right-hand side of the row is not an integer, the vertex at which all columns with a coefficient are
zero violates the cut. -/
theorem ofRow_valid (t : Tableau ℚ) (i : ℕ) (marks : List Bool) :
    let cut := ofRow t i marks 0
    (0 ≤ cut.splitRhs.fraction ∧ cut.splitRhs.fraction < 1) ∧
    (∀ y : ℕ → ℚ, (∀ j < t.rhsCol, 0 ≤ y j) →
      (∀ j < t.rhsCol, marks.getD j false = true → ∃ k : ℤ, y j = k) → t.rowSum i y = t.rhs i →
        ∑ j ∈ Finset.range t.rhsCol, cut.coefficients.getD j 0 * y j ≤ cut.bound ∧
        (cut.mixed = false → ∃ k : ℤ,
          cut.bound - ∑ j ∈ Finset.range t.rhsCol, cut.coefficients.getD j 0 * y j = k)) ∧
    ((¬∃ k : ℤ, t.rhs i = k) →
      ∀ y : ℕ → ℚ, (∀ j < t.rhsCol, cut.coefficients.getD j 0 ≠ 0 → y j = 0) →
        cut.bound < ∑ j ∈ Finset.range t.rhsCol, cut.coefficients.getD j 0 * y j) := by
  intro cut
  have hfraction : cut.splitRhs.fraction = Int.fract (t.rhs i) :=
    congrArg SplitValue.fraction (SplitValue.of_zero _)
  refine ⟨?_, fun y hpos hint hrow => ?_, fun hrhs y hy => bound_lt_of_not_integer hrhs hy⟩
  · rw [hfraction]
    exact ⟨Int.fract_nonneg _, Int.fract_lt_one _⟩
  · obtain ⟨hslack, hinteger⟩ := slack_ofRow hpos hint hrow
    exact ⟨sub_nonneg.1 hslack, hinteger⟩

/-- `y₁ + 1/5 y₂ + 9/10 y₃ + 3/2 y₄ - 2/5 y₅ = 5/2` with continuous `y₄` and `y₅`, and
`1/2 y₁ + y₄ = 3/2` with all columns integral, both at `y = (1, 0, 0, 1, 0)`. The vertex of the
first row has `y₁ = 5/2`. -/
theorem ofRow_valid_two_rows :
    let t : Tableau ℚ :=
      ⟨[0, 1, 1, 1, 1, 0], [[1, 1 / 5, 9 / 10, 3 / 2, -2 / 5, 5 / 2], [1 / 2, 0, 0, 1, 0, 3 / 2]]⟩
    let first := ofRow t 1 [true, true, true] 0
    let second := ofRow t 2 [true, true, true, true, true] 0
    let y : ℕ → ℚ := fun j => ([1, 0, 0, 1, 0] : List ℤ).getD j 0
    first.coefficients = [0, -1 / 5, -1 / 10, -3 / 2, -2 / 5] ∧ first.mixed = true ∧
      ∑ j ∈ Finset.range t.rhsCol, first.coefficients.getD j 0 * y j ≤ first.bound ∧
      first.bound < ∑ j ∈ Finset.range t.rhsCol,
        first.coefficients.getD j 0 * (if j = 0 then 5 / 2 else 0) ∧
      second.mixed = false ∧
      ∃ k : ℤ, second.bound -
        ∑ j ∈ Finset.range t.rhsCol, second.coefficients.getD j 0 * y j = k := by
  intro t first second y
  have hcoefficients : first.coefficients = [0, -1 / 5, -1 / 10, -3 / 2, -2 / 5] := by
    decide +kernel
  have hfirst : t.rowSum 1 y = t.rhs 1 := by decide +kernel
  have hsecond : t.rowSum 2 y = t.rhs 2 := by decide +kernel
  have hpos : ∀ j < t.rhsCol, 0 ≤ y j := by decide +kernel
  have hmixed : second.mixed = false := by decide +kernel
  have hfraction : ¬∃ k : ℤ, t.rhs 1 = k := by
    rw [← Fractional.isIntegral_zero_iff]
    decide +kernel
  have hvertex : ∀ j < t.rhsCol, first.coefficients.getD j 0 ≠ 0 →
      (if j = 0 then 5 / 2 else 0 : ℚ) = 0 := by
    rw [hcoefficients]
    decide +kernel
  refine ⟨hcoefficients, by decide +kernel, ?_, ?_, hmixed, ?_⟩
  · exact ((ofRow_valid t 1 [true, true, true]).2.1 y hpos (fun j _ _ => ⟨_, rfl⟩) hfirst).1
  · exact (ofRow_valid t 1 [true, true, true]).2.2 hfraction _ hvertex
  · exact ((ofRow_valid t 2 [true, true, true, true, true]).2.1 y hpos (fun j _ _ => ⟨_, rfl⟩)
      hsecond).2 hmixed

end

end GomoryCut
end LinOpt
