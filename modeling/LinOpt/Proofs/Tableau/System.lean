import LinOpt.Proofs.Tableau.Entries

/-!
# The system a tableau states

A tableau over columns `y : ℕ → ℚ` states a system of equations, its constraint rows (`Solves`), and
the value of an objective wherever they hold. `States t E z` says that the constraint rows of `t`
hold exactly where `E` does and that row `0` then reads `row + z = right-hand side`. Pivots and row
operations within the constraint rows keep what a tableau states (`States.eliminate`,
`States.subtractRow`), a new row with a column of its own adds its equation (`States.grow`).
-/

namespace LinOpt.Tableau

variable {t : Tableau ℚ} {E : (ℕ → ℚ) → Prop} {z : (ℕ → ℚ) → ℚ}

/-- The left-hand side of row `i` at an assignment of values to the columns. -/
def rowSum (t : Tableau ℚ) (i : ℕ) (y : ℕ → ℚ) : ℚ :=
  ∑ j ∈ Finset.range t.rhsCol, t.entry i j * y j

/-- An assignment satisfies every constraint row. -/
def Solves (t : Tableau ℚ) (y : ℕ → ℚ) : Prop := ∀ i, t.rowSum (i + 1) y = t.rhs (i + 1)

/-- The constraint rows of the tableau hold where `E` does, and there row `0` states the value `z`
of the objective. -/
structure States (t : Tableau ℚ) (E : (ℕ → ℚ) → Prop) (z : (ℕ → ℚ) → ℚ) : Prop where
  rectangular : t.Rectangular
  solves_iff : ∀ y, t.Solves y ↔ E y
  objective_eq : ∀ y, E y → t.rowSum 0 y + z y = t.objectiveValue

/-- A row that reads as a combination of two rows has the combined left-hand side. -/
theorem rowSum_eq_sub {t' : Tableau ℚ} {i k l : ℕ} {a b : ℚ} (hcol : t'.rhsCol = t.rhsCol)
    (h : ∀ j, t'.entry l j = a * t.entry k j - b * t.entry i j) (y : ℕ → ℚ) :
    t'.rowSum l y = a * t.rowSum k y - b * t.rowSum i y := by
  simp only [rowSum, hcol, Finset.mul_sum, ← Finset.sum_sub_distrib]
  refine Finset.sum_congr rfl fun j _ => ?_
  rw [h]
  ring

/-- Rows that agree have the same left-hand side. -/
theorem rowSum_congr {t' : Tableau ℚ} {k l : ℕ} (hcol : t'.rhsCol = t.rhsCol)
    (h : ∀ j, t'.entry l j = t.entry k j) (y : ℕ → ℚ) : t'.rowSum l y = t.rowSum k y := by
  simp only [rowSum, hcol, h]

/-- What a tableau states may be said in other words. -/
theorem States.restate {E' : (ℕ → ℚ) → Prop} {z' : (ℕ → ℚ) → ℚ} (h : t.States E z)
    (hE : ∀ y, E y ↔ E' y) (hz : ∀ y, E' y → z' y = z y) : t.States E' z' where
  rectangular := h.rectangular
  solves_iff y := (h.solves_iff y).trans (hE y)
  objective_eq y hy := by rw [hz y hy, h.objective_eq y ((hE y).2 hy)]

/-- Only the values of the columns count. -/
theorem States.of_agree (h : t.States E z) {y y' : ℕ → ℚ} (hy : E y)
    (hagree : ∀ j < t.rhsCol, y' j = y j) : E y' := by
  refine (h.solves_iff y').1 fun i => ?_
  rw [← (h.solves_iff y).2 hy i]
  refine Finset.sum_congr rfl fun j hj => ?_
  rw [hagree j (Finset.mem_range.1 hj)]

/-- Behind the last row there is nothing to solve. -/
theorem solves_of_lt {y : ℕ → ℚ}
    (h : ∀ i, i + 1 < t.numRows → t.rowSum (i + 1) y = t.rhs (i + 1)) : t.Solves y := by
  intro i
  rcases Nat.lt_or_ge (i + 1) t.numRows with hi | hi
  · exact h i hi
  · rw [rowSum, rhs_def, entry_of_numRows_le hi]
    exact Finset.sum_eq_zero fun j _ => by rw [entry_of_numRows_le hi, zero_mul]

/-- The entries of a row in the columns that have a value bound its left-hand side. -/
theorem mul_sum_le_rowSum {i : ℕ} {y : ℕ → ℚ} {a : ℚ} (hpos : ∀ j, 0 ≤ y j)
    (h : ∀ j, j < t.rhsCol → y j ≠ 0 → a ≤ t.entry i j) :
    a * ∑ j ∈ Finset.range t.rhsCol, y j ≤ t.rowSum i y := by
  rw [Finset.mul_sum]
  refine Finset.sum_le_sum fun j hj => ?_
  rcases eq_or_ne (y j) 0 with h0 | h0
  · rw [h0, mul_zero, mul_zero]
  · exact mul_le_mul_of_nonneg_right (h j (Finset.mem_range.1 hj) h0) (hpos j)

/-- Columns without a value do not count for the sign of a row. -/
theorem rowSum_nonneg {i : ℕ} {y : ℕ → ℚ} (hpos : ∀ j, 0 ≤ y j)
    (h : ∀ j, j < t.rhsCol → y j ≠ 0 → 0 ≤ t.entry i j) : 0 ≤ t.rowSum i y := by
  have hle := mul_sum_le_rowSum hpos h
  rwa [zero_mul] at hle

@[simp] theorem rowSum_zero_right (t : Tableau ℚ) (i : ℕ) : t.rowSum i 0 = 0 :=
  Finset.sum_eq_zero fun j _ => mul_zero (t.entry i j)

/-- The left-hand side of a row where a single column has a value. -/
theorem rowSum_single {c : ℕ} (hc : c < t.rhsCol) (i : ℕ) (s : ℚ) :
    t.rowSum i (Pi.single c s) = t.entry i c * s := by
  rw [rowSum, Finset.sum_eq_single c, Pi.single_eq_same]
  · intro j _ hj
    rw [Pi.single_eq_of_ne hj, mul_zero]
  · exact fun hnot => absurd (Finset.mem_range.2 hc) hnot

/-- The left-hand side of a row is additive. -/
theorem rowSum_add (t : Tableau ℚ) (i : ℕ) (y d : ℕ → ℚ) :
    t.rowSum i (y + d) = t.rowSum i y + t.rowSum i d := by
  simp only [rowSum, Pi.add_apply, mul_add, Finset.sum_add_distrib]

/-- A direction in which neither the equations nor the objective change has left-hand side zero in
every row. -/
theorem States.rowSum_eq_zero (h : t.States E z) {y d : ℕ → ℚ} (hy : E y) (hyd : E (y + d))
    (hz : z (y + d) = z y) (i : ℕ) : t.rowSum i d = 0 := by
  cases i with
  | zero =>
    have h1 := h.objective_eq _ hyd
    rw [rowSum_add, hz, ← h.objective_eq y hy] at h1
    linarith
  | succ k =>
    have h1 := (h.solves_iff _).2 hyd k
    rw [rowSum_add, (h.solves_iff y).2 hy k] at h1
    linarith

/-! ## Pivoting -/

/-- The left-hand sides after an elimination. -/
theorem Rectangular.rowSum_eliminate (h : t.Rectangular) {i c : ℕ} (hp : t.entry i c ≠ 0) (k : ℕ)
    (y : ℕ → ℚ) : (t.eliminate i c).rowSum k y =
      if k = i then t.rowSum i y / t.entry i c
      else t.rowSum k y - t.entry k c * (t.rowSum i y / t.entry i c) := by
  have hcol : (t.eliminate i c).rhsCol = t.rhsCol :=
    congrArg (· - 1) (h.eliminate (lt_numRows_of_entry_ne hp) c).2
  split_ifs with hk
  · have he : ∀ j, (t.eliminate i c).entry k j =
        (t.entry i c)⁻¹ * t.entry i j - 0 * t.entry i j := by
      intro j
      rw [h.entry_eliminate hp, if_pos hk]
      ring
    rw [rowSum_eq_sub hcol he]
    ring
  · have he : ∀ j, (t.eliminate i c).entry k j =
        1 * t.entry k j - t.entry k c / t.entry i c * t.entry i j := by
      intro j
      rw [h.entry_eliminate hp, if_neg hk]
      ring
    rw [rowSum_eq_sub hcol he]
    ring

/-- A pivot on a constraint row keeps the solutions. -/
theorem Rectangular.solves_eliminate (h : t.Rectangular) {i c : ℕ} (hp : t.entry (i + 1) c ≠ 0)
    (y : ℕ → ℚ) : (t.eliminate (i + 1) c).Solves y ↔ t.Solves y := by
  have hcol : (t.eliminate (i + 1) c).rhsCol = t.rhsCol :=
    congrArg (· - 1) (h.eliminate (lt_numRows_of_entry_ne hp) c).2
  have hrow : ∀ k, (t.eliminate (i + 1) c).rowSum k y - (t.eliminate (i + 1) c).rhs k =
      if k = i + 1 then (t.rowSum k y - t.rhs k) / t.entry (i + 1) c
      else (t.rowSum k y - t.rhs k) -
        t.entry k c / t.entry (i + 1) c * (t.rowSum (i + 1) y - t.rhs (i + 1)) := by
    intro k
    rw [h.rowSum_eliminate hp, rhs_def, hcol, h.entry_eliminate hp, rhs_def, rhs_def]
    split_ifs with hk
    · rw [hk]; ring
    · ring
  constructor
  · intro hs
    have hi : t.rowSum (i + 1) y - t.rhs (i + 1) = 0 := by
      have := hrow (i + 1)
      rw [if_pos rfl, sub_eq_zero.2 (hs i)] at this
      exact (div_eq_zero_iff.1 this.symm).resolve_right hp
    intro k
    have := hrow (k + 1)
    rw [sub_eq_zero.2 (hs k)] at this
    split_ifs at this with hk
    · exact sub_eq_zero.1 ((div_eq_zero_iff.1 this.symm).resolve_right hp)
    · rw [hi, mul_zero, sub_zero] at this
      exact sub_eq_zero.1 this.symm
  · intro hs k
    have := hrow (k + 1)
    rw [sub_eq_zero.2 (hs k), sub_eq_zero.2 (hs i)] at this
    simp only [zero_div, mul_zero, sub_zero, ite_self] at this
    exact sub_eq_zero.1 this

/-- A pivot on a constraint row keeps what the tableau states. -/
theorem States.eliminate (h : t.States E z) {i c : ℕ} (hp : t.entry (i + 1) c ≠ 0) :
    (t.eliminate (i + 1) c).States E z := by
  have hr := h.rectangular.eliminate (lt_numRows_of_entry_ne hp) c
  have hcol : (t.eliminate (i + 1) c).rhsCol = t.rhsCol := congrArg (· - 1) hr.2
  refine ⟨hr.1, fun y => (h.rectangular.solves_eliminate hp y).trans (h.solves_iff y),
    fun y hy => ?_⟩
  have h0 := h.objective_eq y hy
  have hi : t.rowSum (i + 1) y = t.rhs (i + 1) := (h.solves_iff y).2 hy i
  rw [h.rectangular.rowSum_eliminate hp, if_neg (by omega), objectiveValue, rhs_def, hcol,
    h.rectangular.entry_eliminate hp, if_neg (by omega), hi, rhs_def]
  rw [objectiveValue, rhs_def] at h0
  rw [← h0]
  ring

/-! ## Row operations within the constraint rows -/

/-- Subtracting one constraint row from another keeps what the tableau states. -/
theorem States.subtractRow (h : t.States E z) {k i : ℕ} (hk : k + 1 < t.numRows)
    (hi : i + 1 < t.numRows) (hki : k ≠ i) (f : ℚ) :
    (t.subtractRow (k + 1) (i + 1) f).States E z := by
  have hki' : k + 1 ≠ i + 1 := by omega
  have hr := h.rectangular.subtractRow (k + 1) hi f
  have hcol : (t.subtractRow (k + 1) (i + 1) f).rhsCol = t.rhsCol := congrArg (· - 1) hr.2
  have he := h.rectangular.entry_subtractRow hk hi hki' f
  have hsum : ∀ l y, (t.subtractRow (k + 1) (i + 1) f).rowSum l y =
      if l = k + 1 then t.rowSum (k + 1) y - f * t.rowSum (i + 1) y else t.rowSum l y := by
    intro l y
    split_ifs with hl
    · rw [rowSum_eq_sub (k := k + 1) (i := i + 1) (a := 1) (b := f) hcol, one_mul]
      intro j
      rw [he, if_pos hl, one_mul]
    · refine rowSum_congr hcol (fun j => ?_) y
      rw [he, if_neg hl]
  refine ⟨hr.1, fun y => ?_, fun y hy => ?_⟩
  · rw [← h.solves_iff]
    constructor
    · intro hs
      have hsi := hs i
      rw [hsum, if_neg (Ne.symm hki'), rhs_def, hcol, he, if_neg (Ne.symm hki')] at hsi
      intro l
      have hsl := hs l
      rw [hsum, rhs_def, hcol, he] at hsl
      split_ifs at hsl with hl
      · rw [hl, rhs_def]
        rw [hsi] at hsl
        linarith
      · exact hsl
    · intro hs l
      rw [hsum, rhs_def, hcol, he]
      split_ifs
      · rw [hs k, hs i, rhs_def, rhs_def]
      · exact hs l
  · rw [hsum, if_neg (by omega), h.objective_eq y hy, objectiveValue, objectiveValue, rhs_def,
      rhs_def, hcol, he, if_neg (by omega)]

/-! ## A row with a column of its own -/

/-- An old row keeps its left-hand side, since it is zero in the new column. -/
theorem Rectangular.rowSum_grow_of_ne (h : t.Rectangular) (r : List ℚ) (b : ℚ) {i : ℕ}
    (hi : i ≠ t.numRows) (y : ℕ → ℚ) : (t.grow r b).rowSum i y = t.rowSum i y := by
  rw [rowSum, h.rhsCol_grow, Finset.sum_range_succ, h.entry_grow_of_ne r b hi,
    if_neg (lt_irrefl _), if_pos rfl, zero_mul, add_zero, rowSum]
  refine Finset.sum_congr rfl fun j hj => ?_
  rw [h.entry_grow_of_ne r b hi, if_pos (Finset.mem_range.1 hj)]

/-- The left-hand side of the new row. -/
theorem Rectangular.rowSum_grow_numRows (h : t.Rectangular) {r : List ℚ} (hr : r.length = t.rhsCol)
    (b : ℚ) (y : ℕ → ℚ) : (t.grow r b).rowSum t.numRows y =
      ∑ j ∈ Finset.range t.rhsCol, r.getD j 0 * y j + y t.rhsCol := by
  rw [rowSum, h.rhsCol_grow, Finset.sum_range_succ, t.entry_grow_rhsCol hr, one_mul]
  refine congrArg (· + _) (Finset.sum_congr rfl fun j hj => ?_)
  rw [t.entry_grow_numRows hr b (Finset.mem_range.1 hj)]

/-- A tableau that grows by a row with a column of its own states one equation more. -/
theorem States.grow (h : t.States E z) {r : List ℚ} (hr : r.length = t.rhsCol) (b : ℚ) :
    (t.grow r b).States
      (fun y => E y ∧ ∑ j ∈ Finset.range t.rhsCol, r.getD j 0 * y j + y t.rhsCol = b) z := by
  have hrect := h.rectangular
  refine ⟨hrect.grow hr b, fun y => ?_, fun y hy => ?_⟩
  · rw [← h.solves_iff]
    constructor
    · intro hs
      refine ⟨solves_of_lt fun i hi => ?_, ?_⟩
      · have := hs i
        rwa [hrect.rowSum_grow_of_ne r b hi.ne, hrect.rhs_grow_of_ne r b hi.ne] at this
      · have := hs t.numConstraints
        rwa [← numRows_eq, hrect.rowSum_grow_numRows hr, hrect.rhs_grow_numRows hr] at this
    · rintro ⟨hs, hb⟩ i
      rcases eq_or_ne (i + 1) t.numRows with hi | hi
      · rw [hi, hrect.rowSum_grow_numRows hr, hrect.rhs_grow_numRows hr, hb]
      · rw [hrect.rowSum_grow_of_ne r b hi, hrect.rhs_grow_of_ne r b hi, hs i]
  · have h0 : (0 : ℕ) ≠ t.numRows := t.numRows_pos.ne
    rw [hrect.rowSum_grow_of_ne r b h0, h.objective_eq y hy.1]
    exact (hrect.rhs_grow_of_ne r b h0).symm

end LinOpt.Tableau
