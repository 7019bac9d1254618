import Mathlib.Order.Interval.Finset.Nat
import LinOpt.Proofs.Tableau.System
import LinOpt.Tableau.Rules

/-!
# Basic columns

A column is basic in a row when it is the unit vector of that row (`Basic`), the objective row
included. The solvers keep no list of basic columns, so several columns may be basic in one row;
what they keep is that every row has one (`HasBasis`). Once one is chosen for every row (`IsBasis`),
the values of the other columns are free and determine the solution (`States.exists_solution`,
`States.eq_of_agree`). So there is the basic solution (`States.exists_basicSolution`); the bound on
the objective that a row `0` without negative entries states (`States.le_objectiveValue`) and what a
row or a column shows that admits no pivot (`States.not_solves_of_row`,
`States.exists_gt_of_column`) follow.

At tolerance zero `Tableau.basicRow` recognises basic columns exactly (`basicRow_eq_some`).
-/

namespace LinOpt.Tableau

variable {t : Tableau ℚ} {E : (ℕ → ℚ) → Prop} {z : (ℕ → ℚ) → ℚ}

/-- Column `j` is the unit vector of constraint row `i`. -/
structure Basic (t : Tableau ℚ) (i j : ℕ) : Prop where
  pos : 0 < i
  lt : j < t.rhsCol
  one : t.entry i j = 1
  zero : ∀ k, k ≠ i → t.entry k j = 0

/-- Every constraint row has a basic column. -/
def HasBasis (t : Tableau ℚ) : Prop := ∀ i, 0 < i → i < t.numRows → ∃ j, t.Basic i j

/-- The row in which a column is basic is one of the tableau. -/
theorem Basic.row_lt {i j : ℕ} (h : t.Basic i j) : i < t.numRows :=
  lt_numRows_of_entry_ne (by rw [h.one]; exact one_ne_zero)

/-- A column is basic in one row at most. -/
theorem Basic.row_unique {i k j : ℕ} (h : t.Basic i j) (h' : t.Basic k j) : i = k := by
  by_contra hik
  exact one_ne_zero (h.one.symm.trans (h'.zero i hik))

/-! ## Recognising basic columns -/

/-- The entries of a column of constraint rows. -/
theorem getD_column {α : Type} [Scalar α] (t : Tableau α) (j k : ℕ) :
    (t.column j).getD k 0 = t.entry (k + 1) j := by
  rw [entry_def, row_succ, column]
  simp only [List.getD_eq_getElem?_getD, List.getElem?_map]
  cases t.constraints[k]? <;> rfl

/-- Once the target is found, the rest of the column must be zero. -/
theorem unitPosition_some {a : ℚ} (ha : a ≠ 0) (r : ℕ) :
    ∀ (vs : List ℚ) (i p : ℕ), unitPosition a 0 i (some p) vs = some r ↔
      r = p ∧ ∀ k, vs.getD k 0 = 0
  | [], i, p => by simp [unitPosition, eq_comm]
  | v :: vs, i, p => by
    unfold unitPosition
    simp only [Scalar.abs_rat, abs_nonpos_iff, sub_eq_zero, Option.isSome_some, if_true]
    have hsplit : (∀ k, (v :: vs).getD k 0 = 0) ↔ v = 0 ∧ ∀ k, vs.getD k 0 = 0 := by
      constructor
      · exact fun h => ⟨h 0, fun k => h (k + 1)⟩
      · rintro ⟨h0, h⟩ (_ | k)
        exacts [h0, h k]
    rw [hsplit]
    by_cases hva : v = a
    · rw [if_pos hva]
      constructor
      · exact fun h => nomatch h
      · rintro ⟨-, hv, -⟩
        exact absurd (hva.symm.trans hv) ha
    · rw [if_neg hva]
      by_cases hv : v = 0
      · rw [if_neg (by simp [hv]), unitPosition_some ha r vs]
        simp [hv]
      · rw [if_pos (by simpa using hv)]
        constructor
        · exact fun h => nomatch h
        · exact fun h => absurd h.2.1 hv

/-- The position of the only target in a column that is zero elsewhere. -/
theorem unitPosition_none {a : ℚ} (ha : a ≠ 0) (r : ℕ) :
    ∀ (vs : List ℚ) (i : ℕ), unitPosition a 0 i none vs = some r ↔
      ∃ k, r = i + k ∧ vs.getD k 0 = a ∧ ∀ l, l ≠ k → vs.getD l 0 = 0
  | [], i => by simp [unitPosition, Ne.symm ha]
  | v :: vs, i => by
    unfold unitPosition
    simp only [Scalar.abs_rat, abs_nonpos_iff, sub_eq_zero, Option.isSome_none, Bool.false_eq_true,
      if_false]
    by_cases hva : v = a
    · rw [if_pos hva, unitPosition_some ha r vs]
      constructor
      · rintro ⟨rfl, h⟩
        refine ⟨0, rfl, hva, fun l hl => ?_⟩
        cases l with
        | zero => exact absurd rfl hl
        | succ l => exact h l
      · rintro ⟨k, rfl, hk, h⟩
        cases k with
        | zero => exact ⟨rfl, fun l => h (l + 1) (Nat.succ_ne_zero l)⟩
        | succ k => exact absurd (hva.symm.trans (h 0 (Nat.succ_ne_zero k).symm)) ha
    · rw [if_neg hva]
      by_cases hv : v = 0
      · rw [if_neg (by simp [hv]), unitPosition_none ha r vs]
        constructor
        · rintro ⟨k, rfl, hk, h⟩
          refine ⟨k + 1, by omega, hk, fun l hl => ?_⟩
          cases l with
          | zero => exact hv
          | succ l => exact h l fun hlk => hl (by rw [hlk])
        · rintro ⟨k, rfl, hk, h⟩
          cases k with
          | zero => exact absurd hk hva
          | succ k => exact ⟨k, by omega, hk, fun l hl => h (l + 1) fun hlk => hl (by omega)⟩
      · rw [if_pos (by simpa using hv)]
        constructor
        · exact fun h => nomatch h
        · rintro ⟨k, -, hk, h⟩
          cases k with
          | zero => exact absurd hk hva
          | succ k => exact absurd (h 0 (Nat.succ_ne_zero k).symm) hv

/-- At tolerance zero a column shows its target in a row if that entry is the only nonzero one of
the column. -/
theorem unitRow_eq_some {a : ℚ} (ha : a ≠ 0) {i j : ℕ} :
    t.unitRow j a 0 = some i ↔ 0 < i ∧ t.entry i j = a ∧ ∀ k, k ≠ i → t.entry k j = 0 := by
  unfold unitRow
  simp only [Scalar.abs_rat, gt_iff_lt, abs_pos]
  by_cases h0 : t.entry 0 j = 0
  · rw [if_neg (not_not.2 h0), unitPosition_none ha]
    constructor
    · rintro ⟨k, rfl, hk, h⟩
      rw [getD_column] at hk
      refine ⟨by omega, by rw [Nat.add_comm]; exact hk, fun l hl => ?_⟩
      cases l with
      | zero => exact h0
      | succ l =>
        rw [← getD_column]
        exact h l (by omega)
    · rintro ⟨hi, hone, h⟩
      obtain ⟨k, rfl⟩ : ∃ k, i = k + 1 := ⟨i - 1, by omega⟩
      refine ⟨k, by omega, by rw [getD_column]; exact hone, fun l hl => ?_⟩
      rw [getD_column]
      exact h _ (by omega)
  · rw [if_pos h0]
    constructor
    · exact fun h => nomatch h
    · rintro ⟨hi, -, h⟩
      exact absurd (h 0 hi.ne) h0

/-- At tolerance zero the basic columns are recognised exactly. -/
theorem basicRow_eq_some {i j : ℕ} (hj : j < t.rhsCol) :
    t.basicRow j 0 = some i ↔ t.Basic i j :=
  (unitRow_eq_some one_ne_zero).trans
    ⟨fun h => ⟨h.1, hj, h.2.1, h.2.2⟩, fun h => ⟨h.pos, h.one, h.zero⟩⟩

/-- A position that is found lies in the column, if it was not found before. -/
theorem unitPosition_range {α : Type} [Scalar α] {a tolerance : α} {r : ℕ} :
    ∀ {vs : List α} {i : ℕ} {found : Option ℕ}, unitPosition a tolerance i found vs = some r →
      found = some r ∨ i ≤ r ∧ r < i + vs.length
  | [], _, _, h => .inl h
  | v :: vs, i, found, h => by
    unfold unitPosition at h
    rw [List.length_cons]
    split_ifs at h
    · rcases unitPosition_range h with hr | hr
      · obtain rfl := Option.some.inj hr
        omega
      · omega
    · exact (unitPosition_range h).imp_right fun hr => by omega

/-- Whatever the scalars and the tolerance, a column is recognised as basic in constraint rows
only. -/
theorem basicRow_range {α : Type} [Scalar α] {t : Tableau α} {tolerance : α} {i j : ℕ}
    (h : t.basicRow j tolerance = some i) : 0 < i ∧ i < t.numRows := by
  unfold basicRow unitRow at h
  split_ifs at h
  have hlen : (t.column j).length = t.numConstraints := List.length_map _
  have hrange := (unitPosition_range h).resolve_left (by simp)
  rw [hlen] at hrange
  rw [numRows_eq]
  omega

/-! ## The basis under a pivot -/

/-- A pivot makes its column basic in its row. -/
theorem Rectangular.basic_eliminate (h : t.Rectangular) {i c : ℕ} (hp : t.entry (i + 1) c ≠ 0)
    (hc : c < t.rhsCol) : (t.eliminate (i + 1) c).Basic (i + 1) c where
  pos := Nat.succ_pos i
  lt := hc.trans_eq (congrArg (· - 1) (h.eliminate (lt_numRows_of_entry_ne hp) c).2.symm)
  one := by rw [h.entry_eliminate hp, if_pos rfl, div_self hp]
  zero k hk := by
    rw [h.entry_eliminate hp, if_neg hk, div_self hp]
    ring

/-- A column that is basic in another row stays so. -/
theorem Basic.eliminate (h : t.Rectangular) {i c k j : ℕ} (hb : t.Basic k j) (hki : k ≠ i + 1)
    (hp : t.entry (i + 1) c ≠ 0) : (t.eliminate (i + 1) c).Basic k j where
  pos := hb.pos
  lt := hb.lt.trans_eq (congrArg (· - 1) (h.eliminate (lt_numRows_of_entry_ne hp) c).2.symm)
  one := by
    rw [h.entry_eliminate hp, if_neg hki, hb.one, hb.zero _ (Ne.symm hki)]
    ring
  zero l hl := by
    rw [h.entry_eliminate hp, hb.zero _ (Ne.symm hki), hb.zero l hl]
    simp

/-- A pivot keeps a basis. -/
theorem HasBasis.eliminate (hb : t.HasBasis) (h : t.Rectangular) {i c : ℕ}
    (hp : t.entry (i + 1) c ≠ 0) (hc : c < t.rhsCol) : (t.eliminate (i + 1) c).HasBasis := by
  intro k hk hlt
  rw [numRows_eliminate] at hlt
  by_cases hki : k = i + 1
  · subst hki
    exact ⟨c, h.basic_eliminate hp hc⟩
  · obtain ⟨j, hj⟩ := hb k hk hlt
    exact ⟨j, hj.eliminate h hki hp⟩

/-! ## Bases -/

/-- A choice of one basic column for every constraint row. -/
def IsBasis (t : Tableau ℚ) (B : ℕ → ℕ) : Prop := ∀ i, 0 < i → i < t.numRows → t.Basic i (B i)

/-- The columns chosen for the constraint rows. -/
def basisColumns (t : Tableau ℚ) (B : ℕ → ℕ) : Finset ℕ := (Finset.Ico 1 t.numRows).image B

variable {B : ℕ → ℕ}

/-- The columns of a basis are those of its rows. -/
theorem mem_basisColumns {j : ℕ} :
    j ∈ t.basisColumns B ↔ ∃ i, 0 < i ∧ i < t.numRows ∧ B i = j := by
  simp [basisColumns, Nat.succ_le_iff, and_assoc]

/-- What holds of the columns chosen and of all others holds of every column. -/
theorem forall_columns (t : Tableau ℚ) (B : ℕ → ℕ) {P : ℕ → Prop}
    (hchosen : ∀ i, i + 1 < t.numRows → P (B (i + 1))) (hother : ∀ j ∉ t.basisColumns B, P j)
    (j : ℕ) : P j := by
  by_cases hj : j ∈ t.basisColumns B
  · obtain ⟨i, hi, hlt, rfl⟩ := mem_basisColumns.1 hj
    obtain ⟨k, rfl⟩ := Nat.exists_eq_add_one_of_ne_zero hi.ne'
    exact hchosen k hlt
  · exact hother j hj

/-- If every row has a basic column, one of each row makes a basis. -/
theorem HasBasis.exists_isBasis (h : t.HasBasis) : ∃ B, t.IsBasis B := by
  choose! B hB using h
  exact ⟨B, hB⟩

namespace IsBasis

/-- Any basic column may be the one chosen for its row. -/
theorem update (h : t.IsBasis B) {i j : ℕ} (hij : t.Basic i j) :
    t.IsBasis (Function.update B i j) := by
  intro k hk hlt
  rcases eq_or_ne k i with rfl | hki
  · rw [Function.update_self]
    exact hij
  · rw [Function.update_of_ne hki]
    exact h k hk hlt

/-- A column with an entry in row `0` is not chosen. -/
theorem notMem (h : t.IsBasis B) {j : ℕ} (hj : t.entry 0 j ≠ 0) : j ∉ t.basisColumns B := by
  intro hmem
  obtain ⟨i, hi, hlt, rfl⟩ := mem_basisColumns.1 hmem
  exact hj ((h i hi hlt).zero 0 hi.ne)

/-- Of the columns chosen only its own counts for a row. -/
theorem entry_mul_eq_zero (h : t.IsBasis B) {y : ℕ → ℚ} (hy : ∀ j ∉ t.basisColumns B, y j = 0)
    {k j : ℕ} (hj : ∀ i, 0 < i → i < t.numRows → B i = j → k ≠ i) : t.entry k j * y j = 0 := by
  by_cases hmem : j ∈ t.basisColumns B
  · obtain ⟨i, hi, hlt, rfl⟩ := mem_basisColumns.1 hmem
    rw [(h i hi hlt).zero k (hj i hi hlt rfl), zero_mul]
  · rw [hy j hmem, mul_zero]

/-- A constraint row reads the value of its column if only columns chosen have values. -/
theorem rowSum_eq (h : t.IsBasis B) {y : ℕ → ℚ} (hy : ∀ j ∉ t.basisColumns B, y j = 0) {k : ℕ}
    (hk : 0 < k) (hlt : k < t.numRows) : t.rowSum k y = y (B k) := by
  rw [rowSum, Finset.sum_eq_single (B k), (h k hk hlt).one, one_mul]
  · intro j _ hj
    exact h.entry_mul_eq_zero hy fun i _ _ hij hki => hj (by rw [← hij, hki])
  · exact fun hnot => absurd (Finset.mem_range.2 (h k hk hlt).lt) hnot

/-- Row `0` reads zero if only columns chosen have values. -/
theorem rowSum_zero (h : t.IsBasis B) {y : ℕ → ℚ} (hy : ∀ j ∉ t.basisColumns B, y j = 0) :
    t.rowSum 0 y = 0 :=
  Finset.sum_eq_zero fun _ _ => h.entry_mul_eq_zero hy fun _ hi _ _ => hi.ne

/-- The values of the columns chosen can be prescribed, because no column is chosen twice. -/
theorem exists_assignment (h : t.IsBasis B) (b : ℕ → ℚ) :
    ∃ y : ℕ → ℚ, (∀ i, 0 < i → i < t.numRows → y (B i) = b i) ∧
      ∀ j ∉ t.basisColumns B, y j = 0 := by
  refine ⟨fun j => ∑ i ∈ Finset.Ico 1 t.numRows, if B i = j then b i else 0, fun k hk hlt => ?_,
    fun j hj => ?_⟩
  · show ∑ i ∈ Finset.Ico 1 t.numRows, (if B i = B k then b i else 0) = b k
    rw [Finset.sum_eq_single k, if_pos rfl]
    · intro i hi hik
      obtain ⟨hpos, hilt⟩ := Finset.mem_Ico.1 hi
      refine if_neg fun hB => hik ?_
      have hbasic := h i hpos hilt
      rw [hB] at hbasic
      exact hbasic.row_unique (h k hk hlt)
    · exact fun hnot => absurd (Finset.mem_Ico.2 ⟨hk, hlt⟩) hnot
  · exact Finset.sum_eq_zero fun i hi => if_neg fun hB => hj (Finset.mem_image.2 ⟨i, hi, hB⟩)

end IsBasis

/-- The values of all columns but those chosen are free, and the rows give those of the others. -/
theorem States.exists_solution (h : t.States E z) (hB : t.IsBasis B) {x : ℕ → ℚ}
    (hx : ∀ j ∈ t.basisColumns B, x j = 0) :
    ∃ y, E y ∧ z y = t.objectiveValue - t.rowSum 0 x ∧
      (∀ i, 0 < i → i < t.numRows → y (B i) = t.rhs i - t.rowSum i x) ∧
      ∀ j ∉ t.basisColumns B, y j = x j := by
  obtain ⟨a, ha, hoff⟩ := hB.exists_assignment fun i => t.rhs i - t.rowSum i x
  have hE : E (x + a) := by
    refine (h.solves_iff _).1 (solves_of_lt fun i hi => ?_)
    rw [rowSum_add, hB.rowSum_eq hoff (Nat.succ_pos i) hi, ha _ (Nat.succ_pos i) hi]
    ring
  refine ⟨x + a, hE, ?_, fun i hi hlt => ?_, fun j hj => ?_⟩
  · have hz := h.objective_eq _ hE
    rw [rowSum_add, hB.rowSum_zero hoff, add_zero] at hz
    exact eq_sub_of_add_eq' hz
  · rw [Pi.add_apply, hx _ (mem_basisColumns.2 ⟨i, hi, hlt, rfl⟩), zero_add, ha i hi hlt]
  · rw [Pi.add_apply, hoff j hj, add_zero]

/-- Raising one column, with the columns chosen to make up for it. -/
theorem States.exists_raised (h : t.States E z) (hB : t.IsBasis B) {c : ℕ} (hc : c < t.rhsCol)
    (hcB : c ∉ t.basisColumns B) (s : ℚ) :
    ∃ y, E y ∧ z y = t.objectiveValue - t.entry 0 c * s ∧
      (∀ i, 0 < i → i < t.numRows → y (B i) = t.rhs i - t.entry i c * s) ∧
      ∀ j ∉ t.basisColumns B, y j = if j = c then s else 0 := by
  have hraised : ∀ j ∈ t.basisColumns B, (Pi.single c s : ℕ → ℚ) j = 0 := by
    intro j hj
    rw [Pi.single_eq_of_ne (ne_of_mem_of_not_mem hj hcB)]
  obtain ⟨y, hE, hz, hrow, hoff⟩ := h.exists_solution hB hraised
  simp only [rowSum_single hc, Pi.single_apply] at hz hrow hoff
  exact ⟨y, hE, hz, hrow, hoff⟩

/-- Solutions that agree in all columns but those chosen are the same. -/
theorem States.eq_of_agree (h : t.States E z) (hB : t.IsBasis B) {y y' : ℕ → ℚ} (hy : E y)
    (hy' : E y') (hagree : ∀ j ∉ t.basisColumns B, y' j = y j) : y' = y := by
  have hoff : ∀ j ∉ t.basisColumns B, (y' - y) j = 0 := fun j hj => sub_eq_zero.2 (hagree j hj)
  refine funext (forall_columns t B (fun i hi => ?_) hagree)
  have hsum := rowSum_add t (i + 1) y (y' - y)
  rw [add_sub_cancel, (h.solves_iff y').2 hy' i, (h.solves_iff y).2 hy i,
    hB.rowSum_eq hoff (Nat.succ_pos i) hi, Pi.sub_apply] at hsum
  linarith

/-! ## Basic solutions -/

/-- The basic solution of a choice: the columns chosen have the right-hand sides of their rows, the
others are zero. -/
structure IsBasicSolution (t : Tableau ℚ) (B : ℕ → ℕ) (y : ℕ → ℚ) : Prop where
  eq_rhs : ∀ i, 0 < i → i < t.numRows → y (B i) = t.rhs i
  eq_zero : ∀ j ∉ t.basisColumns B, y j = 0

/-- A basic solution is not negative where no right-hand side is. -/
theorem IsBasicSolution.nonneg {y : ℕ → ℚ} (h : t.IsBasicSolution B y)
    (hrhs : ∀ i, 0 ≤ t.rhs (i + 1)) : ∀ j, 0 ≤ y j := by
  refine forall_columns t B (fun i hi => ?_) fun j hj => (h.eq_zero j hj).ge
  rw [h.eq_rhs _ (Nat.succ_pos i) hi]
  exact hrhs i

/-- Every basis has a basic solution, and there the objective has the value that row `0` shows. -/
theorem States.exists_isBasicSolution (h : t.States E z) (hB : t.IsBasis B) :
    ∃ y, E y ∧ z y = t.objectiveValue ∧ t.IsBasicSolution B y := by
  obtain ⟨y, hE, hz, hrow, hoff⟩ := h.exists_solution hB (x := 0) fun _ _ => rfl
  simp only [rowSum_zero_right, sub_zero] at hz hrow
  exact ⟨y, hE, hz, hrow, hoff⟩

/-- A linear form that has one value at all solutions and is zero in the columns chosen is zero. -/
theorem States.eq_zero_of_sum (h : t.States E z) (hB : t.IsBasis B) {d : ℕ → ℚ} {s : ℚ}
    (hsum : ∀ y, E y → ∑ j ∈ Finset.range t.rhsCol, d j * y j = s)
    (hd : ∀ j ∈ t.basisColumns B, d j = 0) : s = 0 ∧ ∀ j < t.rhsCol, d j = 0 := by
  have hs : s = 0 := by
    obtain ⟨y, hE, -, hy⟩ := h.exists_isBasicSolution hB
    rw [← hsum y hE]
    refine Finset.sum_eq_zero fun j _ => ?_
    by_cases hj : j ∈ t.basisColumns B
    · rw [hd j hj, zero_mul]
    · rw [hy.eq_zero j hj, mul_zero]
  refine ⟨hs, fun j hj => ?_⟩
  by_cases hjB : j ∈ t.basisColumns B
  · exact hd j hjB
  · obtain ⟨y, hE, -, -, hoff⟩ := h.exists_raised hB hj hjB 1
    have hj1 := hsum y hE
    rw [Finset.sum_eq_single j, hoff j hjB, if_pos rfl, mul_one, hs] at hj1
    · exact hj1
    · intro k _ hkj
      by_cases hk : k ∈ t.basisColumns B
      · rw [hd k hk, zero_mul]
      · rw [hoff k hk, if_neg hkj, mul_zero]
    · exact fun hnot => absurd (Finset.mem_range.2 hj) hnot

/-- A basic solution: every column is zero or has the right-hand side of a row in which it is basic.
-/
theorem States.exists_basicSolution (h : t.States E z) (hb : t.HasBasis) :
    ∃ y, E y ∧ z y = t.objectiveValue ∧ ∀ j, y j = 0 ∨ ∃ i, t.Basic i j ∧ y j = t.rhs i := by
  obtain ⟨B, hB⟩ := hb.exists_isBasis
  obtain ⟨y, hE, hz, hy⟩ := h.exists_isBasicSolution hB
  refine ⟨y, hE, hz, forall_columns t B (fun i hi => .inr ?_) fun j hj => .inl (hy.eq_zero j hj)⟩
  exact ⟨i + 1, hB _ (Nat.succ_pos i) hi, hy.eq_rhs _ (Nat.succ_pos i) hi⟩

/-- The least entry of row `0` bounds how far the objective exceeds the value that row `0` shows.
Columns that are zero do not count. -/
theorem States.le_objectiveValue_sub (h : t.States E z) {y : ℕ → ℚ} (hy : E y) (hpos : ∀ j, 0 ≤ y j)
    {a : ℚ} (hleast : ∀ j, j < t.rhsCol → y j ≠ 0 → a ≤ t.entry 0 j) :
    z y ≤ t.objectiveValue - a * ∑ j ∈ Finset.range t.rhsCol, y j := by
  have hsum := mul_sum_le_rowSum hpos hleast
  have := h.objective_eq y hy
  linarith

/-- A row `0` without negative entries bounds the objective, also where the columns with negative
entries are zero. -/
theorem States.le_objectiveValue (h : t.States E z) {y : ℕ → ℚ} (hy : E y) (hpos : ∀ j, 0 ≤ y j)
    (hred : ∀ j, j < t.rhsCol → y j ≠ 0 → 0 ≤ t.entry 0 j) : z y ≤ t.objectiveValue := by
  have hle := h.le_objectiveValue_sub hy hpos hred
  rwa [zero_mul, sub_zero] at hle

/-- A negative right-hand side in a row without negative entries cannot be met, also where the
columns with negative entries are zero. -/
theorem States.not_solves_of_row (h : t.States E z) {i : ℕ} (hi : t.rhs (i + 1) < 0) {y : ℕ → ℚ}
    (hpos : ∀ j, 0 ≤ y j) (hrow : ∀ j, j < t.rhsCol → y j ≠ 0 → 0 ≤ t.entry (i + 1) j) : ¬E y := by
  intro hy
  have hsum : 0 ≤ t.rowSum (i + 1) y := rowSum_nonneg hpos hrow
  have := (h.solves_iff y).2 hy i
  linarith

/-- A column that is negative in row `0` and nowhere positive else lets the objective grow beyond
every bound, from a basic solution without negative values. -/
theorem States.exists_gt_of_column (h : t.States E z) (hb : t.HasBasis)
    (hrhs : ∀ i, 0 ≤ t.rhs (i + 1)) {c : ℕ} (hc : c < t.rhsCol) (h0 : t.entry 0 c < 0)
    (hcol : ∀ i, t.entry (i + 1) c ≤ 0) (bound : ℚ) :
    ∃ y, E y ∧ (∀ j, 0 ≤ y j) ∧ bound < z y := by
  -- the column is raised to `s`, and every row makes up for it in its basic column
  let s : ℚ := |bound - t.objectiveValue| / -t.entry 0 c + 1
  have hs : 0 < s := by
    have : 0 ≤ |bound - t.objectiveValue| / -t.entry 0 c := div_nonneg (abs_nonneg _) (by linarith)
    exact lt_of_le_of_lt this (lt_add_one _)
  obtain ⟨B, hB⟩ := hb.exists_isBasis
  obtain ⟨y, hE, hz, hrow, hoff⟩ := h.exists_raised hB hc (hB.notMem h0.ne) s
  refine ⟨y, hE, forall_columns t B (fun i hi => ?_) fun j hj => ?_, ?_⟩
  · have hi' := mul_nonneg_of_nonpos_of_nonpos (hcol i) (neg_nonpos.2 hs.le)
    have hr := hrhs i
    rw [hrow _ (Nat.succ_pos i) hi]
    linarith
  · rw [hoff j hj]
    split_ifs
    exacts [hs.le, le_rfl]
  · have hgain : -t.entry 0 c * s = |bound - t.objectiveValue| - t.entry 0 c := by
      have hne : -t.entry 0 c ≠ 0 := by linarith [h0]
      show -t.entry 0 c * (_ / -t.entry 0 c + 1) = _
      rw [mul_add, mul_div_assoc', mul_div_cancel_left₀ _ hne]
      ring
    have := le_abs_self (bound - t.objectiveValue)
    linarith

end LinOpt.Tableau
