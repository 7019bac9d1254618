import Mathlib.LinearAlgebra.Matrix.NonsingularInverse
import Mathlib.LinearAlgebra.Matrix.ToLinearEquiv
import LinOpt.Proofs.Simplex.Singular

/-!
# Inversion and the determinant

Read as a matrix over the rationals (`Matrix.ofRows`), what elimination gives for a square list of
rows is a left inverse, so it is an inverse on both sides. The only way to refuse is a pivot element
within the tolerance of zero (`Matrix.reduceFrom_eq_error`), and at tolerance zero that happens for
the matrices with determinant zero and for no others (`Matrix.invert_exact`): one that is inverted
has a determinant other than zero, and one that is refused sends a vector to zero that is not zero.
-/

namespace LinOpt.Matrix

variable {B N : List (List ℚ)} {n : ℕ} {tolerance : ℚ}

/-- A list of rows as a square matrix. -/
def ofRows (n : ℕ) (rows : List (List ℚ)) : Matrix (Fin n) (Fin n) ℚ :=
  .of fun i j => entry rows i j

/-- A left inverse is an inverse on both sides. -/
theorem Inverts.mul_eq_one (h : Inverts N B) :
    ofRows B.length N * ofRows B.length B = 1 ∧ ofRows B.length B * ofRows B.length N = 1 := by
  have hleft : ofRows B.length N * ofRows B.length B = 1 := by
    ext i j
    rw [Matrix.mul_apply, Matrix.one_apply]
    simp only [ofRows, Matrix.of_apply, Fin.ext_iff]
    rw [Fin.sum_univ_eq_sum_range (fun k => entry N i k * entry B k j) B.length]
    exact h.mul_eq i i.2 j j.2
  exact ⟨hleft, mul_eq_one_comm.1 hleft⟩

/-- A matrix that has an inverse has a determinant other than zero. -/
theorem Inverts.det_ne_zero (h : Inverts N B) : (ofRows B.length B).det ≠ 0 :=
  (Matrix.isUnit_det_of_left_inverse h.mul_eq_one.1).ne_zero

/-- A matrix that sends a vector to zero that is not zero has determinant zero. -/
theorem Singular.det_eq_zero (h : Singular B) : (ofRows B.length B).det = 0 := by
  obtain ⟨v, hv, j, hj, hne⟩ := h
  refine Matrix.exists_mulVec_eq_zero_iff.1 ⟨fun i => v i, fun hzero => ?_, ?_⟩
  · exact hne (congrFun hzero ⟨j, hj⟩)
  · funext i
    exact (Fin.sum_univ_eq_sum_range (fun k => entry B i k * v k) B.length).trans (hv i i.2)

/-- Elimination refuses a pivot element within the tolerance of zero, and nothing else. -/
theorem reduceFrom_eq_error {α : Type} [Scalar α] {tolerance : α} {left col : ℕ}
    {rows : List (List α)} {e : Error α} (h : reduceFrom tolerance left col rows = .error e) :
    ∃ row col value, e = .degeneratePivot row col value ∧ Scalar.abs value ≤ tolerance := by
  induction left generalizing col rows with
  | zero => cases h
  | succ left ih =>
    unfold reduceFrom at h
    dsimp only at h
    split_ifs at h with hsmall
    · exact ⟨_, _, _, (Except.error.inj h).symm, hsmall⟩
    · exact ih h

/-- Inversion is refused for a pivot within the tolerance, and for nothing else. -/
theorem invert_eq_error {α : Type} [Scalar α] {tolerance : α} {rows : List (List α)}
    {e : Error α} (h : invert rows tolerance = .error e) :
    ∃ row col value, e = .degeneratePivot row col value ∧ Scalar.abs value ≤ tolerance := by
  unfold invert at h
  dsimp only at h
  cases hrun : reduceFrom tolerance rows.length 0
    (rows.zipWith (· ++ ·) (identity rows.length)) with
  | ok out => rw [hrun] at h; cases h
  | error e' =>
    rw [hrun] at h
    exact Except.error.inj h ▸ reduceFrom_eq_error hrun

/-- Elimination on a square matrix gives an inverse on both sides, or refuses a pivot element within
the tolerance of zero. At tolerance zero it refuses the matrices with determinant zero and no
others. -/
theorem invert_exact (ht : 0 ≤ tolerance) (hB : ∀ r ∈ B, r.length = B.length) :
    (∀ N, invert B tolerance = .ok N → N.length = B.length ∧ (∀ r ∈ N, r.length = B.length) ∧
      ofRows B.length N * ofRows B.length B = 1 ∧ ofRows B.length B * ofRows B.length N = 1) ∧
    (∀ e, invert B tolerance = .error e → ∃ row col value,
      e = .degeneratePivot row col value ∧ |value| ≤ tolerance) ∧
    ((∃ row col value, invert B 0 = .error (.degeneratePivot row col value)) ↔
      (ofRows B.length B).det = 0) := by
  refine ⟨fun N hN => ?_, fun e he => invert_eq_error he, fun ⟨_, _, _, he⟩ => ?_, fun hdet => ?_⟩
  · have hinverts := invert_eq_ok ht hB hN
    exact ⟨hinverts.length_eq, hinverts.row_length, hinverts.mul_eq_one⟩
  · exact (singular_of_invert_eq_error hB he).det_eq_zero
  · cases hinvert : invert B 0 with
    | ok N => exact absurd hdet (invert_eq_ok le_rfl hB hinvert).det_ne_zero
    | error e =>
      obtain ⟨row, col, value, rfl, -⟩ := invert_eq_error hinvert
      exact ⟨row, col, value, rfl⟩

/-- One matrix that is inverted by exchanging its rows, and one that is refused. -/
theorem invert_exact_exchange :
    let B : List (List ℚ) := [[1, 2], [3, 4]]
    let N : List (List ℚ) := [[-2, 1], [3 / 2, -1 / 2]]
    let C : List (List ℚ) := [[1, 2], [2, 4]]
    (invert B 0 = .ok N ∧ ofRows 2 N * ofRows 2 B = 1 ∧ ofRows 2 B * ofRows 2 N = 1) ∧
      invert C (1 / 1000) = .error (.degeneratePivot 1 1 0) ∧ (ofRows 2 C).det = 0 := by
  intro B N C
  have hinverted : invert B 0 = .ok N := by decide +kernel
  have hrefused : invert C 0 = .error (.degeneratePivot 1 1 0) := by decide +kernel
  have hB : ∀ r ∈ B, r.length = B.length := by decide
  have hC : ∀ r ∈ C, r.length = C.length := by decide
  obtain ⟨hinverse, -, -⟩ := invert_exact le_rfl hB
  obtain ⟨-, -, hrefusal⟩ := invert_exact (B := C) le_rfl hC
  exact ⟨⟨hinverted, (hinverse N hinverted).2.2⟩, by decide +kernel,
    hrefusal.1 ⟨1, 1, 0, hrefused⟩⟩

end LinOpt.Matrix
