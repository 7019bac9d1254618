import Mathlib.Data.Set.Finite.Lattice
import LinOpt.Proofs.Tableau.Basis

/-!
# Corners

Pivots lead from basis to basis, and the tableaux they lead through state the same equations. What
can be said of all of them at once is said of the corners of these equations (`corners`): solutions
that are determined by columns in which they are zero or one. There are finitely many
(`finite_corners`), whatever the objective. Every basis has its basic solution among them
(`IsBasicSolution.mem_corners`), and what comes of it when one more column is raised to one
(`IsBasicSolution.exists_raised_corner`).
-/

namespace LinOpt.Tableau

variable {t : Tableau ℚ} {E : (ℕ → ℚ) → Prop} {z : (ℕ → ℚ) → ℚ} {B : ℕ → ℕ}

/-- Solutions over `n` columns that are determined by their zeros and ones outside a set `S` of
columns; the ones are in the columns `T`. -/
def corners (E : (ℕ → ℚ) → Prop) (n : ℕ) : Set (ℕ → ℚ) :=
  {y | E y ∧ ∃ S ⊆ Finset.range n, ∃ T ⊆ Finset.range n,
    (∀ j ∉ S, y j = if j ∈ T then 1 else 0) ∧ ∀ y', E y' → (∀ j ∉ S, y' j = y j) → y' = y}

/-- There is one corner at most for every choice of `S` and `T`. -/
theorem finite_corners (E : (ℕ → ℚ) → Prop) (n : ℕ) : (corners E n).Finite := by
  let corner (S T : Finset ℕ) : Set (ℕ → ℚ) :=
    {y | E y ∧ (∀ j ∉ S, y j = if j ∈ T then 1 else 0) ∧
      ∀ y', E y' → (∀ j ∉ S, y' j = y j) → y' = y}
  have hcorner : ∀ S T, (corner S T).Subsingleton := by
    rintro S T y ⟨hy, h, -⟩ y' ⟨-, h', hdet⟩
    exact hdet y hy fun j hj => (h j hj).trans (h' j hj).symm
  have hfinite : (⋃ S ∈ (Finset.range n).powerset, ⋃ T ∈ (Finset.range n).powerset,
      corner S T).Finite :=
    (Finset.finite_toSet _).biUnion fun S _ => (Finset.finite_toSet _).biUnion fun T _ =>
      (hcorner S T).finite
  refine hfinite.subset ?_
  rintro y ⟨hy, S, hS, T, hT, h⟩
  exact Set.mem_biUnion (Finset.mem_powerset.2 hS)
    (Set.mem_biUnion (Finset.mem_powerset.2 hT) ⟨hy, h⟩)

/-- A solution is a corner if it is zero or one in all columns but those of a basis. -/
theorem States.mem_corners (h : t.States E z) (hB : t.IsBasis B) {y : ℕ → ℚ} (hy : E y)
    {T : Finset ℕ} (hT : T ⊆ Finset.range t.rhsCol)
    (hoff : ∀ j ∉ t.basisColumns B, y j = if j ∈ T then 1 else 0) : y ∈ corners E t.rhsCol := by
  have hS : t.basisColumns B ⊆ Finset.range t.rhsCol := by
    intro j hj
    obtain ⟨i, hi, hlt, rfl⟩ := mem_basisColumns.1 hj
    exact Finset.mem_range.2 (hB i hi hlt).lt
  exact ⟨hy, _, hS, T, hT, hoff, fun y' hy' => h.eq_of_agree hB hy hy'⟩

/-- The basic solution of a basis is a corner. -/
theorem IsBasicSolution.mem_corners (h : t.States E z) (hB : t.IsBasis B) {y : ℕ → ℚ} (hE : E y)
    (hy : t.IsBasicSolution B y) : y ∈ corners E t.rhsCol :=
  h.mem_corners hB hE (Finset.empty_subset _) hy.eq_zero

/-- From a basic solution a column without positive entries can be raised to one, which gives a
corner and lowers no other column. -/
theorem IsBasicSolution.exists_raised_corner (h : t.States E z) (hB : t.IsBasis B) {y : ℕ → ℚ}
    (hy : t.IsBasicSolution B y) {c : ℕ} (hc : c < t.rhsCol) (h0 : t.entry 0 c ≠ 0)
    (hcol : ∀ i, t.entry (i + 1) c ≤ 0) :
    ∃ y' ∈ corners E t.rhsCol, z y' = t.objectiveValue - t.entry 0 c ∧ ∀ j, y j ≤ y' j := by
  obtain ⟨y', hE, hz, hrow, hoff⟩ := h.exists_raised hB hc (hB.notMem h0) 1
  simp only [mul_one] at hz hrow
  have hT : {c} ⊆ Finset.range t.rhsCol := Finset.singleton_subset_iff.2 (Finset.mem_range.2 hc)
  refine ⟨y', h.mem_corners hB hE hT fun j hj => ?_, hz,
    forall_columns t B (fun i hi => ?_) fun j hj => ?_⟩
  · rw [hoff j hj]
    simp only [Finset.mem_singleton]
  · rw [hy.eq_rhs _ (Nat.succ_pos i) hi, hrow _ (Nat.succ_pos i) hi]
    linarith [hcol i]
  · rw [hy.eq_zero j hj, hoff j hj]
    split_ifs
    exacts [zero_le_one, le_rfl]

end LinOpt.Tableau
