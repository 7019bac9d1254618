import Mathlib.Logic.Relation
import LinOpt.Proofs.Simplex.Dual.Tolerance
import LinOpt.Proofs.Simplex.Pivots
import LinOpt.Proofs.Tableau.Pivoting

/-!
# Primal pivots

A primal pivot brings in a column with a negative entry in row `0` and takes out the row that the
ratio test finds (`Tableau.PrimalPivot`); which columns may come in is left open, and may change
from pivot to pivot. At tolerance zero such a pivot leads from a tableau with a feasible basic
solution (`Tableau.Canonical`) to another one and does not lower the objective
(`Tableau.Canonical.pivot`), also where its step is zero or several rows are equally tight. So it is
along runs of any length (`Tableau.Canonical.run`), among them the runs of the primal method and of
the second phase of the dual method (`PrimalSimplex.Pivots.primalPivots`,
`Model.Ascends.primalPivots`).

Where the ratio test finds no row, the column can be raised from any feasible point and as far as
one likes: the columns of the basis make up for it and do not get negative
(`Tableau.IsBasis.exists_raised`).
-/

namespace LinOpt

namespace Tableau

variable {t t' : Tableau ℚ} {B : ℕ → ℕ} {c r : ℕ}

/-! ## Pivots -/

/-- A tableau with a feasible basic solution: every row has a unit column that is zero in row `0`,
and no right-hand side is negative. -/
structure Canonical (t : Tableau ℚ) : Prop where
  rectangular : t.Rectangular
  hasBasis : t.HasBasis
  rhs_nonneg : ∀ i, 0 ≤ t.rhs (i + 1)

/-- A primal pivot at tolerance zero, on the best of the columns that are eligible. -/
inductive PrimalPivot (t t' : Tableau ℚ) : Prop where
  | intro (eligible : ℕ → Bool) {c r : ℕ} (hcol : t.enteringWhere 0 eligible = some c)
      (hrow : t.leaving c 0 = some r) (hpivot : t.pivot r c 0 = .ok t')

/-- A pivot on a row that the ratio test finds is not refused. -/
theorem exists_pivot_of_leaving (hrow : t.leaving c 0 = some r) : ∃ t', t.pivot r c 0 = .ok t' :=
  ⟨t.eliminate r c, pivot_of_lt (abs_pos.2 (lt_entry_of_leaving hrow).ne')⟩

namespace Canonical

/-- A primal pivot keeps the form and does not lower the objective: the step is not negative, and
the entry of the column in row `0` is. -/
theorem pivot (h : t.Canonical) (hpivot : t.PrimalPivot t') :
    t'.Canonical ∧ t.objectiveValue ≤ t'.objectiveValue := by
  obtain ⟨eligible, hcol, hrow, hpivot⟩ := hpivot
  obtain ⟨hc, -, hneg, -⟩ := h.rectangular.enteringWhere_eq_some hcol
  obtain ⟨i, rfl, -, hpos, -⟩ := leaving_eq_some hrow
  obtain ⟨-, rfl⟩ := pivot_eq_ok hpivot
  have hp : t.entry (i + 1) _ ≠ 0 := hpos.ne'
  have hstep := div_nonneg (h.rhs_nonneg i) hpos.le
  constructor
  · exact ⟨(h.rectangular.eliminate (lt_numRows_of_entry_ne hp) _).1,
      h.hasBasis.eliminate h.rectangular hp hc,
      h.rectangular.rhs_nonneg_eliminate h.rhs_nonneg hrow⟩
  · rw [neg_zero] at hneg
    have hgain := mul_nonpos_of_nonpos_of_nonneg hneg.le hstep
    rw [objectiveValue, objectiveValue, h.rectangular.rhs_eliminate hp,
      if_neg (Nat.succ_ne_zero i).symm]
    linarith

/-- Primal pivots one after the other keep the form and do not lower the objective. -/
theorem run (h : t.Canonical) (hrun : Relation.ReflTransGen PrimalPivot t t') :
    t'.Canonical ∧ t.objectiveValue ≤ t'.objectiveValue := by
  induction hrun with
  | refl => exact ⟨h, le_rfl⟩
  | tail _ hpivot ih =>
    obtain ⟨hcanonical, hle⟩ := ih.1.pivot hpivot
    exact ⟨hcanonical, ih.2.trans hle⟩

/-- The basic solution is feasible, and there the objective has the value that row `0` shows. -/
theorem exists_isBasicSolution (h : t.Canonical) (hB : t.IsBasis B) :
    ∃ y, t.IsBasicSolution B y ∧ t.Solves y ∧ (∀ j, 0 ≤ y j) ∧ t.stated y = t.objectiveValue := by
  obtain ⟨y, hsolves, hstated, hbasic⟩ := h.rectangular.states.exists_isBasicSolution hB
  exact ⟨y, hbasic, hsolves, hbasic.nonneg h.rhs_nonneg, hstated⟩

end Canonical

/-! ## Raising a column -/

/-- `y'` is a feasible point that differs from `y` by `s` in column `c` and otherwise in columns of
the basis only. The objective that row `0` states gains `s` times the magnitude of the entry of the
column. -/
structure Raised (t : Tableau ℚ) (B : ℕ → ℕ) (c : ℕ) (s : ℚ) (y y' : ℕ → ℚ) : Prop where
  solves : t.Solves y'
  nonneg : ∀ j, 0 ≤ y' j
  column_eq : y' c = y c + s
  other_eq : ∀ j ∉ t.basisColumns B, j ≠ c → y' j = y j
  stated_eq : t.stated y' = t.stated y + s * |t.entry 0 c|

/-- A column that is negative in row `0` and positive in no other row can be raised from every
feasible point. -/
theorem IsBasis.exists_raised (hB : t.IsBasis B) (hc : c < t.rhsCol) (h0 : t.entry 0 c < 0)
    (hcol : ∀ i, t.entry (i + 1) c ≤ 0) {y : ℕ → ℚ} (hy : t.Solves y) (hpos : ∀ j, 0 ≤ y j) {s : ℚ}
    (hs : 0 ≤ s) : ∃ y', t.Raised B c s y y' := by
  -- in every row the column of the basis makes up for the column that is raised
  obtain ⟨a, ha, hoff⟩ := hB.exists_assignment fun i => -(t.entry i c * s)
  have hrow : ∀ i, i + 1 < t.numRows → t.rowSum (i + 1) (Pi.single c s + a) = 0 := by
    intro i hi
    rw [rowSum_add, rowSum_single hc, hB.rowSum_eq hoff (Nat.succ_pos i) hi,
      ha _ (Nat.succ_pos i) hi, add_neg_cancel]
  have hrow0 : t.rowSum 0 (Pi.single c s + a) = t.entry 0 c * s := by
    rw [rowSum_add, rowSum_single hc, hB.rowSum_zero hoff, add_zero]
  have hsingle : ∀ j, 0 ≤ (Pi.single c s : ℕ → ℚ) j := by
    intro j
    rw [Pi.single_apply]
    split_ifs
    exacts [hs, le_rfl]
  have hrest : ∀ j, 0 ≤ a j := by
    refine forall_columns t B (fun i hi => ?_) fun j hj => (hoff j hj).ge
    rw [ha _ (Nat.succ_pos i) hi, neg_nonneg]
    exact mul_nonpos_of_nonpos_of_nonneg (hcol i) hs
  refine ⟨y + (Pi.single c s + a), ?_, fun j => ?_, ?_, fun j hj hjc => ?_, ?_⟩
  · exact solves_of_lt fun i hi => by rw [rowSum_add, hrow i hi, add_zero, hy i]
  · exact add_nonneg (hpos j) (add_nonneg (hsingle j) (hrest j))
  · rw [Pi.add_apply, Pi.add_apply, Pi.single_eq_same, hoff c (hB.notMem h0.ne), add_zero]
  · rw [Pi.add_apply, Pi.add_apply, Pi.single_eq_of_ne hjc, hoff j hj, add_zero, add_zero]
  · rw [stated, stated, rowSum_add, hrow0, abs_of_neg h0]
    ring

/-- Primal pivots lead from a tableau with a feasible basic solution to such tableaux only, and the
objective never gets lower. Wherever they lead, a column that may enter and has a row that leaves
can be pivoted on; one without such a row can be raised by any amount, from the basic solution and
from every other feasible point, and the objective gains that amount times the magnitude of its
entry in row `0`. -/
theorem Canonical.ascends (h : t.Canonical) (hrun : Relation.ReflTransGen PrimalPivot t t') :
    t'.Canonical ∧ t.objectiveValue ≤ t'.objectiveValue ∧
    ∀ (eligible : ℕ → Bool) (c : ℕ), t'.enteringWhere 0 eligible = some c →
      (∀ r, t'.leaving c 0 = some r → ∃ u, t'.pivot r c 0 = .ok u) ∧
      (t'.leaving c 0 = none → ∀ B, t'.IsBasis B →
        (∃ y, t'.IsBasicSolution B y ∧ t'.Solves y ∧ (∀ j, 0 ≤ y j) ∧
          t'.stated y = t'.objectiveValue) ∧
        ∀ y, t'.Solves y → (∀ j, 0 ≤ y j) → ∀ s, 0 ≤ s → ∃ y', t'.Raised B c s y y') := by
  obtain ⟨hcanonical, hle⟩ := h.run hrun
  refine ⟨hcanonical, hle, fun eligible c hcol => ⟨fun r hrow => exists_pivot_of_leaving hrow,
    fun hrow B hB => ⟨hcanonical.exists_isBasicSolution hB, fun y hy hpos s hs => ?_⟩⟩⟩
  obtain ⟨hc, -, hneg, -⟩ := hcanonical.rectangular.enteringWhere_eq_some hcol
  rw [neg_zero] at hneg
  refine hB.exists_raised hc hneg (fun i => ?_) hy hpos hs
  rcases Nat.lt_or_ge i t'.numConstraints with hi | hi
  · exact leaving_eq_none hrow i hi
  · rw [entry_of_numRows_le (Nat.succ_le_succ hi)]

/-- Two rows are equally tight and the step is zero; behind the pivot nothing limits the next
column. -/
theorem Canonical.ascends_degenerate :
    let t : Tableau ℚ := ⟨[-1, -1, 0, 0, 0], [[1, -1, 1, 0, 0], [1, -2, 0, 1, 0]]⟩
    let t' : Tableau ℚ := ⟨[0, -2, 1, 0, 0], [[1, -1, 1, 0, 0], [0, -1, -1, 1, 0]]⟩
    let B : ℕ → ℕ := fun i => if i = 1 then 0 else 3
    t.Canonical ∧ Relation.ReflTransGen PrimalPivot t t' ∧ t'.Canonical ∧
      t.objectiveValue ≤ t'.objectiveValue ∧ t'.enteringWhere 0 (fun _ => true) = some 1 ∧
      t'.leaving 1 0 = none ∧ t'.IsBasis B ∧ t'.Solves 0 ∧ ∃ y', t'.Raised B 1 5 0 y' := by
  intro t t' B
  have hbasic : ∀ i < 3, 0 < i → t.basicRow (i + 1) 0 = some i := by decide +kernel
  have hbasic' : ∀ i < 3, 0 < i → t'.basicRow (B i) 0 = some i := by decide +kernel
  have hrhs : ∀ (u : Tableau ℚ), (∀ i < 2, u.rhs (i + 1) = 0) → u.numRows = 3 →
      ∀ i, u.rhs (i + 1) = 0 := by
    intro u hu hrows i
    rcases Nat.lt_or_ge i 2 with hi | hi
    · exact hu i hi
    · exact entry_of_numRows_le (by omega) _
  have ht : t.Canonical := by
    refine ⟨by decide, fun i hi hlt => ⟨i + 1, ?_⟩, fun i => ?_⟩
    · have hlt' : i < 3 := hlt
      exact (basicRow_eq_some (show i + 1 < 4 by omega)).1 (hbasic i hlt hi)
    · exact (hrhs t (by decide +kernel) rfl i).ge
  have hB : t'.IsBasis B := fun i hi hlt =>
    (basicRow_eq_some (show B i < 4 by dsimp only [B]; split_ifs <;> omega)).1 (hbasic' i hlt hi)
  have hrun : Relation.ReflTransGen PrimalPivot t t' :=
    .single (.intro (fun _ => true) (c := 0) (r := 1) (by decide +kernel) (by decide +kernel)
      (by decide +kernel))
  have hcol : t'.enteringWhere 0 (fun _ => true) = some 1 := by decide +kernel
  have hrow : t'.leaving 1 0 = none := by decide +kernel
  have hsolves : t'.Solves 0 := fun i => by
    rw [rowSum_zero_right, hrhs t' (by decide +kernel) rfl i]
  obtain ⟨ht', hle, hnext⟩ := ht.ascends hrun
  obtain ⟨-, hraise⟩ := (hnext _ _ hcol).2 hrow B hB
  exact ⟨ht, hrun, ht', hle, hcol, hrow, hB, hsolves,
    hraise 0 hsolves (fun _ => le_rfl) 5 (by norm_num)⟩

end Tableau

/-! ## The methods -/

/-- The primal method makes primal pivots. -/
theorem PrimalSimplex.Pivots.primalPivots {t t' : Tableau ℚ} {ps : List (ℕ × ℕ)}
    (h : PrimalSimplex.Pivots 0 t ps t') : Relation.ReflTransGen Tableau.PrimalPivot t t' := by
  induction h with
  | nil t => exact .refl
  | cons hstep _ ih => exact .head (.intro _ hstep.entering hstep.leaving hstep.pivot) ih

/-- The second phase of the dual method makes primal pivots, on columns that are not artificial. -/
theorem Model.Ascends.primalPivots {m : Model ℚ} {t t' : Tableau ℚ}
    {ps : List (Tableau ℚ × ℕ × ℕ)} (h : m.Ascends 0 t ps t') :
    Relation.ReflTransGen Tableau.PrimalPivot t t' := by
  induction h with
  | nil => exact .refl
  | concat _ hplan ih =>
    obtain ⟨hcol, hrow⟩ := choices_of_optimalityPlan hplan
    obtain ⟨u, hpivot⟩ := Tableau.exists_pivot_of_leaving hrow
    obtain ⟨-, rfl⟩ := Tableau.pivot_eq_ok hpivot
    exact ih.tail (.intro _ hcol hrow hpivot)

end LinOpt
