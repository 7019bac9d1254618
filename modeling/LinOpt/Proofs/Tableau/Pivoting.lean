import LinOpt.Proofs.Tableau.Basis

/-!
# What a pivot does

A pivot either refuses its element, and then there is no other tableau, or it gives a tableau of the
same shape and the same solutions in which its column is basic in its row (`Tableau.Pivoted`). Row
`0` states the same objective at every solution, because both tableaux state the same system. A
column that is zero in the row is not touched. What was basic in the row before leads back: a pivot
on it divides by the reciprocal of the first element and adds what was subtracted
(`Tableau.Rectangular.eliminate_eliminate`), and a rectangular tableau is known by its entries
(`Tableau.ext_entry`).
-/

namespace LinOpt.Tableau

variable {t t' : Tableau ℚ} {i c b : ℕ} {tolerance : ℚ}

/-! ## Tableaux by their entries -/

/-- Rows of one length are known by their entries. -/
theorem ext_getD {r s : List ℚ} (hlen : r.length = s.length)
    (h : ∀ j, r.getD j 0 = s.getD j 0) : r = s :=
  List.ext_getElem hlen fun j hj hj' => by
    rw [← List.getD_eq_getElem r 0 hj, ← List.getD_eq_getElem s 0 hj', h j]

/-- Rectangular tableaux of one size are known by their entries. -/
theorem ext_entry (ht : t.Rectangular) (ht' : t'.Rectangular) (hrows : t.numRows = t'.numRows)
    (hcols : t.numCols = t'.numCols) (h : ∀ k j, t.entry k j = t'.entry k j) : t = t' := by
  have hrow : ∀ k < t.numRows, t.row k = t'.row k := by
    intro k hk
    refine ext_getD ?_ (h k)
    rw [ht.row_length hk, ht'.row_length (hrows ▸ hk), hcols]
  have hconstraints : t.constraints = t'.constraints := by
    refine List.ext_getElem (Nat.succ.inj hrows) fun k hk hk' => ?_
    have hk := hrow (k + 1) (Nat.succ_lt_succ hk)
    rwa [row_succ, row_succ, List.getD_eq_getElem _ _ ‹_›, List.getD_eq_getElem _ _ hk'] at hk
  have hobjective : t.objective = t'.objective := hrow 0 t.numRows_pos
  cases t
  cases t'
  subst hobjective hconstraints
  rfl

/-! ## The objective -/

/-- The value of the objective that row `0` states at an assignment. -/
def stated (t : Tableau ℚ) (y : ℕ → ℚ) : ℚ := t.objectiveValue - t.rowSum 0 y

/-- A tableau states its own rows. -/
theorem Rectangular.states (h : t.Rectangular) : t.States t.Solves t.stated :=
  ⟨h, fun _ => Iff.rfl, fun _ _ => add_sub_cancel _ _⟩

/-! ## One pivot -/

/-- What a pivot on row `i` and column `c` makes of a tableau: its shape and its solutions are kept,
column `c` is the unit vector of row `i`, row `0` states the same objective at every solution, and
the columns that are zero in row `i` are as they were. -/
structure Pivoted (t : Tableau ℚ) (i c : ℕ) (t' : Tableau ℚ) : Prop where
  rectangular : t'.Rectangular
  numRows_eq : t'.numRows = t.numRows
  numCols_eq : t'.numCols = t.numCols
  basic : t'.Basic i c
  solves_iff : ∀ y, t'.Solves y ↔ t.Solves y
  stated_eq : ∀ y, t.Solves y → t'.stated y = t.stated y
  column_eq : ∀ j, t.entry i j = 0 → ∀ k, t'.entry k j = t.entry k j

/-- Eliminating by an entry that is not zero is a pivot. -/
theorem Rectangular.pivoted_eliminate (h : t.Rectangular) (hp : t.entry (i + 1) c ≠ 0)
    (hc : c < t.rhsCol) : t.Pivoted (i + 1) c (t.eliminate (i + 1) c) where
  rectangular := (h.eliminate (lt_numRows_of_entry_ne hp) c).1
  numRows_eq := numRows_eliminate t (i + 1) c
  numCols_eq := (h.eliminate (lt_numRows_of_entry_ne hp) c).2
  basic := h.basic_eliminate hp hc
  solves_iff := h.solves_eliminate hp
  stated_eq y hy := sub_eq_iff_eq_add'.2 ((h.states.eliminate hp).objective_eq y hy).symm
  column_eq j hj k := by
    rw [h.entry_eliminate hp, hj, zero_div, mul_zero, sub_zero]
    split_ifs with hk
    · rw [hk, hj]
    · rfl

/-- A pivot is undone by one on the column that was basic in the row. -/
theorem Rectangular.eliminate_eliminate (h : t.Rectangular) (hp : t.entry i c ≠ 0)
    (hb : t.Basic i b) : (t.eliminate i c).entry i b = 1 / t.entry i c ∧
      (t.eliminate i c).eliminate i b = t := by
  obtain ⟨hrect, hcols⟩ := h.eliminate (lt_numRows_of_entry_ne hp) c
  have hback : (t.eliminate i c).entry i b = 1 / t.entry i c := by
    rw [h.entry_eliminate hp, if_pos rfl, hb.one]
  have hne : (t.eliminate i c).entry i b ≠ 0 := hback ▸ one_div_ne_zero hp
  obtain ⟨hrect', hcols'⟩ := hrect.eliminate (lt_numRows_of_entry_ne hne) b
  refine ⟨hback, ext_entry hrect' h (by simp) (hcols'.trans hcols) fun k j => ?_⟩
  rw [hrect.entry_eliminate hne, hback, h.entry_eliminate hp i j, if_pos rfl]
  split_ifs with hk
  · rw [hk]
    field_simp
  · rw [h.entry_eliminate hp, if_neg hk, h.entry_eliminate hp, if_neg hk, hb.zero k hk, hb.one]
    field_simp
    ring

/-! ## Refused and not refused -/

/-- A pivot is refused for its element, and only within the tolerance. -/
theorem pivot_eq_error {e : Error ℚ} :
    t.pivot i c tolerance = .error e ↔
      |t.entry i c| ≤ tolerance ∧ e = .degeneratePivot i c (t.entry i c) := by
  rw [pivot_eq]
  split_ifs with hp
  · exact iff_of_false (fun h => nomatch h) fun h => absurd hp h.1.not_gt
  · exact ⟨fun h => ⟨not_lt.1 hp, (Except.error.inj h).symm⟩, fun h => h.2 ▸ rfl⟩

/-- A pivot on a constraint row is refused exactly if its element is within the tolerance of zero,
and then the tableau stays as it is. Otherwise the column becomes the unit vector of the row; the
solutions, the objective and the columns that are zero in the row are kept; and a pivot on a column
that was the unit vector of the row before, if it is not refused, gives the tableau back. -/
theorem Rectangular.pivot_spec (h : t.Rectangular) (hi : 0 < i) (hc : c < t.rhsCol)
    (ht : 0 ≤ tolerance) :
    ((∃ e, t.pivot i c tolerance = .error e) ↔ |t.entry i c| ≤ tolerance) ∧
    (∀ e, t.pivot i c tolerance = .error e → e = .degeneratePivot i c (t.entry i c) ∧
      (pivotInPlace i c tolerance).state t = t) ∧
    ∀ t', t.pivot i c tolerance = .ok t' → t.Pivoted i c t' ∧
      ∀ b, t.Basic i b → tolerance < |1 / t.entry i c| → t'.pivot i b tolerance = .ok t := by
  refine ⟨⟨fun ⟨e, he⟩ => (pivot_eq_error.1 he).1, fun hle => ⟨_, pivot_eq_error.2 ⟨hle, rfl⟩⟩⟩,
    fun e he => ⟨(pivot_eq_error.1 he).2, (careful_pivotInPlace i c tolerance).state_eq he⟩,
    fun t' ht' => ?_⟩
  obtain ⟨hlt, rfl⟩ := pivot_eq_ok ht'
  have hp : t.entry i c ≠ 0 := abs_pos.1 (ht.trans_lt hlt)
  refine ⟨?_, fun b hb hback => ?_⟩
  · obtain ⟨k, rfl⟩ := Nat.exists_eq_succ_of_ne_zero hi.ne'
    exact h.pivoted_eliminate hp hc
  · obtain ⟨hentry, hundo⟩ := h.eliminate_eliminate hp hb
    rw [pivot_eq, hundo]
    exact if_pos (hentry ▸ hback)

/-- A column takes the place of a slack column and gives it back; a zero beside it is refused. -/
theorem Rectangular.pivot_spec_slack :
    let t : Tableau ℚ := ⟨[-3, -5, 0, 0, 0], [[1, 2, 1, 0, 4], [3, 1, 0, 1, 6]]⟩
    let t' : Tableau ℚ := ⟨[-1 / 2, 0, 5 / 2, 0, 10],
      [[1 / 2, 1, 1 / 2, 0, 2], [5 / 2, 0, -1 / 2, 1, 4]]⟩
    t.pivot 1 1 (1 / 10) = .ok t' ∧ t.Pivoted 1 1 t' ∧ t'.pivot 1 2 (1 / 10) = .ok t ∧
      |t.entry 1 3| ≤ 1 / 10 ∧ (∃ e, t.pivot 1 3 (1 / 10) = .error e) ∧
      (pivotInPlace 1 3 (1 / 10)).state t = t := by
  intro t t'
  have ht : t.Rectangular := by decide
  have hpivot : t.pivot 1 1 (1 / 10) = .ok t' := by decide +kernel
  have hslack : t.Basic 1 2 := (basicRow_eq_some (by decide)).1 (by decide +kernel)
  have hzero : |t.entry 1 3| ≤ 1 / 10 := by decide +kernel
  obtain ⟨-, -, hpivoted⟩ :=
    ht.pivot_spec (i := 1) (c := 1) (by decide) (by decide) (by norm_num : (0 : ℚ) ≤ 1 / 10)
  obtain ⟨hrefused, hkept, -⟩ :=
    ht.pivot_spec (i := 1) (c := 3) (by decide) (by decide) (by norm_num : (0 : ℚ) ≤ 1 / 10)
  obtain ⟨hspec, hundo⟩ := hpivoted t' hpivot
  obtain ⟨e, he⟩ := hrefused.2 hzero
  exact ⟨hpivot, hspec, hundo 2 hslack (by decide +kernel), hzero, ⟨e, he⟩, (hkept e he).2⟩

end LinOpt.Tableau
