import LinOpt.Proofs.Tableau.Basis
import LinOpt.Simplex.Dual.Model

/-!
# Growing a tableau that was pivoted

A row that comes to a pivoted tableau has a column of its own (`Tableau.Grown`), and the tableau
keeps a basis if every old row has a basic column in which the new row is zero (`Grown.hasBasis`).
`Model.clearBasics` takes multiples of old rows from the new one, which at any tolerance keeps what
the tableau states (`Grown.clearBasics`). At tolerance zero it leaves a basis: since several columns
may be basic in one row, clearing one undoes another; the invariant is that every row keeps one
basic column in which the new row is zero, the last one cleared (`Clearing.covers`,
`Clearing.step`).

The penalty on an artificial column adds its multiple to what row `0` states (`States.penalize`).
-/

namespace LinOpt.Tableau

variable {t T : Tableau ℚ} {E : (ℕ → ℚ) → Prop} {z : (ℕ → ℚ) → ℚ}

/-! ## A row with its column -/

/-- `T` is `t` with one more row, which has a column of its own. -/
structure Grown (t T : Tableau ℚ) : Prop where
  rectangular : T.Rectangular
  numRows_eq : T.numRows = t.numRows + 1
  rhsCol_eq : T.rhsCol = t.rhsCol + 1
  old : ∀ i, i ≠ t.numRows → ∀ j, j ≤ t.rhsCol →
    T.entry i j = if j < t.rhsCol then t.entry i j else 0
  own : T.entry t.numRows t.rhsCol = 1

/-- A tableau grows by a row and a column of its own. -/
theorem Grown.grow (h : t.Rectangular) {r : List ℚ} (hr : r.length = t.rhsCol) (b : ℚ) :
    t.Grown (t.grow r b) where
  rectangular := h.grow hr b
  numRows_eq := t.numRows_grow r b
  rhsCol_eq := h.rhsCol_grow r b
  old i hi j hj := by
    rw [h.entry_grow_of_ne r b hi]
    split_ifs with h1 h2
    · rfl
    · rfl
    · omega
  own := t.entry_grow_rhsCol hr b

/-- The new row may lose multiples of old rows. -/
theorem Grown.subtractRow (h : t.Grown T) {b : ℕ} (hb : b < t.numRows) (f : ℚ) :
    t.Grown (T.subtractRow t.numRows b f) := by
  have hlt : t.numRows < T.numRows := by rw [h.numRows_eq]; exact Nat.lt_succ_self _
  have hr := h.rectangular.subtractRow t.numRows (hb.trans hlt) f
  have he := h.rectangular.entry_subtractRow hlt (hb.trans hlt) hb.ne' f
  refine ⟨hr.1, ?_, ?_, fun i hi j hj => ?_, ?_⟩
  · rw [numRows_subtractRow, h.numRows_eq]
  · rw [← h.rhsCol_eq]
    exact congrArg (· - 1) hr.2
  · rw [he, if_neg hi, h.old i hi j hj]
  · rw [he, if_pos rfl, h.own, h.old b hb.ne _ le_rfl, if_neg (lt_irrefl _)]
    ring

/-- The column of the new row is basic in it. -/
theorem Grown.basic_own (h : t.Grown T) : T.Basic t.numRows t.rhsCol where
  pos := t.numRows_pos
  lt := by rw [h.rhsCol_eq]; exact Nat.lt_succ_self _
  one := h.own
  zero k hk := by rw [h.old k hk _ le_rfl, if_neg (lt_irrefl _)]

/-- An old basic column stays so where the new row is zero. -/
theorem Grown.basic_old (h : t.Grown T) {i j : ℕ} (hb : t.Basic i j)
    (h0 : T.entry t.numRows j = 0) : T.Basic i j where
  pos := hb.pos
  lt := by rw [h.rhsCol_eq]; exact hb.lt.trans (Nat.lt_succ_self _)
  one := by rw [h.old i hb.row_lt.ne _ hb.lt.le, if_pos hb.lt, hb.one]
  zero k hk := by
    rcases eq_or_ne k t.numRows with rfl | hne
    · exact h0
    · rw [h.old k hne _ hb.lt.le, if_pos hb.lt, hb.zero k hk]

/-- A basis is kept if every old row has a basic column in which the new row is zero. -/
theorem Grown.hasBasis (h : t.Grown T)
    (hb : ∀ i, 0 < i → i < t.numRows → ∃ j, t.Basic i j ∧ T.entry t.numRows j = 0) :
    T.HasBasis := by
  intro i hi hlt
  rcases eq_or_ne i t.numRows with rfl | hne
  · exact ⟨_, h.basic_own⟩
  · have hlt : i < t.numRows := by
      have := h.numRows_eq
      omega
    obtain ⟨j, hj, h0⟩ := hb i hi hlt
    exact ⟨j, h.basic_old hj h0⟩

/-! ## Clearing the new row -/

/-- The state of clearing: the decision columns before `c` of `n` are done. -/
structure Clearing (t : Tableau ℚ) (n c : ℕ) (T : Tableau ℚ) : Prop where
  grown : t.Grown T
  /-- Every row with a basic column among those done, or behind the decision columns, has one in
  which the new row is zero. -/
  covers : ∀ i j, t.Basic i j → j < c ∨ n ≤ j →
    ∃ j', t.Basic i j' ∧ (j' < c ∨ n ≤ j') ∧ T.entry t.numRows j' = 0

/-- A column that is basic nowhere needs no clearing. -/
theorem Clearing.skip {n c : ℕ} (h : Clearing t n c T) (hc : ∀ i, ¬t.Basic i c) :
    Clearing t n (c + 1) T := by
  refine ⟨h.grown, fun i j hj hcase => ?_⟩
  have hne : j ≠ c := fun hjc => hc i (hjc ▸ hj)
  obtain ⟨j', hj', hcase', h0⟩ := h.covers i j hj (by omega)
  exact ⟨j', hj', by omega, h0⟩

/-- Clearing a basic column may undo only columns that are basic in the same row. -/
theorem Clearing.step {n c b : ℕ} (h : Clearing t n c T) (hb : t.Basic b c) :
    Clearing t n (c + 1) (T.subtractRow t.numRows b (T.entry t.numRows c)) := by
  have hlt : t.numRows < T.numRows := by rw [h.grown.numRows_eq]; exact Nat.lt_succ_self _
  have hblt := hb.row_lt
  have he := h.grown.rectangular.entry_subtractRow hlt (hblt.trans hlt) hblt.ne'
    (T.entry t.numRows c)
  have hrow : ∀ j, j < t.rhsCol → (T.subtractRow t.numRows b (T.entry t.numRows c)).entry
      t.numRows j = T.entry t.numRows j - T.entry t.numRows c * t.entry b j := by
    intro j hj
    rw [he, if_pos rfl, h.grown.old b hblt.ne j hj.le, if_pos hj]
  refine ⟨h.grown.subtractRow hblt _, fun i j hj hcase => ?_⟩
  by_cases hib : i = b
  · subst hib
    refine ⟨c, hb, .inl (Nat.lt_succ_self c), ?_⟩
    rw [hrow c hb.lt, hb.one]
    ring
  · have hne : j ≠ c := fun hjc => hib ((hjc ▸ hj).row_unique hb)
    obtain ⟨j', hj', hcase', h0⟩ := h.covers i j hj (by omega)
    refine ⟨j', hj', by omega, ?_⟩
    rw [hrow j' hj'.lt, h0, hj'.zero b (Ne.symm hib)]
    ring

/-- The basic rows of the first columns, each with its column. -/
theorem zipIdx_map_range {β : Type} (f : ℕ → β) (n : ℕ) :
    ((List.range n).map f).zipIdx = (List.range n).map fun j => (f j, j) := by
  induction n with
  | zero => rfl
  | succ n ih => simp [List.range_succ, List.zipIdx_append, ih]

/-- Clearing takes multiples of old rows from the new row only. So at any tolerance the new row
keeps its column, and the tableau states what it did. -/
theorem Grown.clearBasics (tolerance : ℚ) {basics : List (Option ℕ)}
    (hb : ∀ b, some b ∈ basics → 0 < b ∧ b < t.numRows) (hT : t.Grown T) (hs : T.States E z) :
    let T' := Model.clearBasics tolerance t.numRows basics T
    t.Grown T' ∧ T'.States E z := by
  refine List.foldlRecOn _ _ (motive := fun T => t.Grown T ∧ T.States E z) ⟨hT, hs⟩
    fun T₁ ⟨hgrown, hstates⟩ e he => ?_
  obtain ⟨basic, col⟩ := e
  cases basic with
  | none => exact ⟨hgrown, hstates⟩
  | some b =>
    obtain ⟨hpos, hlt⟩ := hb b (List.fst_mem_of_mem_zipIdx he)
    dsimp only
    split_ifs
    · refine ⟨hgrown.subtractRow hlt _, ?_⟩
      obtain ⟨b, rfl⟩ := Nat.exists_eq_succ_of_ne_zero hpos.ne'
      have hnum := hgrown.numRows_eq
      obtain ⟨r, hr⟩ : ∃ r, t.numRows = r + 1 := ⟨_, Tableau.numRows_eq t⟩
      rw [hr] at hlt hnum ⊢
      exact hstates.subtractRow (by omega) (by omega) (by omega) _
    · exact ⟨hgrown, hstates⟩

/-- Clearing the decision columns one by one ends with all of them done. -/
theorem Clearing.clearBasics {n : ℕ} (hn : n ≤ t.rhsCol) (hT : Clearing t n 0 T) : ∀ c, c ≤ n →
    Clearing t n c (Model.clearBasics 0 t.numRows ((List.range c).map (t.basicRow · 0)) T) := by
  intro c
  induction c with
  | zero => exact fun _ => hT
  | succ c ih =>
    intro hc
    have hclear := ih (by omega)
    rw [Model.clearBasics, zipIdx_map_range] at hclear ⊢
    rw [List.range_succ, List.map_append, List.foldl_append]
    generalize ((List.range c).map fun j => (t.basicRow j 0, j)).foldl _ T = T₁ at *
    have hlt : c < t.rhsCol := by omega
    rw [List.map_singleton, List.foldl_cons, List.foldl_nil]
    dsimp only
    cases hbasic : t.basicRow c 0 with
    | none =>
      refine hclear.skip fun i hi => ?_
      rw [(basicRow_eq_some hlt).2 hi] at hbasic
      cases hbasic
    | some b =>
      have hstep := hclear.step ((basicRow_eq_some hlt).1 hbasic)
      dsimp only
      split_ifs with hf
      · exact hstep
      · -- the new row is zero there already
        have h0 : T₁.entry t.numRows c = 0 := by
          simpa only [Scalar.abs_rat, gt_iff_lt, abs_pos, not_not] using hf
        rw [h0] at hstep
        simpa [subtractRow] using hstep

/-! ## Penalties -/

/-- A penalty keeps the shape. -/
theorem Rectangular.penalize {α : Type} [Scalar α] {t : Tableau α} (h : t.Rectangular) {i c : ℕ}
    (hi : i < t.numRows) (bigM : α) :
    (t.penalize i c bigM).Rectangular ∧ (t.penalize i c bigM).numCols = t.numCols := by
  obtain ⟨hs, hcols⟩ := h.set 0 c bigM
  obtain ⟨hr, hcols'⟩ := hs.subtractRow 0 (i := i) (by simpa using hi) bigM
  exact ⟨hr, hcols'.trans hcols⟩

@[simp] theorem numRows_penalize {α : Type} [Scalar α] (t : Tableau α) (i c : ℕ) (bigM : α) :
    (t.penalize i c bigM).numRows = t.numRows := by simp [penalize]

/-- The penalty stands in the objective row, cleared in its column. -/
theorem Rectangular.entry_penalize (h : t.Rectangular) {i c : ℕ} (hi : 0 < i) (hlt : i < t.numRows)
    (hc : c < t.numCols) (bigM : ℚ) (k j : ℕ) : (t.penalize i c bigM).entry k j =
      if k = 0 then (if j = c then bigM else t.entry 0 j) - bigM * t.entry i j
        else t.entry k j := by
  have hs := (h.set 0 c bigM).1
  rw [Tableau.penalize, hs.entry_subtractRow (by simp [numRows_pos]) (by simpa using hlt) hi.ne,
    h.entry_set t.numRows_pos hc, h.entry_set t.numRows_pos hc, h.entry_set t.numRows_pos hc]
  split_ifs <;> first | rfl | omega

/-- A penalty on a basic column is subtracted from the objective that row `0` states. -/
theorem States.penalize (h : t.States E z) {i c : ℕ} (hb : t.Basic i c) (bigM : ℚ) :
    (t.penalize i c bigM).States E fun y => z y - bigM * y c := by
  have hrect := h.rectangular
  have hlt := hb.row_lt
  have hr := hrect.penalize (c := c) hlt bigM
  have hcol : (t.penalize i c bigM).rhsCol = t.rhsCol := congrArg (· - 1) hr.2
  have hc : c < t.numCols := by rw [← hrect.rhsCol_succ]; exact hb.lt.trans (Nat.lt_succ_self _)
  have he := hrect.entry_penalize hb.pos hlt hc bigM
  have hsum : ∀ k y, (t.penalize i c bigM).rowSum (k + 1) y = t.rowSum (k + 1) y := fun k y =>
    rowSum_congr hcol (fun j => by rw [he, if_neg (Nat.succ_ne_zero k)]) y
  refine ⟨hr.1, fun y => ?_, fun y hy => ?_⟩
  · rw [← h.solves_iff]
    refine forall_congr' fun k => ?_
    rw [hsum, rhs_def, hcol, he, if_neg (Nat.succ_ne_zero k)]
    rfl
  · obtain ⟨k, rfl⟩ := Nat.exists_eq_add_one_of_ne_zero hb.pos.ne'
    have hrow : t.rowSum (k + 1) y = t.rhs (k + 1) := (h.solves_iff y).2 hy k
    have hobj := h.objective_eq y hy
    -- only the entry of the column itself changes before it is cleared
    have hterm : ∀ j ∈ Finset.range t.rhsCol, (t.penalize (k + 1) c bigM).entry 0 j * y j =
        t.entry 0 j * y j - bigM * (t.entry (k + 1) j * y j) +
          if j = c then bigM * y c else 0 := by
      intro j _
      rw [he, if_pos rfl]
      split_ifs with hj
      · subst hj
        rw [hb.zero 0 (Nat.succ_ne_zero k).symm]
        ring
      · ring
    have h0 : (t.penalize (k + 1) c bigM).rowSum 0 y =
        t.rowSum 0 y - bigM * t.rhs (k + 1) + bigM * y c := by
      rw [rowSum, hcol, Finset.sum_congr rfl hterm, Finset.sum_add_distrib, Finset.sum_sub_distrib,
        ← Finset.mul_sum, Finset.sum_ite_eq', if_pos (Finset.mem_range.2 hb.lt), ← hrow]
      rfl
    have hvalue : (t.penalize (k + 1) c bigM).objectiveValue =
        t.objectiveValue - bigM * t.rhs (k + 1) := by
      rw [objectiveValue, rhs_def, hcol, he, if_pos rfl, if_neg hb.lt.ne']
      rfl
    rw [h0, hvalue, ← hobj]
    ring

/-- The penalized column stays basic, and so does every column that is basic in another row. -/
theorem Basic.penalize (h : t.Rectangular) {i c k j : ℕ} (hb : t.Basic i c) (hj : t.Basic k j)
    (hne : k = i → j = c) (bigM : ℚ) : (t.penalize i c bigM).Basic k j := by
  have hlt := hb.row_lt
  have hr := h.penalize (c := c) hlt bigM
  have hc : c < t.numCols := by rw [← h.rhsCol_succ]; exact hb.lt.trans (Nat.lt_succ_self _)
  have he := h.entry_penalize hb.pos hlt hc bigM
  refine ⟨hj.pos, ?_, ?_, fun l hl => ?_⟩
  · exact hj.lt.trans_eq (congrArg (· - 1) hr.2.symm)
  · rw [he, if_neg hj.pos.ne', hj.one]
  · rw [he]
    split_ifs with hl0 hjc
    · subst hjc
      rw [hb.one]
      ring
    · have hki : k ≠ i := fun hki => hjc (hne hki)
      rw [hj.zero 0 hj.pos.ne, hj.zero i (Ne.symm hki)]
      ring
    · exact hj.zero l hl

/-- A penalty keeps a basis. -/
theorem HasBasis.penalize (hbasis : t.HasBasis) (h : t.Rectangular) {i c : ℕ} (hb : t.Basic i c)
    (bigM : ℚ) : (t.penalize i c bigM).HasBasis := by
  intro k hk hlt
  rw [numRows_penalize] at hlt
  by_cases hki : k = i
  · subst hki
    exact ⟨c, hb.penalize h hb (fun _ => rfl) bigM⟩
  · obtain ⟨j, hj⟩ := hbasis k hk hlt
    exact ⟨j, hb.penalize h hj (fun h' => absurd h' hki) bigM⟩

end LinOpt.Tableau
