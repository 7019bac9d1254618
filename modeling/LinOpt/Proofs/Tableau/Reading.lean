import LinOpt.Proofs.Tableau.Basis

/-!
# Reading values off a tableau

The solvers read the value of a column from the row in which it is alone (`Tableau.Reads`): the
right-hand side of a row in which it is basic or, for columns that may show with the sign of a
negated row, the negative of the right-hand side of a row in which it is `-1`. All other columns
read as zero.

What is read need not be a solution, because several columns can be read from one row. The reading
gives the left-hand side of a row its right-hand side once for every column read from it
(`rowSum_reading`), so over a basis it is a solution exactly if no row that has a value is read
twice (`HasBasis.solves_reading_iff`). Then it is the basic solution: not negative if no right-hand
side is (`ReadsOnce.reading_nonneg`), and with the objective of row `0`
(`States.reading_objective`).
-/

namespace LinOpt.Tableau

variable {t : Tableau ℚ} {signed : ℕ → Bool} {E : (ℕ → ℚ) → Prop} {z : (ℕ → ℚ) → ℚ}

/-- Column `j` is read from row `i`. -/
structure Reads (t : Tableau ℚ) (signed : ℕ → Bool) (i j : ℕ) : Prop where
  pos : 0 < i
  lt : j < t.rhsCol
  unit : t.entry i j = 1 ∨ signed j ∧ t.entry i j = -1
  zero : ∀ k, k ≠ i → t.entry k j = 0

/-- No row with a value is read for two columns. -/
def ReadsOnce (t : Tableau ℚ) (signed : ℕ → Bool) : Prop :=
  ∀ i j j', t.Reads signed i j → t.Reads signed i j' → t.rhs i ≠ 0 → j = j'

/-- The value read for a column; behind the columns there is none. -/
def reading (t : Tableau ℚ) (signed : ℕ → Bool) (j : ℕ) : ℚ :=
  if j < t.rhsCol then
    match t.basicRow j 0 with
    | some i => t.rhs i
    | none =>
      if signed j then
        match t.unitRow j (-1) 0 with
        | some i => -t.rhs i
        | none => 0
      else 0
  else 0

/-- A basic column is read from its row. -/
theorem Basic.reads {i j : ℕ} (h : t.Basic i j) : t.Reads signed i j :=
  ⟨h.pos, h.lt, .inl h.one, h.zero⟩

/-- A column that is read from a row has an entry there. -/
theorem Reads.entry_ne {i j : ℕ} (h : t.Reads signed i j) : t.entry i j ≠ 0 := by
  rcases h.unit with h1 | ⟨-, h1⟩ <;> rw [h1] <;> norm_num

/-- A column is read from one row at most. -/
theorem Reads.row_unique {i k j : ℕ} (h : t.Reads signed i j) (h' : t.Reads signed k j) :
    i = k := by
  by_contra hik
  exact h.entry_ne (h'.zero i hik)

/-- The value of a column that is read. -/
theorem Reads.reading_eq {i j : ℕ} (h : t.Reads signed i j) :
    t.reading signed j = t.entry i j * t.rhs i := by
  rw [reading, if_pos h.lt]
  rcases h.unit with h1 | ⟨hs, h1⟩
  · rw [(basicRow_eq_some h.lt).2 ⟨h.pos, h.lt, h1, h.zero⟩, h1, one_mul]
  · have hbasic : t.basicRow j 0 = none := by
      refine Option.eq_none_iff_forall_ne_some.2 fun k hk => ?_
      have hb := (basicRow_eq_some h.lt).1 hk
      obtain rfl := Reads.row_unique hb.reads h
      have := hb.one.symm.trans h1
      norm_num at this
    rw [hbasic, if_pos hs, (unitRow_eq_some (by norm_num)).2 ⟨h.pos, h1, h.zero⟩, h1]
    ring

/-- A column that is not read has no value. -/
theorem reading_eq_zero {j : ℕ} (h : ∀ i, ¬t.Reads signed i j) : t.reading signed j = 0 := by
  by_cases hj : j < t.rhsCol
  · rw [reading, if_pos hj]
    cases hbasic : t.basicRow j 0 with
    | some i => exact absurd ((basicRow_eq_some hj).1 hbasic).reads (h i)
    | none =>
      by_cases hs : signed j
      · rw [if_pos hs]
        cases hunit : t.unitRow j (-1) 0 with
        | some i =>
          obtain ⟨hi, h1, h0⟩ := (unitRow_eq_some (by norm_num)).1 hunit
          exact absurd ⟨hi, hj, .inr ⟨hs, h1⟩, h0⟩ (h i)
        | none => rfl
      · rw [if_neg hs]
  · rw [reading, if_neg hj]

open Classical in
/-- The columns read from a row. -/
noncomputable def readers (t : Tableau ℚ) (signed : ℕ → Bool) (i : ℕ) : Finset ℕ :=
  (Finset.range t.rhsCol).filter (t.Reads signed i)

/-- The columns that are read from a row. -/
theorem mem_readers {i j : ℕ} : j ∈ t.readers signed i ↔ t.Reads signed i j := by
  classical
  rw [readers, Finset.mem_filter, Finset.mem_range]
  exact ⟨fun h => h.2, fun h => ⟨h.lt, h⟩⟩

/-- Every column read from a row contributes the right-hand side of the row. -/
theorem rowSum_reading (t : Tableau ℚ) (signed : ℕ → Bool) (i : ℕ) :
    t.rowSum i (t.reading signed) = (t.readers signed i).card * t.rhs i := by
  classical
  have hterm : ∀ j ∈ Finset.range t.rhsCol, t.entry i j * t.reading signed j =
      if t.Reads signed i j then t.rhs i else 0 := by
    intro j _
    by_cases hread : ∃ k, t.Reads signed k j
    · obtain ⟨k, hk⟩ := hread
      rw [hk.reading_eq]
      split_ifs with hi
      · obtain rfl := hi.row_unique hk
        rcases hi.unit with h1 | ⟨-, h1⟩ <;> rw [h1] <;> ring
      · have hne : i ≠ k := fun hik => hi (hik ▸ hk)
        rw [hk.zero i hne, zero_mul]
    · have hnone : ∀ k, ¬t.Reads signed k j := fun k hk => hread ⟨k, hk⟩
      rw [reading_eq_zero hnone, mul_zero, if_neg (hnone i)]
  rw [rowSum, Finset.sum_congr rfl hterm, ← Finset.sum_filter, Finset.sum_const, nsmul_eq_mul]
  rfl

/-- Over a basis the reading is a solution exactly if no row with a value is read twice. -/
theorem HasBasis.solves_reading_iff (hb : t.HasBasis) :
    t.Solves (t.reading signed) ↔ t.ReadsOnce signed := by
  constructor
  · intro hs i j j' hj hj' hne
    obtain ⟨k, rfl⟩ := Nat.exists_eq_add_one_of_ne_zero hj.pos.ne'
    have hcard := hs k
    rw [rowSum_reading] at hcard
    have hone : ((t.readers signed (k + 1)).card : ℚ) = 1 :=
      mul_right_cancel₀ hne (by rw [hcard, one_mul])
    obtain ⟨a, ha⟩ := Finset.card_eq_one.1 (by exact_mod_cast hone)
    have hmem : ∀ l, t.Reads signed (k + 1) l → l = a := by
      intro l hl
      have := mem_readers.2 hl
      rwa [ha, Finset.mem_singleton] at this
    rw [hmem j hj, hmem j' hj']
  · intro honce k
    rw [rowSum_reading]
    rcases eq_or_ne (t.rhs (k + 1)) 0 with h0 | hne
    · rw [h0, mul_zero]
    · obtain ⟨j, hj⟩ := hb (k + 1) (Nat.succ_pos k) (lt_numRows_of_entry_ne hne)
      have hsingle : t.readers signed (k + 1) = {j} := by
        ext l
        rw [mem_readers, Finset.mem_singleton]
        exact ⟨fun hl => honce _ l j hl hj.reads hne, fun hl => hl ▸ hj.reads⟩
      rw [hsingle, Finset.card_singleton, Nat.cast_one, one_mul]

/-- Read once, the values are not negative if no right-hand side is: a row with a value is read for
its basic column. -/
theorem ReadsOnce.reading_nonneg (h : t.ReadsOnce signed) (hb : t.HasBasis)
    (hrhs : ∀ i, 0 ≤ t.rhs (i + 1)) (j : ℕ) : 0 ≤ t.reading signed j := by
  by_cases hread : ∃ i, t.Reads signed i j
  · obtain ⟨i, hi⟩ := hread
    obtain ⟨k, rfl⟩ := Nat.exists_eq_add_one_of_ne_zero hi.pos.ne'
    rw [hi.reading_eq]
    rcases eq_or_ne (t.rhs (k + 1)) 0 with h0 | hne
    · rw [h0, mul_zero]
    · obtain ⟨b, hbasic⟩ := hb (k + 1) (Nat.succ_pos k) (lt_numRows_of_entry_ne hne)
      rw [h _ j b hi hbasic.reads hne, hbasic.one, one_mul]
      exact hrhs k
  · rw [reading_eq_zero fun i hi => hread ⟨i, hi⟩]

/-- The reading gives row `0` nothing, so the objective there is the one that the tableau shows. -/
theorem States.reading_objective (h : t.States E z) (hE : E (t.reading signed)) :
    z (t.reading signed) = t.objectiveValue := by
  have hzero : t.readers signed 0 = ∅ :=
    Finset.eq_empty_of_forall_notMem fun j hj => absurd (mem_readers.1 hj).pos (lt_irrefl 0)
  have hsum : t.rowSum 0 (t.reading signed) = 0 := by
    rw [rowSum_reading, hzero, Finset.card_empty, Nat.cast_zero, zero_mul]
  have := h.objective_eq _ hE
  rwa [hsum, zero_add] at this

end LinOpt.Tableau
