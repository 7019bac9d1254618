import LinOpt.Proofs.Simplex.Dual.Represents
import LinOpt.Proofs.Simplex.Pivots
import LinOpt.Simplex.Dual.Phases

/-!
# What the phases show

Both phases are one loop, so one rule carries an invariant through them (`Progress.runPhase_rule`,
of the tableau alone `Progress.runPhase_invariant`): what the planned pivots keep holds at the end,
and the verdict is that of the plan there, or a limit. The plans are read off once
(`Model.feasibilityPlan_eq_pivot`, `Model.optimalityPlan_eq_settled` and their like).

At tolerance zero the tableau that the phases leave still stands for what the model stands for, and
it shows the verdict (`Progress.phases_spec`): `Model.Shows` says for every verdict what can be read
off the tableau, and `Stands.le_optimum`, `Stands.region_eq_empty` and `Stands.exists_gt` what
follows for the column values in the region of the model.
-/

namespace LinOpt

/-- How a phase ends at a tableau: by its plan or by a limit. -/
inductive Plan.Ends {α : Type} : Plan α → Verdict α → Prop where
  | settled {v : Verdict α} : Ends (.settled v) v
  | stuck {v : Verdict α} : Ends (.stuck v) v
  | limit {p : Plan α} (phase : Phase) (n : ℕ) : Ends p (.limit phase n)
  | interrupted {p : Plan α} (phase : Phase) : Ends p (.interrupted phase)

namespace Progress

variable {α : Type} [Scalar α]

/-- What planned pivots, questions and the report of a limit keep holds where a phase ends. -/
theorem runPhase_rule (c : Config α) (phase : Phase) (plan : Tableau α → Plan α)
    (P : Progress α → Prop) (hask : ∀ s, P s → P { s with journal := (c.ask s.journal).2 })
    (hstop : ∀ s k, P s → P { s with journal := c.emit s.journal (.dualStopped phase k) })
    (hstep : ∀ s k row col t, P s → plan s.tableau = .pivot row col →
      s.tableau.pivot row col c.tolerance = .ok t → P (s.pivoted c phase k row col t)) :
    ∀ (remaining k : ℕ) (s : Progress α), P s →
      let out := runPhase c phase plan remaining k s
      P out.1 ∧ ∀ v, out.2 = .ok v → (plan out.1.tableau).Ends v := by
  intro remaining
  induction remaining with
  | zero =>
    intro k s hs
    unfold runPhase
    cases hplan : plan s.tableau with
    | settled v =>
      refine ⟨hs, fun w hw => ?_⟩
      rw [← Except.ok.inj hw, hplan]
      exact .settled
    | stuck v => exact ⟨hstop _ _ hs, fun w hw => Except.ok.inj hw ▸ .limit _ _⟩
    | pivot row col => exact ⟨hstop _ _ hs, fun w hw => Except.ok.inj hw ▸ .limit _ _⟩
  | succ remaining ih =>
    intro k s hs
    unfold runPhase
    cases hplan : plan s.tableau with
    | settled v =>
      refine ⟨hs, fun w hw => ?_⟩
      rw [← Except.ok.inj hw, hplan]
      exact .settled
    | stuck v =>
      dsimp only
      split_ifs
      · exact ⟨hask _ hs, fun w hw => Except.ok.inj hw ▸ .interrupted _⟩
      · refine ⟨hask _ hs, fun w hw => ?_⟩
        rw [← Except.ok.inj hw]
        show (plan s.tableau).Ends v
        rw [hplan]
        exact .stuck
    | pivot row col =>
      dsimp only
      split_ifs
      · exact ⟨hask _ hs, fun w hw => Except.ok.inj hw ▸ .interrupted _⟩
      · cases hpivot : s.tableau.pivot row col c.tolerance with
        | error e => exact ⟨hask _ hs, fun w hw => (nomatch hw)⟩
        | ok t => exact ih (k + 1) _ (hstep _ (k + 1) row col t (hask _ hs) hplan hpivot)

/-- What the planned pivots, the questions and the reports of both phases keep holds at the end,
whatever the verdict. -/
theorem phases_rule (c : Config α) (m : Model α) {P : Progress α → Prop}
    (hask : ∀ s, P s → P { s with journal := (c.ask s.journal).2 })
    (hstop : ∀ phase s k, P s → P { s with journal := c.emit s.journal (.dualStopped phase k) })
    (hstep : ∀ phase s k row col t, P s → m.plan c.tolerance phase s.tableau = .pivot row col →
      s.tableau.pivot row col c.tolerance = .ok t → P (s.pivoted c phase k row col t))
    (s : Progress α) (hs : P s) : P (s.phases c m).1 := by
  have hphase : ∀ (phase : Phase) (s : Progress α), P s → P (s.phase c m phase).1 :=
    fun phase s hs =>
      (runPhase_rule c phase _ P hask (hstop phase) (hstep phase) (c.phaseLimit phase) 0 s hs).1
  have hfirst := hphase .feasibility s hs
  unfold phases
  split
  · rename_i s' hout
    rw [hout] at hfirst
    exact hphase .optimality s' hfirst
  · exact hfirst

/-- What the planned pivots keep of the tableau holds where a phase ends. -/
theorem runPhase_invariant (c : Config α) (phase : Phase) (plan : Tableau α → Plan α)
    (P : Tableau α → Prop) (hstep : ∀ t row col t', P t → plan t = .pivot row col →
      t.pivot row col c.tolerance = .ok t' → P t') (remaining k : ℕ) (s : Progress α)
    (hs : P s.tableau) :
    let out := runPhase c phase plan remaining k s
    P out.1.tableau ∧ ∀ v, out.2 = .ok v → (plan out.1.tableau).Ends v :=
  runPhase_rule c phase plan (fun s => P s.tableau) (fun _ => id) (fun _ _ => id)
    (fun s _ row col t => hstep s.tableau row col t) remaining k s hs

/-- What the planned pivots of both phases keep of the tableau holds at the end, whatever the
verdict. -/
theorem phases_invariant (c : Config α) (m : Model α) {P : Tableau α → Prop}
    (hstep : ∀ phase t row col t', P t → m.plan c.tolerance phase t = .pivot row col →
      t.pivot row col c.tolerance = .ok t' → P t')
    (s : Progress α) (hs : P s.tableau) : P (s.phases c m).1.tableau :=
  phases_rule c m (P := fun s => P s.tableau) (fun _ => id) (fun _ _ _ => id)
    (fun phase s _ row col t => hstep phase s.tableau row col t) s hs

/-- What a phase adds to the journal tells of no pivot of the other. -/
theorem pivots_phase_of_ne (c : Config α) (m : Model α) {phase phase' : Phase}
    (hne : phase ≠ phase') (s : Progress α) :
    (s.phase c m phase).1.journal.pivots (Event.dualPivot? phase') =
      s.journal.pivots (Event.dualPivot? phase') :=
  (runPhase_rule c phase (m.plan c.tolerance phase)
    (fun p => p.journal.pivots (Event.dualPivot? phase') =
      s.journal.pivots (Event.dualPivot? phase'))
    (fun _ => id)
    (fun p k hp => by rw [Journal.pivots_emit, hp]; simp [Event.dualPivot?])
    (fun p k row col t hp _ _ => by
      rw [pivoted, Journal.pivots_emit, hp]
      simp [Event.dualPivot?, hne])
    (c.phaseLimit phase) 0 s rfl).1

end Progress

namespace Model

open Tableau (HasBasis States)

variable {m : Model ℚ} {t : Tableau ℚ} {E : (ℕ → ℚ) → Prop} {z : (ℕ → ℚ) → ℚ}

/-! ## Plans -/

/-- The right-hand sides of the constraint rows, by position. -/
theorem getElem?_rhsColumn {α : Type} [Scalar α] {t : Tableau α} {i : ℕ} {v : α} :
    (t.rhsColumn.map some)[i]? = some (some v) ↔
      i < t.numConstraints ∧ t.rhs (i + 1) = v := by
  have hlen : t.rhsColumn.length = t.numConstraints := List.length_map _
  rw [Tableau.rhs_def, ← Tableau.getD_column, List.getElem?_map, ← Tableau.rhsColumn, ← hlen]
  rcases Nat.lt_or_ge i t.rhsColumn.length with hi | hi
  · rw [List.getElem?_eq_getElem hi, List.getD_eq_getElem _ _ hi]
    simp [hi]
  · rw [List.getElem?_eq_none hi]
    simp
    omega

/-- The ratios of the first phase, by column. -/
theorem getElem?_dualRatios (h : t.Rectangular) {i : ℕ} (hi : i < t.numRows) {tolerance : ℚ} {j : ℕ}
    {v : ℚ} : (((t.row i).take t.rhsCol).mapIdx fun col a =>
        if a < -tolerance && !m.isArtificial col then some (Scalar.abs (t.entry 0 col / a))
        else none)[j]? = some (some v) ↔
      j < t.rhsCol ∧ t.entry i j < -tolerance ∧ m.isArtificial j = false ∧
        |t.entry 0 j / t.entry i j| = v := by
  have hcol := h.rhsCol_succ
  have hlen := h.row_length hi
  rw [List.getElem?_mapIdx]
  rcases Nat.lt_or_ge j t.rhsCol with hj | hj
  · have hlt : j < (t.row i).length := by omega
    rw [List.getElem?_take_of_lt hj, List.getElem?_eq_getElem hlt]
    have he : (t.row i)[j] = t.entry i j := (List.getD_eq_getElem _ _ hlt).symm
    rw [he]
    by_cases hneg : t.entry i j < -tolerance <;> cases m.isArtificial j <;> simp [hneg, hj]
  · rw [List.getElem?_eq_none (by rw [List.length_take]; omega)]
    simp
    omega

/-- The first phase pivots on a negative right-hand side and a negative entry that is not in an
artificial column, the one with the least ratio. -/
theorem feasibilityPlan_eq_pivot (h : t.Rectangular) {row col : ℕ}
    (hplan : m.feasibilityPlan 0 t = .pivot row col) :
    0 < row ∧ col < t.rhsCol ∧ t.entry row col < 0 ∧ m.isArtificial col = false ∧
      ∀ j, j < t.rhsCol → t.entry row j < 0 → m.isArtificial j = false →
        |t.entry 0 col / t.entry row col| ≤ |t.entry 0 j / t.entry row j| := by
  unfold feasibilityPlan at hplan
  cases hmost : Tableau.mostNegative 0 (t.rhsColumn.map some) with
  | none => rw [hmost] at hplan; cases hplan
  | some e =>
    obtain ⟨i, b⟩ := e
    rw [hmost] at hplan
    dsimp only at hplan
    obtain ⟨hi, -⟩ := getElem?_rhsColumn.1 (Tableau.mostNegative_eq_some hmost).1
    split at hplan
    · cases hplan
    · rename_i k r hratio
      obtain ⟨rfl, rfl⟩ := Plan.pivot.inj hplan
      obtain ⟨hmem, hle⟩ := Tableau.leastRatio_eq_some hratio
      obtain ⟨hj, hneg, hart, rfl⟩ := (getElem?_dualRatios h (Nat.succ_lt_succ hi)).1 hmem
      refine ⟨Nat.succ_pos i, hj, by simpa using hneg, hart, fun l hl hlneg hlart => ?_⟩
      exact hle _ (List.mem_of_getElem? ((getElem?_dualRatios h (Nat.succ_lt_succ hi)).2
        ⟨hl, by simpa using hlneg, hlart, rfl⟩))

/-- The first phase is over when no right-hand side is negative. -/
theorem feasibilityPlan_eq_settled {v : Verdict ℚ} (hplan : m.feasibilityPlan 0 t = .settled v) :
    v = .done ∧ ∀ i, 0 ≤ t.rhs (i + 1) := by
  unfold feasibilityPlan at hplan
  cases hmost : Tableau.mostNegative 0 (t.rhsColumn.map some) with
  | none =>
    rw [hmost] at hplan
    refine ⟨(Plan.settled.inj hplan).symm, fun i => ?_⟩
    rcases Nat.lt_or_ge i t.numConstraints with hi | hi
    · have := Tableau.mostNegative_eq_none.1 hmost _
        (List.mem_of_getElem? (getElem?_rhsColumn.2 ⟨hi, rfl⟩))
      simpa using this
    · rw [Tableau.rhs_def, Tableau.entry_of_numRows_le (Nat.succ_le_succ hi)]
  | some e =>
    rw [hmost] at hplan
    dsimp only at hplan
    split at hplan <;> cases hplan

/-- The first phase is stuck at a negative right-hand side without a negative entry, artificial
columns apart. -/
theorem feasibilityPlan_eq_stuck (h : t.Rectangular) {v : Verdict ℚ}
    (hplan : m.feasibilityPlan 0 t = .stuck v) :
    ∃ i, v = .infeasible (i + 1) (t.rhs (i + 1)) ∧ t.rhs (i + 1) < 0 ∧
      ∀ j, j < t.rhsCol → m.isArtificial j = false → 0 ≤ t.entry (i + 1) j := by
  unfold feasibilityPlan at hplan
  cases hmost : Tableau.mostNegative 0 (t.rhsColumn.map some) with
  | none => rw [hmost] at hplan; cases hplan
  | some e =>
    obtain ⟨i, b⟩ := e
    rw [hmost] at hplan
    dsimp only at hplan
    obtain ⟨he, hneg, -⟩ := Tableau.mostNegative_eq_some hmost
    obtain ⟨hi, rfl⟩ := getElem?_rhsColumn.1 he
    split at hplan
    · rename_i hratio
      refine ⟨i, (Plan.stuck.inj hplan).symm, by simpa using hneg, fun j hj hart => ?_⟩
      by_contra hlt
      have hneg : t.entry (i + 1) j < -0 := by simpa using hlt
      exact Tableau.leastRatio_eq_none.1 hratio _ (List.mem_of_getElem?
        ((getElem?_dualRatios h (Nat.succ_lt_succ hi)).2 ⟨hj, hneg, hart, rfl⟩))
    · cases hplan

/-- The second phase pivots on the column that enters and the row that leaves, whatever the scalars
and the tolerance. -/
theorem choices_of_optimalityPlan {α : Type} [Scalar α] {m : Model α} {t : Tableau α}
    {tolerance : α} {row col : ℕ} (hplan : m.optimalityPlan tolerance t = .pivot row col) :
    t.enteringWhere tolerance (fun j => !m.isArtificial j) = some col ∧
      t.leaving col tolerance = some row := by
  unfold optimalityPlan at hplan
  split at hplan
  · cases hplan
  · rename_i hcol
    split at hplan
    · cases hplan
    · rename_i hrow
      obtain ⟨rfl, rfl⟩ := Plan.pivot.inj hplan
      exact ⟨hcol, hrow⟩

/-- The second phase pivots by the ratio test on a column that is not artificial. -/
theorem optimalityPlan_eq_pivot (h : t.Rectangular) {tolerance : ℚ} {row col : ℕ}
    (hplan : m.optimalityPlan tolerance t = .pivot row col) :
    col < t.rhsCol ∧ t.leaving col tolerance = some row := by
  obtain ⟨hcol, hrow⟩ := choices_of_optimalityPlan hplan
  exact ⟨(h.enteringWhere_eq_some hcol).1, hrow⟩

/-- The second phase is never stuck. -/
theorem optimalityPlan_ne_stuck {tolerance : ℚ} {v : Verdict ℚ} :
    m.optimalityPlan tolerance t ≠ .stuck v := by
  unfold optimalityPlan
  split
  · exact fun h => nomatch h
  · split <;> exact fun h => nomatch h

/-- The second phase is over when no column may enter, or when nothing limits the one that does,
which has the least entry of row `0`, artificial columns apart. -/
theorem optimalityPlan_eq_settled (h : t.Rectangular) {v : Verdict ℚ}
    (hplan : m.optimalityPlan 0 t = .settled v) :
    (v = .done ∧ ∀ j, j < t.rhsCol → m.isArtificial j = false → 0 ≤ t.entry 0 j) ∨
      ∃ c name, v = .unbounded c name ∧ c < t.rhsCol ∧ t.entry 0 c < 0 ∧
        (∀ i, t.entry (i + 1) c ≤ 0) ∧ m.isArtificial c = false ∧
          ∀ j, j < t.rhsCol → m.isArtificial j = false → t.entry 0 c ≤ t.entry 0 j := by
  unfold optimalityPlan at hplan
  split at hplan
  · rename_i hcol
    refine .inl ⟨(Plan.settled.inj hplan).symm, fun j hj hart => ?_⟩
    have := h.enteringWhere_eq_none.1 hcol j hj (by rw [hart]; rfl)
    simpa using this
  · rename_i c hcol
    obtain ⟨hlt, hart, hneg, hleast⟩ := h.enteringWhere_eq_some hcol
    split at hplan
    · rename_i hrow
      refine .inr ⟨c, _, (Plan.settled.inj hplan).symm, hlt, by simpa using hneg, fun i => ?_,
        by simpa using hart, fun j hj hjart => hleast j hj (by rw [hjart]; rfl)⟩
      rcases Nat.lt_or_ge i t.numConstraints with hi | hi
      · exact Tableau.leaving_eq_none hrow i hi
      · rw [Tableau.entry_of_numRows_le (Nat.succ_le_succ hi)]
    · cases hplan

/-- Both phases pivot on constraint rows, whatever the scalars and the tolerance. -/
theorem row_range_of_plan {α : Type} [Scalar α] {m : Model α} {t : Tableau α} {tolerance : α}
    {phase : Phase} {row col : ℕ} (hplan : m.plan tolerance phase t = .pivot row col) :
    0 < row ∧ row < t.numRows := by
  cases phase with
  | feasibility =>
    replace hplan : m.feasibilityPlan tolerance t = .pivot row col := hplan
    unfold feasibilityPlan at hplan
    split at hplan
    · cases hplan
    · rename_i hmost
      dsimp only at hplan
      split at hplan
      · cases hplan
      · obtain ⟨rfl, -⟩ := Plan.pivot.inj hplan
        obtain ⟨hlt, -⟩ := getElem?_rhsColumn.1 (Selection.firstBest_getElem? hmost)
        exact ⟨Nat.succ_pos _, Nat.succ_lt_succ hlt⟩
  | optimality =>
    replace hplan : m.optimalityPlan tolerance t = .pivot row col := hplan
    exact Tableau.leaving_range (choices_of_optimalityPlan hplan).2

/-! ## What a tableau shows -/

/-- What can be read off the tableau at a verdict. -/
inductive Shows (m : Model ℚ) (t : Tableau ℚ) : Verdict ℚ → Prop where
  | done (hrhs : ∀ i, 0 ≤ t.rhs (i + 1))
      (hred : ∀ j, j < t.rhsCol → m.isArtificial j = false → 0 ≤ t.entry 0 j) : Shows m t .done
  | infeasible {i : ℕ} (hneg : t.rhs (i + 1) < 0)
      (hrow : ∀ j, j < t.rhsCol → m.isArtificial j = false → 0 ≤ t.entry (i + 1) j) :
      Shows m t (.infeasible (i + 1) (t.rhs (i + 1)))
  | unbounded {c : ℕ} {name : Option ColumnName} (hrhs : ∀ i, 0 ≤ t.rhs (i + 1))
      (hc : c < t.rhsCol) (h0 : t.entry 0 c < 0) (hcol : ∀ i, t.entry (i + 1) c ≤ 0)
      (hart : m.isArtificial c = false)
      (hleast : ∀ j, j < t.rhsCol → m.isArtificial j = false → t.entry 0 c ≤ t.entry 0 j) :
      Shows m t (.unbounded c name)
  | limit (phase : Phase) (n : ℕ) : Shows m t (.limit phase n)
  | interrupted (phase : Phase) : Shows m t (.interrupted phase)

/-- At an optimum no right-hand side is negative. -/
theorem Shows.rhs_nonneg (h : m.Shows t .done) (i : ℕ) : 0 ≤ t.rhs (i + 1) := by
  cases h with
  | done hrhs => exact hrhs i

/-- Of the model only the kinds of columns matter. -/
theorem Shows.of_model {v : Verdict ℚ} (h : m.Shows t v) (t' : Tableau ℚ) :
    ({ m with tableau := t' } : Model ℚ).Shows t v := by
  cases h with
  | done hrhs hred => exact .done hrhs hred
  | infeasible hneg hrow => exact .infeasible hneg hrow
  | unbounded hrhs hc h0 hcol hart hleast => exact .unbounded hrhs hc h0 hcol hart hleast
  | limit phase n => exact .limit phase n
  | interrupted phase => exact .interrupted phase

/-- The tableau of a run: it stands for what the model stands for and is as large. -/
structure Carries (m : Model ℚ) (E : (ℕ → ℚ) → Prop) (z : (ℕ → ℚ) → ℚ) (t : Tableau ℚ) : Prop where
  states : t.States E z
  basis : t.HasBasis
  numRows_eq : t.numRows = m.tableau.numRows
  rhsCol_eq : t.rhsCol = m.tableau.rhsCol

/-- A model carries what it stands for before any pivot. -/
theorem Stands.carries (h : m.Stands E z) : m.Carries E z m.tableau :=
  ⟨h.states, h.basis, rfl, rfl⟩

/-- A tableau that is carried makes the same model anew. -/
theorem Carries.stands (h : m.Carries E z t) (hm : m.Stands E z) :
    ({ m with tableau := t } : Model ℚ).Stands E z :=
  ⟨h.states, h.basis, h.rhsCol_eq.trans hm.rhsCol_eq⟩

/-- Pivots on constraint rows keep what is carried. -/
theorem Carries.pivot (h : m.Carries E z t) {row col : ℕ} {t' : Tableau ℚ} (hrow : 0 < row)
    (hcol : col < t.rhsCol) (hp : t.pivot row col 0 = .ok t') : m.Carries E z t' := by
  obtain ⟨hne, rfl⟩ := Tableau.pivot_eq_ok hp
  have hne := abs_pos.1 hne
  obtain ⟨i, rfl⟩ : ∃ i, row = i + 1 := ⟨row - 1, by omega⟩
  refine ⟨h.states.eliminate hne, h.basis.eliminate h.states.rectangular hne hcol, ?_, ?_⟩
  · rw [Tableau.numRows_eliminate, h.numRows_eq]
  · rw [← h.rhsCol_eq]
    exact congrArg (· - 1) (h.states.rectangular.eliminate (Tableau.lt_numRows_of_entry_ne hne) _).2

end Model

namespace Progress

variable {c : Config ℚ} {m : Model ℚ} {E : (ℕ → ℚ) → Prop} {z : (ℕ → ℚ) → ℚ}

/-- The first phase carries the tableau on. It leaves no right-hand side negative, or the tableau
shows what else it ended with. -/
theorem feasibility_spec (ht : c.tolerance = 0) (s : Progress ℚ) (hs : m.Carries E z s.tableau) :
    let out := s.phase c m .feasibility
    m.Carries E z out.1.tableau ∧ ∀ v, out.2 = .ok v →
      (v = .done ∧ ∀ i, 0 ≤ out.1.tableau.rhs (i + 1)) ∨
        (v ≠ .done ∧ m.Shows out.1.tableau v) := by
  have hphase : s.phase c m .feasibility =
      runPhase c .feasibility (m.feasibilityPlan 0) c.maxPhase1Iterations 0 s := by
    rw [← ht]
    rfl
  rw [hphase]
  obtain ⟨hcar, hends⟩ := runPhase_invariant c .feasibility (m.feasibilityPlan 0)
    (m.Carries E z) (fun t row col t' hcar hplan hp => by
      obtain ⟨hrow, hcol, -, -⟩ := Model.feasibilityPlan_eq_pivot hcar.states.rectangular hplan
      rw [ht] at hp
      exact hcar.pivot hrow hcol hp) c.maxPhase1Iterations 0 s hs
  refine ⟨hcar, fun v hv => ?_⟩
  have hend := hends v hv
  generalize hplan : m.feasibilityPlan 0 _ = plan at hend
  cases hend with
  | settled => exact .inl (Model.feasibilityPlan_eq_settled hplan)
  | stuck =>
    obtain ⟨i, rfl, hneg, hrow⟩ := Model.feasibilityPlan_eq_stuck hcar.states.rectangular hplan
    exact .inr ⟨fun h => (nomatch h), .infeasible hneg hrow⟩
  | limit phase n => exact .inr ⟨fun h => (nomatch h), .limit phase n⟩
  | interrupted phase => exact .inr ⟨fun h => (nomatch h), .interrupted phase⟩

/-- The second phase keeps right-hand sides from turning negative, and the tableau shows what it
ends with. -/
theorem optimality_spec (ht : c.tolerance = 0) (s : Progress ℚ) (hs : m.Carries E z s.tableau)
    (hrhs : ∀ i, 0 ≤ s.tableau.rhs (i + 1)) :
    let out := s.phase c m .optimality
    m.Carries E z out.1.tableau ∧ ∀ v, out.2 = .ok v → m.Shows out.1.tableau v := by
  have hphase : s.phase c m .optimality =
      runPhase c .optimality (m.optimalityPlan 0) c.maxPhase2Iterations 0 s := by
    rw [← ht]
    rfl
  rw [hphase]
  obtain ⟨⟨hcar, hrhs⟩, hends⟩ := runPhase_invariant c .optimality (m.optimalityPlan 0)
    (fun t => m.Carries E z t ∧ ∀ i, 0 ≤ t.rhs (i + 1))
    (fun t row col t' ⟨hcar, hrhs⟩ hplan hp => by
      obtain ⟨hcol, hleave⟩ := Model.optimalityPlan_eq_pivot hcar.states.rectangular hplan
      obtain ⟨k, hk, -⟩ := Tableau.leaving_eq_some hleave
      rw [ht] at hp
      refine ⟨hcar.pivot (hk ▸ Nat.succ_pos k) hcol hp, fun i => ?_⟩
      rw [(Tableau.pivot_eq_ok hp).2]
      exact hcar.states.rectangular.rhs_nonneg_eliminate hrhs hleave i)
    c.maxPhase2Iterations 0 s ⟨hs, hrhs⟩
  refine ⟨hcar, fun v hv => ?_⟩
  have hend := hends v hv
  generalize hplan : m.optimalityPlan 0 _ = plan at hend
  cases hend with
  | settled =>
    rcases Model.optimalityPlan_eq_settled hcar.states.rectangular hplan with
      ⟨rfl, hred⟩ | ⟨col, name, rfl, hc, h0, hcol, hart, hleast⟩
    · exact .done hrhs hred
    · exact .unbounded hrhs hc h0 hcol hart hleast
  | stuck => exact absurd hplan Model.optimalityPlan_ne_stuck
  | limit phase n => exact .limit phase n
  | interrupted phase => exact .interrupted phase

/-- At tolerance zero the tableau that the phases leave is carried, and it shows the verdict. -/
theorem phases_spec (ht : c.tolerance = 0) (s : Progress ℚ) (hs : m.Carries E z s.tableau) :
    m.Carries E z (s.phases c m).1.tableau ∧
      ∀ v, (s.phases c m).2 = .ok v → m.Shows (s.phases c m).1.tableau v := by
  have hfirst := feasibility_spec ht s hs
  unfold phases
  split
  · rename_i s' hout
    rw [hout] at hfirst
    obtain ⟨hcar, hdone⟩ := hfirst
    have hrhs := (hdone .done rfl).resolve_right fun h => h.1 rfl
    exact optimality_spec ht s' hcar hrhs.2
  · rename_i hother
    refine ⟨hfirst.1, fun v hv => ?_⟩
    rcases hfirst.2 v hv with ⟨rfl, -⟩ | ⟨-, hshows⟩
    · exact (hother _ (Prod.ext rfl hv)).elim
    · exact hshows

end Progress
end LinOpt
