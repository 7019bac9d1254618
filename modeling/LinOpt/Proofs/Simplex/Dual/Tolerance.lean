import LinOpt.Proofs.Simplex.Dual.Refusal
import LinOpt.Proofs.Simplex.Dual.Shape

/-!
# Feasibility within a tolerance

The first phase leaves every right-hand side within the tolerance of what it may be, and the second
ends with every reduced cost so, artificial columns apart. But pivots of the second phase need not
keep the right-hand sides: the ratio test leaves out the rows with an entry that is within the
tolerance of zero, and however small such an entry is, a long step takes more from the row than it
has. The rows that the test looks at are safe. So a pivot keeps the right-hand sides exactly if its
step is and if it takes no more than it may from the rows left out
(`Tableau.Rectangular.isFeasible_eliminate_iff`). The second phase starts where the first one ends,
and the journal tells of its pivots, so an optimum is feasible within the tolerance exactly if the
last one told of is such (`DualSimplex.optimal_isFeasible_iff`). At tolerance zero every pivot is.
-/

namespace LinOpt

/-! ## One pivot -/

namespace Tableau

variable {t : Tableau ℚ} {tolerance : ℚ} {row col : ℕ}

/-- A tableau is feasible exactly if no right-hand side is below the negative tolerance. -/
theorem isFeasible_iff :
    t.IsFeasible tolerance ↔ ∀ i < t.numConstraints, -tolerance ≤ t.rhs (i + 1) := by
  constructor
  · intro h i hi
    have hmem := List.mem_of_getElem? (Model.getElem?_rhsColumn.2 ⟨hi, rfl⟩)
    obtain ⟨b, hb, heq⟩ := List.mem_map.1 hmem
    exact Option.some.inj heq ▸ h b hb
  · intro h b hb
    obtain ⟨i, hi⟩ := List.mem_iff_getElem?.1 (List.mem_map_of_mem (f := some) hb)
    obtain ⟨hlt, rfl⟩ := Model.getElem?_rhsColumn.1 hi
    exact h i hlt

/-- A pivot keeps the right-hand sides within the tolerance: its step is, and what it takes from the
rows that the ratio test leaves out is no more than they have. -/
structure Keeps (t : Tableau ℚ) (tolerance : ℚ) (row col : ℕ) : Prop where
  step : -tolerance ≤ t.rhs row / t.entry row col
  left_out : ∀ i < t.numConstraints, t.entry (i + 1) col ≤ tolerance →
    t.entry (i + 1) col * (t.rhs row / t.entry row col) ≤ t.rhs (i + 1) + tolerance

/-- The right-hand sides after an elimination. -/
theorem Rectangular.rhs_eliminate (h : t.Rectangular) (hp : t.entry row col ≠ 0) (i : ℕ) :
    (t.eliminate row col).rhs i =
      if i = row then t.rhs row / t.entry row col
      else t.rhs i - t.entry i col * (t.rhs row / t.entry row col) := by
  have hcol : (t.eliminate row col).rhsCol = t.rhsCol :=
    congrArg (· - 1) (h.eliminate (lt_numRows_of_entry_ne hp) col).2
  rw [rhs_def, hcol, h.entry_eliminate hp]
  rfl

/-- A pivot by the ratio test leaves a tableau that is feasible within the tolerance exactly if it
keeps the right-hand sides. The rows that the test looks at are left with what is not negative. -/
theorem Rectangular.isFeasible_eliminate_iff (h : t.Rectangular) (ht : 0 ≤ tolerance)
    (hleave : t.leaving col tolerance = some row) :
    (t.eliminate row col).IsFeasible tolerance ↔ t.Keeps tolerance row col := by
  obtain ⟨k, rfl, hk, hpos, hleast⟩ := leaving_eq_some hleave
  have hp : t.entry (k + 1) col ≠ 0 := (ht.trans_lt hpos).ne'
  have hsize : (t.eliminate (k + 1) col).numConstraints = t.numConstraints :=
    Nat.succ_injective (numRows_eliminate t (k + 1) col)
  rw [isFeasible_iff, hsize]
  simp only [h.rhs_eliminate hp]
  constructor
  · intro hfeas
    refine ⟨by simpa using hfeas k hk, fun i hi hle => ?_⟩
    have hik : i + 1 ≠ k + 1 := by
      rintro hik
      rw [hik] at hle
      exact absurd hpos (not_lt.2 hle)
    have hi := hfeas i hi
    rw [if_neg hik] at hi
    linarith
  · intro hkeeps i hi
    split_ifs with hik
    · exact hkeeps.step
    · rcases le_or_gt (t.entry (i + 1) col) tolerance with hle | hgt
      · have := hkeeps.left_out i hi hle
        linarith
      · have hentry := ht.trans_lt hgt
        have hmul := mul_le_mul_of_nonneg_left (hleast i hi hgt) hentry.le
        rw [mul_div_cancel₀ _ hentry.ne'] at hmul
        linarith

/-- At tolerance zero every pivot by the ratio test keeps the right-hand sides. -/
theorem IsFeasible.keeps_zero (h : t.IsFeasible 0) (hleave : t.leaving col 0 = some row) :
    t.Keeps 0 row col := by
  obtain ⟨k, rfl, hk, hpos, -⟩ := leaving_eq_some hleave
  have hrhs := isFeasible_iff.1 h
  rw [neg_zero] at hrhs
  have hstep := div_nonneg (hrhs k hk) hpos.le
  refine ⟨by rwa [neg_zero], fun i hi hle => ?_⟩
  have := mul_nonpos_of_nonpos_of_nonneg hle hstep
  have := hrhs i hi
  linarith

end Tableau

/-! ## Runs of the second phase -/

namespace Model

variable {m : Model ℚ} {t t' : Tableau ℚ} {tolerance : ℚ} {ps : List (Tableau ℚ × ℕ × ℕ)}

/-- Pivots of the second phase, one after the other: the tableaux that they are made at, with their
rows and columns. -/
inductive Ascends (m : Model ℚ) (tolerance : ℚ) (t : Tableau ℚ) :
    List (Tableau ℚ × ℕ × ℕ) → Tableau ℚ → Prop where
  | nil : Ascends m tolerance t [] t
  | concat {ps : List (Tableau ℚ × ℕ × ℕ)} {t' : Tableau ℚ} {row col : ℕ}
      (h : Ascends m tolerance t ps t') (hplan : m.optimalityPlan tolerance t' = .pivot row col) :
      Ascends m tolerance t (ps ++ [(t', row, col)]) (t'.eliminate row col)

namespace Ascends

/-- Of the model only the kinds of columns matter. -/
theorem of_model (h : m.Ascends tolerance t ps t') (u : Tableau ℚ) :
    ({ m with tableau := u } : Model ℚ).Ascends tolerance t ps t' := by
  induction h with
  | nil => exact .nil
  | concat _ hplan ih => exact .concat ih hplan

/-- Pivots keep a tableau rectangular. -/
theorem rectangular (h : m.Ascends tolerance t ps t') (hr : t.Rectangular) : t'.Rectangular := by
  induction h with
  | nil => exact hr
  | concat _ hplan ih =>
    have hplan : m.plan tolerance .optimality _ = .pivot _ _ := hplan
    exact (ih.eliminate (row_range_of_plan hplan).2 _).1

/-- The first pivot is made at the tableau that the phase starts from. -/
theorem head_eq (h : m.Ascends tolerance t ps t') : (ps.head?.map (·.1)).getD t' = t := by
  induction h with
  | nil => rfl
  | @concat ps _ _ _ _ _ ih => cases ps <;> exact ih

/-- Behind the first phase a tableau of the second is feasible within the tolerance exactly if the
pivot that led to it keeps the right-hand sides. -/
theorem isFeasible_iff (h : m.Ascends tolerance t ps t') (ht : 0 ≤ tolerance)
    (hr : t.Rectangular) (hfeas : t.IsFeasible tolerance) :
    t'.IsFeasible tolerance ↔
      ∀ u row col, ps.getLast? = some (u, row, col) → u.Keeps tolerance row col := by
  cases h with
  | nil => exact ⟨fun _ u row col h => (nomatch h), fun _ => hfeas⟩
  | concat h hplan =>
    have hr' := h.rectangular hr
    rw [hr'.isFeasible_eliminate_iff ht (optimalityPlan_eq_pivot hr' hplan).2,
      List.getLast?_concat]
    constructor
    · intro hkeeps u row col hlast
      obtain ⟨rfl, rfl, rfl⟩ := by simpa using hlast
      exact hkeeps
    · exact fun hlast => hlast _ _ _ rfl

/-- At tolerance zero the second phase keeps the tableau feasible. -/
theorem isFeasible_zero (h : m.Ascends 0 t ps t') (hr : t.Rectangular) (hfeas : t.IsFeasible 0) :
    t'.IsFeasible 0 := by
  induction h with
  | nil => exact hfeas
  | concat h hplan ih =>
    have hr' := h.rectangular hr
    have hleave := (optimalityPlan_eq_pivot hr' hplan).2
    exact (hr'.isFeasible_eliminate_iff le_rfl hleave).2 (ih.keeps_zero hleave)

end Ascends

/-! ## The ends of the phases -/

/-- The first phase is done when the tableau is feasible within the tolerance. -/
theorem isFeasible_of_feasibilityPlan (h : (m.feasibilityPlan tolerance t).Ends .done) :
    t.IsFeasible tolerance := by
  unfold feasibilityPlan at h
  cases hmost : Tableau.mostNegative tolerance (t.rhsColumn.map some) with
  | none =>
    exact fun b hb => Tableau.mostNegative_eq_none.1 hmost b (List.mem_map_of_mem hb)
  | some e =>
    rw [hmost] at h
    dsimp only at h
    split at h <;> cases h

/-- The second phase is done when no reduced cost lies below the tolerance, artificial columns
apart. -/
theorem le_entry_of_optimalityPlan (hr : t.Rectangular)
    (h : (m.optimalityPlan tolerance t).Ends .done) :
    ∀ j, j < t.rhsCol → m.isArtificial j = false → -tolerance ≤ t.entry 0 j := by
  unfold optimalityPlan at h
  split at h
  · rename_i hcol
    exact fun j hj hart => hr.enteringWhere_eq_none.1 hcol j hj (by rw [hart]; rfl)
  · split at h <;> cases h

end Model

namespace Progress

variable {c : Config ℚ} {m : Model ℚ}

/-- The second phase runs to where it ends, by the pivots that it adds to the journal. -/
theorem phase_optimality_ascends (s : Progress ℚ) :
    let out := s.phase c m .optimality
    (∃ ps, m.Ascends c.tolerance s.tableau ps out.1.tableau ∧
      out.1.journal.pivots (Event.dualPivot? .optimality) =
        s.journal.pivots (Event.dualPivot? .optimality) ++ ps.map (·.2)) ∧
      ∀ v, out.2 = .ok v → (m.optimalityPlan c.tolerance out.1.tableau).Ends v :=
  runPhase_rule c .optimality (m.optimalityPlan c.tolerance)
    (fun p => ∃ ps, m.Ascends c.tolerance s.tableau ps p.tableau ∧
      p.journal.pivots (Event.dualPivot? .optimality) =
        s.journal.pivots (Event.dualPivot? .optimality) ++ ps.map (·.2))
    (fun _ => id)
    (fun p k ⟨ps, hrun, hpivots⟩ =>
      ⟨ps, hrun, by rw [Journal.pivots_emit, hpivots]; simp [Event.dualPivot?]⟩)
    (fun p k row col t' ⟨ps, hrun, hpivots⟩ hplan hp => by
      obtain ⟨-, rfl⟩ := Tableau.pivot_eq_ok hp
      refine ⟨_, hrun.concat hplan, ?_⟩
      rw [pivoted, Journal.pivots_emit, hpivots]
      simp [Event.dualPivot?])
    (c.phaseLimit .optimality) 0 s ⟨[], .nil, (List.append_nil _).symm⟩

/-- Where both phases are done, the first left a feasible tableau, and the second came from there to
the end by the pivots that are added to the journal. -/
theorem phases_done {s : Progress ℚ} (hr : s.tableau.Rectangular)
    (h : (s.phases c m).2 = .ok .done) :
    let first := s.phase c m .feasibility
    let out := (s.phases c m).1
    (first.2 = .ok .done ∧ first.1.tableau.Rectangular ∧ first.1.tableau.IsFeasible c.tolerance) ∧
      (∀ j, j < out.tableau.rhsCol → m.isArtificial j = false →
        -c.tolerance ≤ out.tableau.entry 0 j) ∧
      ∃ ps, m.Ascends c.tolerance first.1.tableau ps out.tableau ∧
        out.journal.pivots (Event.dualPivot? .optimality) =
          s.journal.pivots (Event.dualPivot? .optimality) ++ ps.map (·.2) := by
  obtain ⟨hr₁, hends₁⟩ : (s.phase c m .feasibility).1.tableau.Rectangular ∧ ∀ v,
      (s.phase c m .feasibility).2 = .ok v →
        (m.feasibilityPlan c.tolerance (s.phase c m .feasibility).1.tableau).Ends v :=
    runPhase_invariant c .feasibility (m.plan c.tolerance .feasibility) Tableau.Rectangular
      (fun t row col t' hr hplan hp => by
        obtain ⟨-, rfl⟩ := Tableau.pivot_eq_ok hp
        exact (hr.eliminate (Model.row_range_of_plan hplan).2 col).1) _ 0 s hr
  have hpivots₁ : (s.phase c m .feasibility).1.journal.pivots (Event.dualPivot? .optimality) =
      s.journal.pivots (Event.dualPivot? .optimality) :=
    pivots_phase_of_ne c m Phase.noConfusion s
  unfold phases at h ⊢
  generalize s.phase c m .feasibility = first at h hr₁ hends₁ hpivots₁ ⊢
  obtain ⟨s₁, verdict⟩ := first
  by_cases hdone : verdict = .ok .done
  · subst hdone
    dsimp only at h hr₁ hpivots₁ ⊢
    obtain ⟨⟨ps, hrun, hpivots⟩, hends⟩ := phase_optimality_ascends (c := c) (m := m) s₁
    rw [hpivots₁] at hpivots
    exact ⟨⟨rfl, hr₁, Model.isFeasible_of_feasibilityPlan (hends₁ _ rfl)⟩,
      Model.le_entry_of_optimalityPlan (hrun.rectangular hr₁) (hends _ h), ps, hrun, hpivots⟩
  · refine absurd ?_ hdone
    split at h
    · rename_i hmk
      exact (Prod.mk.inj hmk).2
    · exact h

end Progress

/-! ## Optima -/

/-- Only phases that are done end with an optimum. -/
theorem Model.conclude_done {m : Model ℚ} {c : Config ℚ} {trail : Solution ℚ} {v : Verdict ℚ}
    (h : (m.conclude c trail v).status = .optimal) : v = .done := by
  unfold conclude at h
  cases v with
  | done => rfl
  | infeasible | unbounded | limit | interrupted => cases h

namespace Session

variable {s : Session ℚ} {c : Config ℚ} {j : Journal ℚ} {sol : Solution ℚ}

/-- The first phase of an optimization. -/
def firstPhase {α : Type} [Scalar α] (s : Session α) (c : Config α) (j : Journal α) :
    Progress α × Except (Error α) (Verdict α) :=
  Progress.phase ⟨s.model.tableau, s.trail, s.pivots, j⟩ c s.model .feasibility

/-- An optimum is read off a tableau that the second phase came to from a feasible one, by the
pivots that are added to the journal. -/
theorem optimize_optimal (hr : s.model.tableau.Rectangular)
    (h : (s.optimize c j).result = .ok sol) (hopt : sol.status = .optimal) :
    let first := s.firstPhase c j
    let m := (s.optimize c j).state.model
    sol.tableau = some m.tableau ∧
      (first.2 = .ok .done ∧ first.1.tableau.Rectangular ∧
        first.1.tableau.IsFeasible c.tolerance) ∧
      (∀ j, j < m.tableau.rhsCol → m.isArtificial j = false →
        -c.tolerance ≤ m.tableau.entry 0 j) ∧
      ∃ ps, m.Ascends c.tolerance first.1.tableau ps m.tableau ∧
        (s.optimize c j).journal.pivots (Event.dualPivot? .optimality) =
          j.pivots (Event.dualPivot? .optimality) ++ ps.map (·.2) := by
  have hdone := Progress.phases_done (c := c) (m := s.model)
    (s := ⟨s.model.tableau, s.trail, s.pivots, j⟩) hr
  unfold optimize at h ⊢
  rw [firstPhase]
  generalize Progress.phases _ c s.model = out at h hdone ⊢
  obtain ⟨p, verdict⟩ := out
  cases verdict with
  | error e => cases h
  | ok v =>
    obtain rfl := Except.ok.inj h
    obtain rfl := Model.conclude_done hopt
    obtain ⟨hfirst, hred, ps, hrun, hpivots⟩ := hdone rfl
    refine ⟨(Model.conclude_optimal hopt).1, hfirst, hred, ps, hrun.of_model _, ?_⟩
    dsimp only
    rw [Journal.pivots_emit, hpivots]
    simp [Event.dualPivot?]

end Session

namespace DualSimplex

section Requests

variable {α : Type} [Scalar α] {c : Config α} {P : Model α → Posed α → Prop} {d : DualSimplex α}
  {o : Option (Posed α)}

/-- The session that a request is optimized in, and the journal at that time: a problem gets a
session of its own, and a constraint is added to that of the problem solved last. -/
def entry (d : DualSimplex α) (j : Journal α) : Request α → Except (Error α) (Session α × Journal α)
  | .solve p => Session.start d.config p j
  | .add k =>
    match d.session with
    | none => .error .noPriorSolve
    | some s => (s.model.extend d.config k).map fun m =>
      let added : AddedConstraint α := ⟨k, (AuxColumn.ofRow s.model.counts k).name⟩
      (⟨m, d.config.record (.added added) (.tableau m.tableau) (s.trail.log (.added added)),
        s.pivots⟩, d.config.emit j (.constraintAdded added))

/-- A constraint is added to the model of the session before it is recorded and reported. -/
theorem entry_add_eq_ok {k : Constraint α} {j j' : Journal α} {s : Session α}
    (h : d.entry j (.add k) = .ok (s, j')) :
    ∃ s₀ m, d.session = some s₀ ∧ s₀.model.extend d.config k = .ok m ∧
      let added : AddedConstraint α := ⟨k, (AuxColumn.ofRow s₀.model.counts k).name⟩
      s = ⟨m, d.config.record (.added added) (.tableau m.tableau) (s₀.trail.log (.added added)),
        s₀.pivots⟩ ∧ j' = d.config.emit j (.constraintAdded added) := by
  obtain ⟨conf, session⟩ := d
  cases session with
  | none => cases h
  | some s₀ =>
    simp only [entry] at h
    cases hext : s₀.model.extend conf k with
    | error e =>
      rw [hext] at h
      cases h
    | ok m =>
      rw [hext] at h
      obtain ⟨rfl, rfl⟩ := Prod.mk.inj (Except.ok.inj h)
      exact ⟨s₀, m, rfl, hext, rfl, rfl⟩

/-- A request is answered by an optimization of its entry. -/
theorem request_of_entry {r : Request α} {j j' : Journal α} {s : Session α}
    (h : d.entry j r = .ok (s, j')) : d.request r j = d.after (s.optimize d.config j') := by
  cases r with
  | solve p =>
    rw [entry] at h
    rw [DualSimplex.request, DualSimplex.solve, h]
  | add k =>
    obtain ⟨s₀, m, hs, hext, rfl, rfl⟩ := entry_add_eq_ok h
    simp only [DualSimplex.request, DualSimplex.addConstraint, Session.addConstraint, hs, hext]

/-- What is reported before the optimization tells of no pivots. -/
theorem pivots_entry {r : Request α} {j j' : Journal α} {s : Session α}
    (h : d.entry j r = .ok (s, j')) (phase : Phase) :
    j'.pivots (Event.dualPivot? phase) = j.pivots (Event.dualPivot? phase) := by
  cases r with
  | solve p =>
    obtain ⟨m, -, -, rfl⟩ := Session.start_eq_ok h
    simp [Event.dualPivot?]
  | add k =>
    obtain ⟨s₀, m, -, -, -, rfl⟩ := entry_add_eq_ok h
    simp [Event.dualPivot?]

/-- What is answered to a request is answered in its entry, and what is kept holds of the model
there. -/
theorem Holds.exists_entry (hP : Model.Kept c P) (h : Holds c P d o) {r : Request α}
    {j : Journal α} {sol : Solution α} (hsol : (d.request r j).result = .ok sol) :
    ∃ (s : Session α) (j' : Journal α) (q : Posed α), d.entry j r = .ok (s, j') ∧ P s.model q := by
  obtain ⟨conf, session⟩ := d
  obtain rfl : conf = c := h.config_eq
  cases r with
  | solve p =>
    simp only [DualSimplex.request, DualSimplex.solve] at hsol
    cases hstart : Session.start conf p j with
    | error e => rw [hstart] at hsol; cases hsol
    | ok started => exact ⟨started.1, started.2, _, hstart, Session.start_kept hP hstart⟩
  | add k =>
    cases h with
    | idle => cases hsol
    | @session s q h =>
      simp only [DualSimplex.request, DualSimplex.addConstraint, Session.addConstraint] at hsol
      simp only [entry]
      cases hext : s.model.extend conf k with
      | error e => rw [hext] at hsol; cases hsol
      | ok m => exact ⟨_, _, _, rfl, hP.extend h hext⟩

end Requests

variable {c : Config ℚ}

/-- An optimum that is reported after any history of requests, at any tolerance, has no reduced cost
below the negative tolerance, artificial columns apart. The first phase of the optimization that
answered the request left a tableau that is feasible within the tolerance, and the second came from
there to the final tableau by the pivots that it added to the journal. The final tableau is feasible
within the tolerance too exactly if the last of these pivots, if any, keeps the right-hand sides; at
tolerance zero it always is. -/
theorem optimal_isFeasible_iff (ht : 0 ≤ c.tolerance) (history : List (Request ℚ × Journal ℚ))
    {r : Request ℚ} {j : Journal ℚ} {sol : Solution ℚ}
    (hsol : ((run ⟨c, none⟩ history).request r j).result = .ok sol) (hopt : sol.status = .optimal) :
    let d := run ⟨c, none⟩ history
    ∃ s₀ j₀ s t ps, d.entry j r = .ok (s₀, j₀) ∧
      run ⟨c, none⟩ (history ++ [(r, j)]) = ⟨c, some s⟩ ∧ sol.tableau = some t ∧
      (∀ j, j < t.rhsCol → s.model.isArtificial j = false → -c.tolerance ≤ t.entry 0 j) ∧
      let first := s₀.firstPhase c j₀
      first.2 = .ok .done ∧ first.1.tableau.IsFeasible c.tolerance ∧
      s.model.Ascends c.tolerance first.1.tableau ps t ∧
      (d.request r j).journal.pivots (Event.dualPivot? .optimality) =
        j.pivots (Event.dualPivot? .optimality) ++ ps.map (·.2) ∧
      (t.IsFeasible c.tolerance ↔
        ∀ u row col, ps.getLast? = some (u, row, col) → u.Keeps c.tolerance row col) ∧
      (c.tolerance = 0 → t.IsFeasible 0) := by
  intro d
  have hd : Holds c Model.Aligned d (Request.posed history) :=
    Holds.run (Model.kept_aligned c) history
  obtain ⟨s₀, j₀, q, hentry, haligned⟩ := hd.exists_entry (Model.kept_aligned c) hsol
  have hrequest := request_of_entry hentry
  rw [hd.config_eq] at hrequest
  have hresult : (s₀.optimize c j₀).result = .ok sol := by
    rw [← hsol]
    exact (congrArg (·.result) hrequest).symm
  obtain ⟨htableau, ⟨hdone, hr₁, hfeas⟩, hred, ps, hrun, hpivots⟩ :=
    Session.optimize_optimal haligned.rectangular hresult hopt
  rw [pivots_entry hentry] at hpivots
  refine ⟨s₀, j₀, (s₀.optimize c j₀).state, _, ps, hentry, ?_, htableau, hred, hdone, hfeas, hrun,
    ?_, hrun.isFeasible_iff ht hr₁ hfeas, fun hzero => ?_⟩
  · rw [run_concat, hrequest, after, hd.config_eq]
  · rw [hrequest]
    exact hpivots
  · rw [hzero] at hrun hfeas
    exact hrun.isFeasible_zero hr₁ hfeas

/-- At a tolerance of `10 ^ -9`, of the two bounds `x₁ ≤ 2 ^ 40` and `x₁ / 2 ^ 34 ≤ 1` the ratio
test leaves out the second, which is the tighter one. The only pivot, in the tableau that the first
phase leaves, takes all but `-63` from its row. -/
theorem optimal_isFeasible_iff_bounds :
    let p : Problem ℚ :=
      { Problem.ofObjective .maximize [1] with
        constraints := [⟨[1], .le, 1099511627776⟩, ⟨[1 / 17179869184], .le, 1⟩] }
    let c : Config ℚ := { Config.exact with tolerance := 1 / 1000000000 }
    let d := run ⟨c, none⟩ []
    ∃ (s₀ : Session ℚ) (j₀ : Journal ℚ) (sol : Solution ℚ) (t : Tableau ℚ),
      d.entry {} (.solve p) = .ok (s₀, j₀) ∧
      (d.request (.solve p) {}).result = .ok sol ∧ sol.status = .optimal ∧
      sol.tableau = some t ∧ t.rhsColumn = [1099511627776, -63] ∧ ¬t.IsFeasible c.tolerance ∧
      (d.request (.solve p) {}).journal.pivots (Event.dualPivot? .optimality) = [(1, 0)] ∧
      ¬(s₀.firstPhase c j₀).1.tableau.Keeps c.tolerance 1 0 := by
  intro p c d
  have ht : 0 ≤ c.tolerance := by
    show (0 : ℚ) ≤ 1 / 1000000000
    norm_num
  have hrun : (d.request (.solve p) {}).result.toOption.map
      (fun sol => (sol.status, sol.tableau.map (·.rhsColumn))) =
        some (.optimal, some [1099511627776, -63]) := by decide +kernel
  have hjournal : (d.request (.solve p) {}).journal.pivots (Event.dualPivot? .optimality) =
      [(1, 0)] := by decide +kernel
  obtain ⟨sol, hsol, hread⟩ := exists_ok_of_map hrun
  obtain ⟨hopt, hrhs⟩ := Prod.mk.inj hread
  obtain ⟨s₀, j₀, s, t, ps, hentry, -, htableau, -, -, -, hascends, hpivots, hiff, -⟩ :=
    optimal_isFeasible_iff ht [] hsol hopt
  rw [htableau] at hrhs
  have hrhs : t.rhsColumn = [1099511627776, -63] := Option.some.inj hrhs
  have hfeas : ¬t.IsFeasible c.tolerance := by
    unfold Tableau.IsFeasible
    rw [hrhs]
    decide +kernel
  -- the journal has one pivot, so the last one is made at the tableau of the first phase
  obtain ⟨⟨u, row, col⟩, rfl, hone⟩ : ∃ e, ps = [e] ∧ e.2 = (1, 0) :=
    List.map_eq_singleton_iff.1 (hpivots.symm.trans hjournal)
  obtain ⟨rfl, rfl⟩ := Prod.mk.inj hone
  obtain rfl : u = _ := hascends.head_eq
  refine ⟨s₀, j₀, sol, t, hentry, hsol, hopt, htableau, hrhs, hfeas, hjournal, fun hkeeps => ?_⟩
  refine hfeas (hiff.2 fun u row col hlast => ?_)
  obtain ⟨rfl, rfl, rfl⟩ := by simpa using hlast
  exact hkeeps

/-- An optimum need not be feasible within the tolerance: the tighter of two bounds is written with
a coefficient of `2 ^ -34`, which a tolerance of `10 ^ -9` takes for zero. -/
theorem not_isFeasible_bounds :
    ¬∀ (c : Config ℚ) (history : List (Request ℚ × Journal ℚ)) (r : Request ℚ) (j : Journal ℚ)
      (sol : Solution ℚ), 0 ≤ c.tolerance →
        ((run ⟨c, none⟩ history).request r j).result = .ok sol → sol.status = .optimal →
        ∃ s, run ⟨c, none⟩ (history ++ [(r, j)]) = ⟨c, some s⟩ ∧
          s.model.tableau.IsFeasible c.tolerance ∧
          ∀ j, j < s.model.tableau.rhsCol → s.model.isArtificial j = false →
            -c.tolerance ≤ s.model.tableau.entry 0 j := by
  intro hall
  let p : Problem ℚ :=
    { Problem.ofObjective .maximize [1] with
      constraints := [⟨[1], .le, 1099511627776⟩, ⟨[1 / 17179869184], .le, 1⟩] }
  let c : Config ℚ := { Config.exact with tolerance := 1 / 1000000000 }
  have ht : 0 ≤ c.tolerance := by
    show (0 : ℚ) ≤ 1 / 1000000000
    norm_num
  have hrun : ((run ⟨c, none⟩ []).request (.solve p) {}).result.toOption.map (·.status) =
      some .optimal := by decide +kernel
  obtain ⟨sol, hsol, hopt⟩ := exists_ok_of_map hrun
  obtain ⟨s, hs, hfeas, -⟩ := hall c [] (.solve p) {} sol ht hsol hopt
  have hleft : (run ⟨c, none⟩ [(.solve p, {})]).session.map
      (fun s => decide (s.model.tableau.IsFeasible c.tolerance)) = some false := by decide +kernel
  rw [List.nil_append] at hs
  rw [hs] at hleft
  exact of_decide_eq_false (Option.some.inj hleft) hfeas

end DualSimplex
end LinOpt
