import LinOpt.Proofs.Simplex.Dual.History
import LinOpt.Proofs.Simplex.PrimalDual

/-!
# Warm starts

A tableau is dual feasible if it has no negative reduced cost, artificial columns apart
(`Model.DualFeasible`). An optimum leaves such a tableau, the row of an inequality comes to it
without a change of row `0`, and every pivot of the first phase keeps it, because the ratio that is
least takes no reduced cost below zero (`Model.DualFeasible.eliminate`). So after an inequality is
added to an optimum the second phase finds nothing to do (`Progress.phases_dualFeasible`).

The region of the extended model lies in that of the model before, so its optimum is no better
(`Model.Represents.not_beats_of_add`).
-/

namespace LinOpt

variable {c : Config ℚ} {m : Model ℚ} {E : (ℕ → ℚ) → Prop} {z : (ℕ → ℚ) → ℚ}

namespace Model

variable {t : Tableau ℚ} {bigM : ℚ} {q : Posed ℚ} {k : Constraint ℚ}

/-! ## Dual feasible tableaux -/

/-- No reduced cost is negative, artificial columns apart. -/
def DualFeasible (m : Model ℚ) (t : Tableau ℚ) : Prop :=
  ∀ j, j < t.rhsCol → m.isArtificial j = false → 0 ≤ t.entry 0 j

/-- A tableau that shows an optimum is dual feasible. -/
theorem Shows.dualFeasible (h : m.Shows t .done) : m.DualFeasible t := by
  cases h with
  | done hrhs hred => exact hred

/-- A pivot of the first phase turns no reduced cost negative: where the pivot row is negative too,
the pivot has the lesser ratio. -/
theorem DualFeasible.eliminate (h : m.DualFeasible t) (hr : t.Rectangular) {row col : ℕ}
    (hplan : m.feasibilityPlan 0 t = .pivot row col) : m.DualFeasible (t.eliminate row col) := by
  obtain ⟨hrow, hcol, hneg, hart, hle⟩ := feasibilityPlan_eq_pivot hr hplan
  have hsize : (t.eliminate row col).rhsCol = t.rhsCol :=
    congrArg (· - 1) (hr.eliminate (Tableau.lt_numRows_of_entry_ne hneg.ne) col).2
  intro j hj hjart
  rw [hsize] at hj
  rw [hr.entry_eliminate hneg.ne, if_neg hrow.ne]
  have hcost := h j hj hjart
  have hpivot := h col hcol hart
  rcases le_or_gt 0 (t.entry row j) with hpos | hjneg
  · have := mul_nonpos_of_nonneg_of_nonpos hpivot (div_nonpos_of_nonneg_of_nonpos hpos hneg.le)
    linarith
  · have hratio := hle j hj hjneg hjart
    rw [abs_div, abs_div, abs_of_nonneg hpivot, abs_of_nonneg hcost, abs_of_neg hneg,
      abs_of_neg hjneg, div_le_div_iff₀ (neg_pos.2 hneg) (neg_pos.2 hjneg)] at hratio
    have hmul : t.entry 0 col * (t.entry row j / t.entry row col) ≤ t.entry 0 j := by
      rw [← mul_div_assoc, div_le_iff_of_neg hneg]
      linarith
    linarith

/-- At a dual feasible tableau the second phase is over. -/
theorem DualFeasible.optimalityPlan (h : m.DualFeasible t) (hr : t.Rectangular) :
    m.optimalityPlan 0 t = .settled .done := by
  have hnone : t.enteringWhere 0 (fun col => !m.isArtificial col) = none := by
    refine hr.enteringWhere_eq_none.2 fun j hj hart => ?_
    rw [neg_zero]
    exact h j hj (by simpa using hart)
  rw [Model.optimalityPlan, hnone]

/-! ## One constraint more -/

/-- Artificial columns stay so when an auxiliary column is added. -/
theorem isArtificial_of_extend {m' : Model ℚ} (hk : m.extend c k = .ok m') {j : ℕ}
    (hj : m.isArtificial j) : m'.isArtificial j := by
  obtain ⟨p, -, rfl⟩ := extend_eq_ok hk
  unfold isArtificial auxAt? at hj ⊢
  show Option.any _ (if j < m.numDecisions then none
    else (m.aux ++ [AuxColumn.ofRow m.counts k])[j - m.numDecisions]?) = true
  split_ifs at hj ⊢
  · exact hj
  · obtain ⟨a, ha, -⟩ := (Option.any_eq_true _ _).1 hj
    rwa [List.getElem?_append_left (List.getElem?_eq_some_iff.1 ha).1]

/-- The row of an inequality leaves row `0` as it is. -/
theorem DualFeasible.extend {m' : Model ℚ} (h : m.DualFeasible m.tableau)
    (hm : m.Describes c.bigM q) (hineq : k.relation ≠ .eq) (hk : m.extend c k = .ok m') :
    m'.DualFeasible m'.tableau := by
  obtain ⟨hgrown, -⟩ := hm.clearedTableau c.tolerance k
  have htableau : m'.tableau = m.clearedTableau c.tolerance k := by
    obtain ⟨p, -, rfl⟩ := extend_eq_ok hk
    exact (extendTableau_eq k hgrown).trans (if_neg hineq)
  intro j hj hart
  rw [htableau, hgrown.rhsCol_eq] at hj
  rw [htableau, hgrown.old 0 m.tableau.numRows_pos.ne j (Nat.le_of_lt_succ hj)]
  split_ifs with hlt
  · refine h j hlt (Bool.eq_false_iff.2 fun hold => ?_)
    exact Bool.eq_false_iff.1 hart (isArtificial_of_extend hk hold)
  · exact le_rfl

/-- The optimum over one constraint more that is no equality is not better: its basic solution lies
in the region before, where row `0` states the same. -/
theorem Represents.not_beats_of_add {m' : Model ℚ} (h : m.Represents bigM q)
    (h' : m'.Represents bigM (q.add k)) (hineq : k.relation ≠ .eq)
    (hart : ∀ j, m.isArtificial j → m'.isArtificial j) {sol sol' : Solution ℚ}
    (ha : m.Answers sol) (ha' : m'.Answers sol') (hopt : sol.status = .optimal)
    (hopt' : sol'.status = .optimal) : ∃ v v', sol.optimalValue = some v ∧
      sol'.optimalValue = some v' ∧ ¬q.current.sense.Beats v' v := by
  obtain ⟨hshows, -, hvalue, -⟩ := ha.of_optimal hopt
  obtain ⟨hshows', hart', hvalue', -⟩ := ha'.of_optimal hopt'
  rw [h.problem_eq] at hvalue
  rw [h'.problem_eq] at hvalue'
  refine ⟨_, _, hvalue, hvalue', ?_⟩
  show ¬q.current.sense.Beats (PrimalSimplex.ofMaximized q.current.sense _) _
  obtain ⟨y, ⟨hholds, hpos, hzero⟩, hobj, -⟩ :=
    h'.stands.exists_mem_region hshows'.rhs_nonneg hart'
  have hregion : y ∈ m.Region (m.columns.Holds q.rows) := by
    rw [h'.columns_eq, Posed.rows_add, ColumnMap.holds_concat] at hholds
    refine ⟨?_, hpos, fun j hj => hzero j (hart j hj)⟩
    rw [h.columns_eq]
    exact hholds.1
  have hle := h.stands.le_optimum hshows hregion
  rw [penalized_add, if_neg hineq, mul_zero, sub_zero] at hobj
  rw [Sense.beats_iff, Sense.ofMaximized_ofMaximized, Sense.ofMaximized_ofMaximized, not_lt, ← hobj]
  exact hle

/-- Only a phase that finds a column unbounded ends with that status. -/
theorem conclude_unbounded {trail : Solution ℚ} {v : Verdict ℚ}
    (h : (m.conclude c trail v).status = .unbounded) : ∃ col name, v = .unbounded col name := by
  unfold conclude at h
  cases v with
  | done =>
    dsimp only at h
    split at h <;> cases h
  | unbounded col name => exact ⟨col, name, rfl⟩
  | infeasible | limit | interrupted => cases h

end Model

/-! ## The phases -/

namespace Progress

/-- The first phase keeps the tableau dual feasible and makes no pivot of the second. -/
theorem feasibility_dualFeasible (ht : c.tolerance = 0) (s : Progress ℚ)
    (hs : m.Carries E z s.tableau) (hd : m.DualFeasible s.tableau) :
    let out := s.phase c m .feasibility
    out.1.tableau.Rectangular ∧ m.DualFeasible out.1.tableau ∧
      out.1.journal.pivots (Event.dualPivot? .optimality) =
        s.journal.pivots (Event.dualPivot? .optimality) ∧
      ∀ col name, out.2 ≠ .ok (.unbounded col name) := by
  have hplan : ∀ t, m.plan c.tolerance .feasibility t = m.feasibilityPlan 0 t := by
    rw [ht]
    exact fun _ => rfl
  obtain ⟨⟨hcar, hd⟩, hends⟩ := runPhase_invariant c .feasibility
    (m.plan c.tolerance .feasibility) (fun t => m.Carries E z t ∧ m.DualFeasible t)
    (fun t row col t' ⟨hcar, hd⟩ hpivot hp => by
      rw [hplan] at hpivot
      rw [ht] at hp
      have hrect := hcar.states.rectangular
      obtain ⟨hrow, hcol, -⟩ := Model.feasibilityPlan_eq_pivot hrect hpivot
      refine ⟨hcar.pivot hrow hcol hp, ?_⟩
      rw [(Tableau.pivot_eq_ok hp).2]
      exact hd.eliminate hrect hpivot)
    (c.phaseLimit .feasibility) 0 s ⟨hs, hd⟩
  refine ⟨hcar.states.rectangular, hd, pivots_phase_of_ne c m Phase.noConfusion s,
    fun col name hout => ?_⟩
  have hend := hends _ hout
  rw [hplan] at hend
  generalize hplanned : m.feasibilityPlan 0 _ = plan at hend
  cases hend with
  | settled => cases (Model.feasibilityPlan_eq_settled hplanned).1
  | stuck =>
    obtain ⟨i, hv, -⟩ := Model.feasibilityPlan_eq_stuck hcar.states.rectangular hplanned
    cases hv

/-- From a dual feasible tableau the phases make no pivot of the second, and no column shows to be
unbounded. -/
theorem phases_dualFeasible (ht : c.tolerance = 0) (s : Progress ℚ)
    (hs : m.Carries E z s.tableau) (hd : m.DualFeasible s.tableau) :
    let out := s.phases c m
    out.1.journal.pivots (Event.dualPivot? .optimality) =
        s.journal.pivots (Event.dualPivot? .optimality) ∧
      ∀ col name, out.2 ≠ .ok (.unbounded col name) := by
  obtain ⟨hrect, hd, hpivots, hbounded⟩ := feasibility_dualFeasible ht s hs hd
  dsimp only
  unfold phases
  split
  · rename_i s' hout
    rw [hout] at hrect hd hpivots
    have hover : s'.phase c m .optimality = (s', .ok .done) := by
      refine runPhase_settled ?_ _ _
      rw [ht]
      exact hd.optimalityPlan hrect
    rw [hover]
    exact ⟨hpivots, fun col name h => by cases h⟩
  · exact ⟨hpivots, hbounded⟩

end Progress

/-! ## The solver -/

namespace Session

variable {s : Session ℚ} {q : Posed ℚ} {k : Constraint ℚ}

/-- A session with a dual feasible tableau is optimized by the first phase alone. -/
theorem optimize_dualFeasible (ht : c.tolerance = 0) (h : s.model.Stands E z)
    (hd : s.model.DualFeasible s.model.tableau) (j : Journal ℚ) :
    let call := s.optimize c j
    call.journal.pivots (Event.dualPivot? .optimality) =
        j.pivots (Event.dualPivot? .optimality) ∧
      ∀ sol, call.result = .ok sol → sol.status ≠ .unbounded := by
  obtain ⟨hpivots, hbounded⟩ := Progress.phases_dualFeasible (m := s.model) ht
    ⟨s.model.tableau, s.trail, s.pivots, j⟩ h.carries hd
  dsimp only
  unfold optimize
  generalize Progress.phases _ c s.model = out at hpivots hbounded
  obtain ⟨p, verdict⟩ := out
  cases verdict with
  | error e => exact ⟨hpivots, fun sol hsol => (nomatch hsol)⟩
  | ok v =>
    dsimp only
    refine ⟨by rw [Journal.pivots_emit, hpivots]; simp [Event.dualPivot?], fun sol hsol hunb => ?_⟩
    obtain rfl := Except.ok.inj hsol
    obtain ⟨col, name, rfl⟩ := Model.conclude_unbounded hunb
    exact hbounded col name rfl

/-- An inequality that is added to an optimum is worked in by the first phase alone, and leads to no
better optimum. -/
theorem addConstraint_of_optimal (ht : c.tolerance = 0) (h : s.model.Represents c.bigM q)
    {sol : Solution ℚ} (hans : s.model.Answers sol) (hopt : sol.status = .optimal)
    (hineq : k.relation ≠ .eq) (j : Journal ℚ) :
    let call := s.addConstraint c k j
    call.journal.pivots (Event.dualPivot? .optimality) =
        j.pivots (Event.dualPivot? .optimality) ∧
      ∀ sol', call.result = .ok sol' → sol'.status ≠ .unbounded ∧
        (sol'.status = .optimal → ∃ v v', sol.optimalValue = some v ∧
          sol'.optimalValue = some v' ∧ ¬q.current.sense.Beats v' v) := by
  obtain ⟨hshows, -⟩ := hans.of_optimal hopt
  unfold addConstraint
  cases hext : s.model.extend c k with
  | error e => exact ⟨rfl, fun sol' hsol' => (nomatch hsol')⟩
  | ok m =>
    have hrep := h.extend ht hext
    have hd := hshows.dualFeasible.extend h.describes hineq hext
    dsimp only
    generalize htrail : c.record _ _ _ = trail
    generalize hadded : c.emit j _ = j'
    obtain ⟨hpivots, hbounded⟩ :=
      optimize_dualFeasible (s := ⟨m, trail, s.pivots⟩) ht hrep.stands hd j'
    obtain ⟨⟨t, hmodel, hcar⟩, hans'⟩ :=
      optimize_spec (s := ⟨m, trail, s.pivots⟩) ht hrep.stands j'
    refine ⟨?_, fun sol' hsol' => ⟨hbounded sol' hsol', fun hopt' => ?_⟩⟩
    · rw [hpivots, ← hadded, Journal.pivots_emit]
      simp [Event.dualPivot?]
    · have hans' := (hans' sol' hsol').1
      rw [hmodel] at hans'
      exact h.not_beats_of_add (hrep.carries hcar) hineq
        (fun j hj => Model.isArtificial_of_extend hext hj) hans hans' hopt hopt'

end Session

namespace DualSimplex

/-- After any history that ends with an optimum, an inequality that is added is worked in without a
pivot of the second phase, whatever the limits are: the answer is never that the problem is
unbounded, and if it is an optimum, its value is not better than the one before. -/
theorem addConstraint_warmStart (ht : c.tolerance = 0) (history : List (Request ℚ × Journal ℚ))
    {r : Request ℚ} {j : Journal ℚ} {sol : Solution ℚ}
    (hsol : ((run ⟨c, none⟩ history).request r j).result = .ok sol) (hopt : sol.status = .optimal)
    {k : Constraint ℚ} (hineq : k.relation ≠ .eq) (j' : Journal ℚ) :
    ∃ q v, Request.posed (history ++ [(r, j)]) = some q ∧ sol.optimalValue = some v ∧
      let call := (run ⟨c, none⟩ (history ++ [(r, j)])).addConstraint k j'
      call.journal.pivots (Event.dualPivot? .optimality) =
          j'.pivots (Event.dualPivot? .optimality) ∧
        ∀ sol', call.result = .ok sol' → sol'.status ≠ .unbounded ∧
          (sol'.status = .optimal →
            ∃ v', sol'.optimalValue = some v' ∧ ¬q.current.sense.Beats v' v) := by
  obtain ⟨q, s, hposed, hrun, hrep, hans⟩ := session_of_history ht history hsol
  obtain ⟨hpivots, hanswer⟩ := Session.addConstraint_of_optimal ht hrep hans hopt hineq j'
  obtain ⟨-, -, hvalue, -⟩ := hans.of_optimal hopt
  refine ⟨q, _, hposed, hvalue, ?_⟩
  rw [hrun]
  refine ⟨hpivots, fun sol' hsol' => ⟨(hanswer sol' hsol').1, fun hopt' => ?_⟩⟩
  obtain ⟨v, v', hv, hv', hbeats⟩ := (hanswer sol' hsol').2 hopt'
  obtain rfl := Option.some.inj (hv.symm.trans hvalue)
  exact ⟨v', hv', hbeats⟩

/-- The greatest `3 x₁ + 5 x₂` with `x₁ ≤ 4`, `2 x₂ ≤ 12` and `3 x₁ + 2 x₂ ≤ 18` is `36`. One pivot
of the first phase leads on to the optimum `33` with `x₁ ≤ 1` besides. -/
theorem addConstraint_warmStart_textbook :
    let p : Problem ℚ :=
      { Problem.ofObjective .maximize [3, 5] with
        constraints := [⟨[1, 0], .le, 4⟩, ⟨[0, 2], .le, 12⟩, ⟨[3, 2], .le, 18⟩] }
    let k : Constraint ℚ := ⟨[1, 0], .le, 1⟩
    let call := (run ⟨.exact, none⟩ [(.solve p, {})]).addConstraint k {}
    ∃ q sol', Request.posed [(.solve p, {})] = some q ∧ call.result = .ok sol' ∧
      sol'.optimalValue = some 33 ∧ ¬q.current.sense.Beats 33 36 ∧
      call.journal.pivots (Event.dualPivot? .feasibility) = [(4, 4)] ∧
      call.journal.pivots (Event.dualPivot? .optimality) = [] := by
  intro p k call
  have hsolved : ((run ⟨.exact, none⟩ []).request (.solve p) {}).result.toOption.map
      (fun sol => (sol.status, sol.optimalValue)) = some (.optimal, some 36) := by decide +kernel
  have hadded : call.result.toOption.map (fun sol => (sol.status, sol.optimalValue)) =
      some (.optimal, some 33) := by decide +kernel
  have hrepair : call.journal.pivots (Event.dualPivot? .feasibility) = [(4, 4)] := by
    decide +kernel
  obtain ⟨sol, hsol, hread⟩ := exists_ok_of_map hsolved
  obtain ⟨hopt, hvalue⟩ := Prod.mk.inj hread
  obtain ⟨sol', hsol', hread'⟩ := exists_ok_of_map hadded
  obtain ⟨hopt', hvalue'⟩ := Prod.mk.inj hread'
  obtain ⟨q, v, hq, hv, hpivots, hanswer⟩ :=
    addConstraint_warmStart rfl [] hsol hopt (k := k) Relation.noConfusion {}
  rw [List.nil_append] at hq hpivots hanswer
  obtain ⟨v', hv', hbeats⟩ := (hanswer sol' hsol').2 hopt'
  obtain rfl : v = 36 := Option.some.inj (hv.symm.trans hvalue)
  obtain rfl : v' = 33 := Option.some.inj (hv'.symm.trans hvalue')
  exact ⟨q, sol', hq, hsol', hvalue', hbeats, hrepair, hpivots⟩

end DualSimplex
end LinOpt
