import LinOpt.Proofs.Simplex.Pivots
import LinOpt.Proofs.Simplex.Primal

/-!
# The primal and the dual method in lockstep

On a problem whose rows convert to `≤` with right-hand sides that are not negative, both methods
make the same pivots (`DualSimplex.solve_agrees`), over any scalars that multiply and compare by
`Scalar.Signed`. The dual method builds its model by signs and auxiliary columns of three kinds, but
the result is the slack basis and no column is artificial (`Model.build_eq_slackModel`). Its first
phase has nothing to do (`Model.feasibilityPlan_slackModel`), and its second plans every step of the
primal method (`Model.optimalityPlan_of_leaving`) and ends where the primal method does. The two ask
for their limits in different places, which only tells where a limit is met.
-/

namespace LinOpt

/-! ## Agreeing answers -/

/-- Two solutions agree, the second with its values cleaned. -/
structure Solution.Cleans {α : Type} [Scalar α] (tolerance : α) (s s' : Solution α) : Prop where
  status_eq : s'.status = s.status
  optimalValue_eq : s'.optimalValue = s.optimalValue
  tableau_eq : ∃ t, s.tableau = some t ∧ s'.tableau = some t
  decisionValues_eq : ∀ n, s'.decisionValues n =
    (s.decisionValues n).map (Scalar.clean tolerance)

/-- Two results agree: both are solutions, the second with its values cleaned, or both are the same
refusal. -/
inductive Agrees {α : Type} [Scalar α] (tolerance : α) :
    Except (Error α) (Solution α) → Except (Error α) (Solution α) → Prop where
  | solved {s s' : Solution α} (h : s.Cleans tolerance s') : Agrees tolerance (.ok s) (.ok s')
  | refused (e : Error α) : Agrees tolerance (.error e) (.error e)

variable {α : Type} [Scalar α]

@[simp] theorem Scalar.clean_same (tolerance : α) : Scalar.clean tolerance (0 : α) = 0 := by
  unfold Scalar.clean
  split_ifs <;> rfl

/-- Values that are read alike under every name are reported alike, cleaned. -/
theorem Solution.decisionValues_clean {tolerance : α} {s s' : Solution α}
    (h : ∀ i, s'.value? (.decision i) =
      (s.value? (.decision i)).map (Scalar.clean tolerance)) (n : ℕ) :
    s'.decisionValues n = (s.decisionValues n).map (Scalar.clean tolerance) := by
  rw [decisionValues, decisionValues, List.map_map]
  refine List.map_congr_left fun i _ => ?_
  rw [Function.comp_apply, h]
  cases s.value? (.decision i) with
  | none => exact (Scalar.clean_same tolerance).symm
  | some v => rfl

/-! ## The same start -/

namespace Model

/-- Without equalities no row gets an artificial column. -/
theorem kind_ne_artificial {rows : List (Constraint α)} (h : ∀ row ∈ rows, row.relation ≠ .eq) :
    ∀ a ∈ AuxColumn.ofRows rows, a.kind ≠ .artificial := by
  intro a ha hkind
  obtain ⟨k, hk⟩ := List.mem_iff_getElem?.1 ha
  have hmap := AuxColumn.kind_ofRows rows k
  rw [hk, Option.map_some, hkind] at hmap
  obtain ⟨row, hrow, heq⟩ := Option.map_eq_some_iff.1 hmap.symm
  have hne := h row (List.mem_of_getElem? hrow)
  cases hrel : row.relation with
  | eq => exact hne hrel
  | le | ge =>
    rw [hrel] at heq
    cases heq

/-- Without equalities the model that the dual method builds is that of the slack basis. -/
theorem build_eq_slackModel {p : Problem α} {f : StandardForm α}
    (hf : StandardForm.ofProblem p = .ok f) (h : ∀ row ∈ f.rows, row.relation ≠ .eq) (bigM : α) :
    build bigM p = .ok (f.slackModel p) := by
  have hfold : ∀ (aux : List (AuxColumn × ℕ)) (t : Tableau α),
      (∀ e ∈ aux, e.1.kind ≠ .artificial) →
      aux.foldl (fun t e => if e.1.kind = .artificial
        then t.penalize (e.2 + 1) (f.columns.numColumns + e.2) bigM else t) t = t := by
    intro aux
    induction aux with
    | nil => exact fun t _ => rfl
    | cons e aux ih =>
      intro t haux
      rw [List.foldl_cons, if_neg (haux e List.mem_cons_self)]
      exact ih t fun e' he' => haux e' (List.mem_cons_of_mem _ he')
  have hpenalties := hfold (AuxColumn.ofRows f.rows).zipIdx (plainTableau f) fun e he =>
    kind_ne_artificial h _ (List.fst_mem_of_mem_zipIdx he)
  rw [build_eq, hf]
  exact congrArg (fun t => Except.ok ({ f.slackModel p with tableau := t } : Model α)) hpenalties

variable [Scalar.Signed α]

/-- Where no right-hand side is negative, the first phase has nothing to do. -/
theorem feasibilityPlan_slackModel {f : StandardForm α} {p : Problem α} {n : ℕ}
    (hobj : f.objective.length = n) (hrows : ∀ r ∈ f.rows, r.coefficients.length = n)
    (h : ∀ row ∈ f.rows, 0 ≤ row.rowSign * row.rhs) {tolerance : α} (ht : 0 ≤ tolerance)
    (m : Model α) : m.feasibilityPlan tolerance (f.slackModel p).tableau = .settled .done := by
  have hnone : Tableau.mostNegative tolerance
      ((f.slackModel p).tableau.rhsColumn.map some) = none := by
    refine (Selection.firstBestFrom_eq_none _ _ _ _).2 ⟨rfl, fun b hb => ?_⟩
    obtain ⟨b', hb', hbb'⟩ := List.mem_map.1 hb
    obtain rfl := Option.some.inj hbb'
    have hcol : b' ∈ (plainTableau f).rhsColumn := hb'
    rw [rhsColumn_plainTableau hobj hrows] at hcol
    obtain ⟨row, hrow, rfl⟩ := List.mem_map.1 hcol
    exact decide_eq_false
      (Scalar.Signed.not_lt _ _ (Scalar.Signed.neg_le _ _ ht (h row hrow)))
  rw [feasibilityPlan, hnone]

end Model

/-! ## The same steps -/

namespace Model

variable {m : Model α} {tolerance : α} {t t' : Tableau α}

/-- Without artificial columns every column may enter. -/
theorem enteringWhere_eq_entering (hart : ∀ j, m.isArtificial j = false) :
    (t.enteringWhere tolerance fun col => !m.isArtificial col) = t.entering tolerance := by
  simp only [hart, Bool.not_false, Tableau.entering]

/-- The second phase plans what the primal method does. -/
theorem optimalityPlan_of_leaving (hart : ∀ j, m.isArtificial j = false) {row col : ℕ}
    (hcol : t.entering tolerance = some col) (hrow : t.leaving col tolerance = some row) :
    m.optimalityPlan tolerance t = .pivot row col := by
  rw [optimalityPlan, enteringWhere_eq_entering hart, hcol]
  dsimp only
  rw [hrow]

end Model

namespace Progress

variable {c : Config α} {phase : Phase} {plan : Tableau α → Plan α}

/-- A plan that is settled ends the phase, whatever the limits are. -/
theorem runPhase_settled {s : Progress α} {v : Verdict α} (h : plan s.tableau = .settled v)
    (remaining k : ℕ) : runPhase c phase plan remaining k s = (s, .ok v) := by
  cases remaining <;> rw [runPhase, h]

/-- A pivot that is planned and refused ends the phase. -/
theorem runPhase_refused (hc : c.Uninterrupted) {s : Progress α} {row col : ℕ} {e : Error α}
    (h : plan s.tableau = .pivot row col)
    (hpivot : s.tableau.pivot row col c.tolerance = .error e) (remaining k : ℕ) :
    runPhase c phase plan (remaining + 1) k s =
      ({ s with journal := (c.ask s.journal).2 }, .error e) := by
  rw [runPhase, h]
  dsimp only
  rw [hc.ask]
  simp only [Bool.false_eq_true, if_false, hpivot]

/-- Where a phase plans the steps of a run, it goes on from the tableau that the run leads to. -/
theorem runPhase_of_pivots (phase : Phase) (hc : c.Uninterrupted)
    (hplan : ∀ {t t' : Tableau α} {row col : ℕ}, PrimalSimplex.Step c.tolerance t row col t' →
      plan t = .pivot row col) {t t' : Tableau α} {ps : List (ℕ × ℕ)}
    (h : PrimalSimplex.Pivots c.tolerance t ps t') {remaining : ℕ} (hle : ps.length ≤ remaining)
    (k : ℕ) (s : Progress α) (hs : s.tableau = t) : ∃ s',
      runPhase c phase plan remaining k s =
        runPhase c phase plan (remaining - ps.length) (k + ps.length) s' ∧
      s'.tableau = t' ∧ ∀ phase', s'.journal.pivots (Event.dualPivot? phase') =
        s.journal.pivots (Event.dualPivot? phase') ++ if phase = phase' then ps else [] := by
  induction h generalizing remaining k s with
  | nil t => exact ⟨s, rfl, hs, fun phase' => by rw [ite_self, List.append_nil]⟩
  | @cons t t₁ t₂ row col ps hstep hrest ih =>
    obtain ⟨n, rfl⟩ := Nat.exists_eq_add_one_of_ne_zero (Nat.ne_zero_of_lt hle)
    have hnext := hplan hstep
    have hpivot := hstep.pivot
    rw [← hs] at hnext hpivot
    obtain ⟨s', heq, htab, hpivots⟩ := ih (Nat.le_of_succ_le_succ hle) (k + 1)
      (pivoted { s with journal := (c.ask s.journal).2 } c phase (k + 1) row col t₁) rfl
    refine ⟨s', ?_, htab, fun phase' => ?_⟩
    · rw [runPhase, hnext]
      dsimp only
      rw [hc.ask]
      simp only [Bool.false_eq_true, if_false, hpivot]
      rw [heq, List.length_cons, Nat.add_sub_add_right, Nat.add_right_comm, Nat.add_assoc]
    · rw [hpivots, pivoted, Journal.pivots_emit, Journal.pivots_ask, List.append_assoc]
      refine congrArg _ ?_
      rw [Event.dualPivot?]
      split_ifs <;> rfl

/-- Both phases along a run of the primal method: the first does nothing, and the second goes on
from the tableau that the run leads to. -/
theorem phases_of_pivots (hc : c.Uninterrupted) {m : Model α}
    (hart : ∀ j, m.isArtificial j = false) {s : Progress α}
    (hfirst : m.feasibilityPlan c.tolerance s.tableau = .settled .done) {t' : Tableau α}
    {ps : List (ℕ × ℕ)} (h : PrimalSimplex.Pivots c.tolerance s.tableau ps t')
    (hle : ps.length ≤ c.maxPhase2Iterations) : ∃ s',
      s.phases c m = runPhase c .optimality (m.optimalityPlan c.tolerance)
        (c.maxPhase2Iterations - ps.length) ps.length s' ∧ s'.tableau = t' ∧
      s'.journal.pivots (Event.dualPivot? .feasibility) =
        s.journal.pivots (Event.dualPivot? .feasibility) ∧
      s'.journal.pivots (Event.dualPivot? .optimality) =
        s.journal.pivots (Event.dualPivot? .optimality) ++ ps := by
  have hplan : ∀ {t t' : Tableau α} {row col : ℕ},
      PrimalSimplex.Step c.tolerance t row col t' →
        m.optimalityPlan c.tolerance t = .pivot row col := fun hstep =>
    Model.optimalityPlan_of_leaving hart hstep.entering hstep.leaving
  obtain ⟨s', heq, htab, hpivots⟩ := runPhase_of_pivots .optimality hc hplan h hle 0 s rfl
  have hphase : s.phase c m .feasibility = (s, .ok .done) := runPhase_settled hfirst _ _
  refine ⟨s', ?_, htab, ?_, ?_⟩
  · rw [phases, hphase]
    rw [Nat.zero_add] at heq
    exact heq
  · rw [hpivots, if_neg (by decide), List.append_nil]
  · rw [hpivots, if_pos rfl]

end Progress

/-! ## The same end -/

namespace Model

variable {m : Model α} {c : Config α}

/-- Without artificial columns none is positive. -/
theorem positiveArtificial?_eq_none (h : ∀ a ∈ m.aux, a.kind ≠ .artificial) (tolerance : α) :
    m.positiveArtificial? tolerance = none := by
  rw [positiveArtificial?, Option.map_eq_none_iff, List.find?_eq_none]
  intro e he
  obtain ⟨k, hk, rfl⟩ := List.mem_mapIdx.1 he
  simp [h _ (List.getElem_mem hk)]

/-- Decision columns are read as the primal method reads them. -/
theorem variableValues_eq_recover (hle : m.numDecisions ≤ m.tableau.rhsCol) (tolerance : α) :
    m.variableValues tolerance = m.columns.recover
      (((List.range m.tableau.rhsCol).map (m.tableau.columnValue · tolerance)).take
        m.columns.numColumns) := by
  have htake : min m.columns.numColumns m.tableau.rhsCol = m.numDecisions := Nat.min_eq_left hle
  rw [variableValues, ← List.map_take, List.take_range, htake]
  refine congrArg _ (List.map_congr_left fun j hj => ?_)
  have hdec : m.auxAt? j = none := if_pos (List.mem_range.1 hj)
  rw [columnValue, hdec, Tableau.columnValue]
  cases m.tableau.basicRow j tolerance <;> rfl

/-- The value of a variable at an optimum of the dual method. -/
theorem value?_optimum (m : Model α) (c : Config α) (s : Solution α) (i : ℕ) :
    (m.optimum c s).value? (.decision i) =
      (m.variableValues c.tolerance)[i]?.map (Scalar.clean c.tolerance) := by
  have hothers : ColumnName.decision i ∉ (((m.auxValues c.tolerance).map fun e =>
      (e.1.name, Scalar.clean c.tolerance e.2)).map (·.1)) := by
    intro hmem
    obtain ⟨e, he, hname⟩ := List.mem_map.1 hmem
    obtain ⟨a, -, rfl⟩ := List.mem_map.1 he
    cases hname
  have hget := Valuation.get?_decision
    ((m.variableValues c.tolerance).map (Scalar.clean c.tolerance)) hothers
  have hmap : ((m.variableValues c.tolerance).map (Scalar.clean c.tolerance)).mapIdx
      (fun i v => (ColumnName.decision i, v)) = (m.variableValues c.tolerance).mapIdx
        fun i v => (ColumnName.decision i, Scalar.clean c.tolerance v) :=
    List.ext_getElem (by simp) fun _ _ _ => by simp
  rw [hmap, List.getElem?_map] at hget
  exact hget

end Model

/-- The value of a variable at an optimum of the primal method. -/
theorem PrimalSimplex.get?_namedValues_decision (columns : ColumnMap) (columnValues : List α)
    (i : ℕ) : (namedValues columns columnValues).get? (.decision i) =
      (columns.recover (columnValues.take columns.numColumns))[i]? := by
  refine Valuation.get?_decision _ fun hmem => ?_
  obtain ⟨e, he, hname⟩ := List.mem_map.1 hmem
  obtain ⟨k, hk, rfl⟩ := List.mem_mapIdx.1 he
  cases hname

/-- At one tableau the optimum of the dual method is that of the primal method, cleaned. -/
theorem Model.cleans_optimum {m : Model α} {c : Config α} {f : StandardForm α} {sol : Solution α}
    (hcolumns : m.columns = f.columns) (hsense : m.problem.sense = f.sense)
    (hcol : m.numDecisions ≤ m.tableau.rhsCol) (hstatus : sol.status = .optimal)
    (hvalue : sol.optimalValue =
      some (PrimalSimplex.ofMaximized f.sense m.tableau.objectiveValue))
    (hvalues : sol.values = PrimalSimplex.namedValues f.columns
      ((List.range m.tableau.rhsCol).map (m.tableau.columnValue · c.tolerance)))
    (htableau : sol.tableau = some m.tableau) {s : Solution α} (hs : s.tableau = some m.tableau) :
    sol.Cleans c.tolerance (m.optimum c s) := by
  refine ⟨hstatus.symm, ?_, ⟨_, htableau, hs⟩, Solution.decisionValues_clean fun i => ?_⟩
  · rw [hvalue, ← hsense]
    rfl
  · rw [m.value?_optimum, m.variableValues_eq_recover hcol, Solution.value?, hvalues,
      PrimalSimplex.get?_namedValues_decision, hcolumns]

namespace Session

variable {s : Session α} {c : Config α} {f : StandardForm α} {t' : Tableau α} {ps : List (ℕ × ℕ)}
  {result : Except (Error α) (Solution α)}

/-- An optimization agrees with a run of the primal method from the same tableau. -/
theorem optimize_agrees [Scalar.Signed α] (hc : c.Uninterrupted)
    (hcolumns : s.model.columns = f.columns) (hsense : s.model.problem.sense = f.sense)
    (hart : ∀ j, s.model.isArtificial j = false)
    (hkind : ∀ a ∈ s.model.aux, a.kind ≠ .artificial)
    (hfirst : s.model.feasibilityPlan c.tolerance s.model.tableau = .settled .done)
    (hrun : PrimalSimplex.Pivots c.tolerance s.model.tableau ps t')
    (hle : ps.length ≤ c.maxPhase2Iterations) (hcol : s.model.numDecisions ≤ t'.rhsCol)
    (hends : PrimalSimplex.Ends c f t' {} result)
    (hspare : ∀ e, result = .error e → ps.length < c.maxPhase2Iterations) (j : Journal α) :
    Agrees c.tolerance result (s.optimize c j).result ∧
      (s.optimize c j).journal.pivots (Event.dualPivot? .feasibility) =
        j.pivots (Event.dualPivot? .feasibility) ∧
      (s.optimize c j).journal.pivots (Event.dualPivot? .optimality) =
        j.pivots (Event.dualPivot? .optimality) ++ ps := by
  obtain ⟨p, hphases, rfl, hnone, hall⟩ := Progress.phases_of_pivots hc hart
    (s := ⟨s.model.tableau, s.trail, s.pivots, j⟩) hfirst hrun hle
  rw [optimize, hphases, ← hnone, ← hall]
  cases hends with
  | optimal hdone hstatus hvalue hvalues htableau =>
    have hnocol : p.tableau.entering c.tolerance = none :=
      hdone.elim Tableau.IsOptimal.entering_eq_none id
    have hplan : s.model.optimalityPlan c.tolerance p.tableau = .settled .done := by
      rw [Model.optimalityPlan, Model.enteringWhere_eq_entering hart, hnocol]
    rw [Progress.runPhase_settled hplan]
    refine ⟨.solved ?_, by simp [Event.dualPivot?], by simp [Event.dualPivot?]⟩
    have hart? : Model.positiveArtificial? { s.model with tableau := p.tableau } c.tolerance = none :=
      Model.positiveArtificial?_eq_none (m := { s.model with tableau := p.tableau }) hkind _
    simp only [Model.conclude, hart?]
    exact Model.cleans_optimum (m := { s.model with tableau := p.tableau }) hcolumns hsense hcol
      hstatus hvalue hvalues htableau rfl
  | unbounded hentering hleaving hstatus hvalue hvalues htableau =>
    have hplan : ∃ v, s.model.optimalityPlan c.tolerance p.tableau = .settled v ∧
        ∃ col name, v = .unbounded col name := by
      rw [Model.optimalityPlan, Model.enteringWhere_eq_entering hart, hentering]
      dsimp only
      rw [hleaving]
      exact ⟨_, rfl, _, _, rfl⟩
    obtain ⟨_, hplan, col, name, rfl⟩ := hplan
    rw [Progress.runPhase_settled hplan]
    refine ⟨.solved ⟨hstatus.symm, hvalue.symm, ⟨_, htableau, rfl⟩, ?_⟩, by simp [Event.dualPivot?],
      by simp [Event.dualPivot?]⟩
    refine Solution.decisionValues_clean fun i => ?_
    rw [Solution.value?, Solution.value?, hvalues]
    rfl
  | refused hentering hleaving hpivot =>
    obtain ⟨n, hn⟩ := Nat.exists_eq_add_one_of_ne_zero (Nat.sub_ne_zero_of_lt (hspare _ rfl))
    have hplan := Model.optimalityPlan_of_leaving hart hentering hleaving
    rw [hn, Progress.runPhase_refused hc hplan hpivot]
    exact ⟨.refused _, Journal.pivots_ask p.journal c _, Journal.pivots_ask p.journal c _⟩

end Session

/-! ## Both solvers -/

namespace DualSimplex

/-- Where the rows convert the dual method optimizes from the slack basis. -/
theorem solve_eq_optimize {p : Problem α} {f : StandardForm α}
    (hf : StandardForm.ofProblem p = .ok f) (h : ∀ row ∈ f.rows, row.relation ≠ .eq)
    (d : DualSimplex α) (j : Journal α) : ∃ trail, d.solve p j = d.after (Session.optimize
      ⟨f.slackModel p, trail, 0⟩ d.config (d.config.emit j (.dualBuilt (f.slackModel p).numDecisions
        (f.slackModel p).tableau.numConstraints))) := by
  rw [solve, Session.start, Model.build_eq_slackModel hf h]
  exact ⟨_, rfl⟩

/-- On a problem whose rows convert to `≤` with right-hand sides that are not negative, the dual
method does what the primal method does, unless that meets a limit: it makes no pivot in its first
phase and the same pivots in its second, and its answer agrees. -/
theorem solve_agrees [Scalar.Signed α] {c : Config α} (ht : 0 ≤ c.tolerance) (hc : c.Uninterrupted)
    {p : Problem α} {f : StandardForm α} {rows : List (List α × α)}
    (hf : StandardForm.ofProblem p = .ok f) (hrows : f.slackRows = .ok rows)
    (session : Option (Session α)) (j j' : Journal α)
    (hlimit : ∀ sol, (PrimalSimplex.solve c p j).result = .ok sol → sol.status ≠ .limitReached) :
    let primal := PrimalSimplex.solve c p j
    let dual := (⟨c, session⟩ : DualSimplex α).solve p j'
    Agrees c.tolerance primal.result dual.result ∧ ∃ ps,
      primal.journal.pivots Event.primalPivot? = j.pivots Event.primalPivot? ++ ps ∧
      dual.journal.pivots (Event.dualPivot? .feasibility) =
        j'.pivots (Event.dualPivot? .feasibility) ∧
      dual.journal.pivots (Event.dualPivot? .optimality) =
        j'.pivots (Event.dualPivot? .optimality) ++ ps := by
  intro primal dual
  have hbuild : ∃ t, PrimalSimplex.buildTableau f = .ok t := by
    rw [PrimalSimplex.buildTableau, hrows]
    exact ⟨_, rfl⟩
  obtain ⟨t, hbuild⟩ := hbuild
  obtain ⟨s, hvalues, hsolve⟩ := PrimalSimplex.solve_eq_iterate c hf hbuild j
  obtain ⟨rfl, hconv⟩ := PrimalSimplex.buildTableau_eq_ok hbuild
  have hprimal : primal = _ := hsolve
  obtain ⟨hobj, hlen⟩ := StandardForm.length_of_ofProblem hf
  obtain ⟨hcolumns, hsense, -, -⟩ := StandardForm.ofProblem_eq_ok hf
  rw [hsolve] at hlimit
  obtain ⟨ps, t', hrun, hle, hends, hspare, hjournal⟩ :=
    PrimalSimplex.iterate_run hc 0 s j hlimit
  rw [← hprimal] at hends hspare hjournal
  rw [hvalues] at hends
  -- the pivots keep the right-hand side behind the decision columns
  obtain ⟨-, hrhs⟩ := hrun.rectangular (Model.rectangular_plainTableau hobj hlen)
  have hcol : (f.slackModel p).numDecisions ≤ t'.rhsCol := by
    have hplain : (f.slackModel p).tableau.rhsCol = f.columns.numColumns + f.rows.length :=
      Model.rhsCol_plainTableau hobj
    exact (hplain ▸ Nat.le_add_right _ _).trans hrhs.ge
  have hne : ∀ row ∈ f.rows, row.relation ≠ .eq := fun row hrow => (hconv row hrow).2
  obtain ⟨trail, hdual⟩ := solve_eq_optimize hf hne ⟨c, session⟩ j'
  have hdual : dual = _ := hdual
  obtain ⟨hagrees, hnone, hall⟩ := Session.optimize_agrees hc (s := ⟨f.slackModel p, trail, 0⟩) rfl
    hsense.symm (StandardForm.isArtificial_slackModel p hne) (Model.kind_ne_artificial hne)
    (Model.feasibilityPlan_slackModel hobj hlen (fun row hrow => (hconv row hrow).1) ht _)
    hrun hle hcol hends hspare
    (c.emit j' (.dualBuilt (f.slackModel p).numDecisions
      (f.slackModel p).tableau.numConstraints))
  rw [hdual]
  refine ⟨hagrees, ps, hjournal, ?_, ?_⟩
  · refine hnone.trans ?_
    rw [Journal.pivots_emit]
    exact List.append_nil _
  · refine hall.trans ?_
    rw [Journal.pivots_emit]
    exact congrArg (· ++ ps) (List.append_nil _)

/-- The greatest `3 x₁ - 2 x₂ + x₃` with `x₂ ≤ 0` and a binary `x₃`, under `x₁ - x₂ ≤ 4` and
`-x₁ - x₃ ≥ -3`. -/
theorem solve_agrees_mixed :
    let p : Problem ℚ :=
      { sense := .maximize
        vars := [⟨0, 3, .nonNegative⟩, ⟨1, -2, .nonPositive⟩, ⟨2, 1, .binary⟩]
        constraints := [⟨[1, -1, 0], .le, 4⟩, ⟨[-1, 0, -1], .ge, -3⟩] }
    let c : Config ℚ := { Config.exact with tolerance := 1 / 1000 }
    let primal := PrimalSimplex.solve c p {}
    let dual := (⟨c, none⟩ : DualSimplex ℚ).solve p {}
    ∃ sol sol', primal.result = .ok sol ∧ dual.result = .ok sol' ∧ sol.status = .optimal ∧
      sol.optimalValue = some 11 ∧ sol.Cleans c.tolerance sol' ∧
      dual.journal.pivots (Event.dualPivot? .feasibility) = [] ∧
      dual.journal.pivots (Event.dualPivot? .optimality) =
        primal.journal.pivots Event.primalPivot? := by
  intro p c primal dual
  have hrun : primal.result.toOption.map (fun sol => (sol.status, sol.optimalValue)) =
      some (.optimal, some 11) := by decide +kernel
  obtain ⟨sol, hsol, hread⟩ := exists_ok_of_map hrun
  obtain ⟨hopt, hvalue⟩ := Prod.mk.inj hread
  have hlimit : ∀ s, primal.result = .ok s → s.status ≠ .limitReached := by
    intro s hs
    rw [← Except.ok.inj (hsol.symm.trans hs), hopt]
    decide
  obtain ⟨hagrees, ps, hprimal, hnone, hall⟩ := solve_agrees (c := c) (by decide +kernel)
    (fun _ _ => rfl) (p := p) rfl rfl none {} {} hlimit
  have hdual : ∃ sol', dual.result = .ok sol' ∧ sol.Cleans c.tolerance sol' := by
    generalize hresult : dual.result = result at hagrees
    rw [hsol] at hagrees
    cases hagrees with
    | solved h => exact ⟨_, rfl, h⟩
  obtain ⟨sol', hsol', hclean⟩ := hdual
  exact ⟨sol, sol', hsol, hsol', hopt, hvalue, hclean, hnone, hall.trans hprimal.symm⟩

end DualSimplex
end LinOpt
