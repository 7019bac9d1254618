import LinOpt.Proofs.Simplex.Pivots
import LinOpt.Proofs.Solution.Status

/-!
# The trace of a cutting-plane run

A run optimizes once at the start and once after every cut. The journal tells with which verdicts
(`Journal.verdicts`), and the trace keeps the optimal values among them. So a trace has one value
more than cuts, or as many if the last optimization came to no optimum (`Trace.Tells`). This is
counted along the rounds, over any scalars: a cut leaves the trace one value behind, and the
optimization after it makes up for that or ends the run (`Run.reoptimize_leads`).

At tolerance zero the values never get better (`Trace.Falls`). The bound of a run is one for its
model (`Run.Bounded`): that is what an optimum shows, and a cut keeps it, because the region of the
model only loses points. The variable that is cut on is fractional, so the right-hand side of its
row is no integer, and that of the cut is negative (`Run.Stands.not_integer`).
-/

namespace LinOpt

/-! ## Verdicts in a journal -/

section Verdicts

variable {α : Type}

/-- Status and optimal value of an optimization of the dual method. -/
def Event.verdict? : Event α → Option (Status × Option α)
  | .dualFinished status _ value => some (status, value)
  | _ => none

/-- The optimizations that a journal tells of, in order, by their status and optimal value. -/
def Journal.verdicts (j : Journal α) : List (Status × Option α) := j.events.filterMap Event.verdict?

@[simp] theorem Journal.verdicts_emit (j : Journal α) (c : Config α) (e : Event α) :
    (c.emit j e).verdicts = j.verdicts ++ e.verdict?.toList := j.filterMap_emit c e Event.verdict?

variable [Scalar α]

/-- A session starts without a verdict. -/
theorem Session.verdicts_start {c : Config α} {p : Problem α} {j j' : Journal α} {s : Session α}
    (h : start c p j = .ok (s, j')) : j'.verdicts = j.verdicts := by
  obtain ⟨m, -, -, rfl⟩ := start_eq_ok h
  simp [Event.verdict?]

/-- An optimization tells its verdict, and its phases tell none. -/
theorem Session.verdicts_optimize (s : Session α) (c : Config α) (j : Journal α) {sol : Solution α}
    (h : (s.optimize c j).result = .ok sol) :
    (s.optimize c j).journal.verdicts = j.verdicts ++ [(sol.status, sol.optimalValue)] := by
  have hphases := Progress.phases_rule c s.model (P := fun p => p.journal.verdicts = j.verdicts)
    (fun p hp => hp)
    (fun phase p k hp => by simp [hp, Event.verdict?])
    (fun phase p k row col t hp _ _ => by simp [Progress.pivoted, hp, Event.verdict?])
    ⟨s.model.tableau, s.trail, s.pivots, j⟩ rfl
  unfold optimize at h ⊢
  generalize Progress.phases _ c s.model = out at h hphases ⊢
  obtain ⟨p, verdict⟩ := out
  cases verdict with
  | error e => cases h
  | ok v =>
    obtain rfl := Except.ok.inj h
    simp [hphases, Event.verdict?]

end Verdicts

namespace CuttingPlane

/-! ## Counting values and cuts -/

section Counting

variable {α : Type}

/-- The verdicts of all optimizations of a run, as its trace has them: an optimum at first and after
every cut, or none after the last. -/
inductive Trace.Tells (t : Trace α) : List (Status × Option α) → Prop
  | optimal (h : t.values.length = t.cuts.length + 1) :
      Tells t (t.values.map fun v => (.optimal, some v))
  | lost {status : Status} (hstatus : status ≠ .optimal) (h : t.values.length = t.cuts.length) :
      Tells t (t.values.map (fun v => (.optimal, some v)) ++ [(status, none)])

/-- An answer that comes with at most `n` cuts and whose trace tells what was optimized since the
journal `j`. -/
def Told (j : Journal α) (n : ℕ) (answer : Call (Trace α) α) : Prop :=
  ∀ sol, answer.result = .ok sol → answer.state.cuts.length ≤ n ∧
    ∃ verdicts, answer.journal.verdicts = j.verdicts ++ verdicts ∧ answer.state.Tells verdicts

/-- A bound on the cuts may be raised. -/
theorem Told.mono {j : Journal α} {n n' : ℕ} {answer : Call (Trace α) α} (h : Told j n answer)
    (hn : n ≤ n') : Told j n' answer := fun sol hsol =>
  ⟨(h sol hsol).1.trans hn, (h sol hsol).2⟩

/-- A run whose trace has the optimal values of all optimizations since the journal `j`, of which
there are `n`. -/
structure Run.Counts (j : Journal α) (n : ℕ) (r : Run α) : Prop where
  verdicts_eq : r.journal.verdicts =
    j.verdicts ++ r.trace.values.map fun v => (.optimal, some v)
  length_values : r.trace.values.length = n

namespace Run.Counts

variable {j : Journal α} {n : ℕ} {r : Run α}

/-- Reports other than verdicts leave the count. -/
theorem emit (h : r.Counts j n) (c : Config α) {e : Event α} (he : e.verdict? = none) :
    ({ r with journal := c.emit r.journal e } : Run α).Counts j n :=
  ⟨by simp [h.verdicts_eq, he], h.length_values⟩

/-- A run that ends at an optimum has one value more than cuts. -/
theorem finish (h : r.Counts j (r.trace.cuts.length + 1)) (s : Solution α) :
    Told j r.trace.cuts.length (r.finish s) := fun _ _ =>
  ⟨le_rfl, _, h.verdicts_eq, .optimal h.length_values⟩

end Run.Counts

variable [Scalar α] {j : Journal α} {n : ℕ} {r : Run α}

/-- A run begins with one value and no cut. -/
theorem begin_counts {c : Config α} {p : Problem α} {g : Goal} {root : Call (Session α) α}
    {sol : Solution α} {v : α} (hroot : root.journal.verdicts = j.verdicts ++ [(.optimal, some v)])
    (h : begin c p root sol v = .ok (g, r)) :
    r.Counts j (r.trace.cuts.length + 1) ∧ r.trace.cuts.length = 0 := by
  obtain ⟨f, -, -, rfl⟩ := begin_eq_ok h
  exact ⟨⟨hroot, rfl⟩, rfl⟩

/-- A cut is one more in the trace, and tells no verdict. -/
theorem Run.Counts.addCut (h : r.Counts j n) (c : Config α) (row : ℕ)
    (at_ : Fractional.Candidate α) : (r.addCut c row at_).Counts j n ∧
      (r.addCut c row at_).trace.cuts.length = r.trace.cuts.length + 1 := by
  refine ⟨⟨?_, h.length_values⟩, by simp [Run.addCut]⟩
  simp [Run.addCut, Session.appendCut, h.verdicts_eq, Event.verdict?]

/-- Optimizing after a cut makes up for the value that is missing, or ends the run without it. -/
theorem Run.reoptimize_leads (h : r.Counts j r.trace.cuts.length) (c : Config α) :
    (r.reoptimize c).Leads
      (fun r' => r'.Counts j (r'.trace.cuts.length + 1) ∧
        r'.trace.cuts.length = r.trace.cuts.length)
      (Told j r.trace.cuts.length) := by
  have hdecides := r.session.optimize_decides c r.journal
  unfold Run.reoptimize
  dsimp only
  split
  · exact .ended fun sol hsol => (nomatch hsol)
  · rename_i sol hsol
    have hverdicts := r.session.verdicts_optimize c r.journal hsol
    rw [h.verdicts_eq] at hverdicts
    split
    · rename_i v hstatus hvalue
      rw [hstatus, hvalue] at hverdicts
      refine .next ⟨⟨?_, ?_⟩, rfl⟩
      · simp [hverdicts]
      · simp [h.length_values]
    · rename_i status hnot
      -- an optimum has a value, so this is none
      have hdecided := hdecides sol hsol
      have hopt : sol.status ≠ .optimal := fun hopt => by
        obtain ⟨v, hv⟩ := Option.isSome_iff_exists.1 (hdecided.value_iff.2 hopt)
        exact hnot v hopt hv
      have hnone : sol.optimalValue = none :=
        Option.not_isSome_iff_eq_none.1 fun hv => hopt (hdecided.value_iff.1 hv)
      refine .ended fun _ _ => ⟨le_rfl, _, ?_, .lost hopt h.length_values⟩
      rw [hnone, List.append_assoc] at hverdicts
      simp [Run.finish, hverdicts, Event.verdict?]

/-- A round adds a cut and the value after it, or ends with a trace that is told. -/
theorem Run.Counts.round (h : r.Counts j (r.trace.cuts.length + 1)) (c : Config α) (g : Goal)
    (at_ : Fractional.Candidate α) : (r.round c g at_).Leads
      (fun r' => r'.Counts j (r'.trace.cuts.length + 1) ∧
        r'.trace.cuts.length = r.trace.cuts.length + 1)
      (Told j (r.trace.cuts.length + 1)) := by
  let asked : Run α := { r with journal := (c.ask r.journal).2 }
  have hasked : asked.Counts j (asked.trace.cuts.length + 1) := ⟨h.verdicts_eq, h.length_values⟩
  unfold Run.round
  dsimp only
  split_ifs
  · exact .ended (((h.emit c rfl).finish _).mono (Nat.le_succ _))
  · exact .ended ((hasked.finish _).mono (Nat.le_succ _))
  · split
    · exact .ended fun sol hsol => (nomatch hsol)
    · rename_i row _
      obtain ⟨hadded, hcuts⟩ := hasked.addCut c row at_
      have hlead := Run.reoptimize_leads (hcuts ▸ hadded) c
      rwa [hcuts] at hlead

/-- The rounds, with as many cuts left as the trace has less than `c.maxCuts`. -/
theorem iterate_told (c : Config α) (g : Goal) (left : ℕ)
    (h : r.Counts j (r.trace.cuts.length + 1)) (hleft : r.trace.cuts.length + left = c.maxCuts) :
    Told j c.maxCuts (iterate c g left r) := by
  refine iterate_rule (P := fun left r => r.Counts j (r.trace.cuts.length + 1) ∧
    r.trace.cuts.length + left = c.maxCuts) (fun left r at_ h _ => ?_) (fun left r h _ => ?_)
    (fun r h => ?_) left ⟨h, hleft⟩
  · obtain ⟨hcounts, hleft⟩ := h
    have hlead := hcounts.round c g at_
    generalize r.round c g at_ = round at hlead
    cases hlead with
    | next h => exact .next ⟨h.1, by omega⟩
    | ended h => exact .ended (h.mono (by omega))
  · exact ((h.1.emit c rfl).finish _).mono (Nat.le_of_add_right_le h.2.le)
  · exact ((h.1.emit c rfl).finish _).mono (Nat.le_of_add_right_le h.2.le)

end Counting

/-! ## Values and cuts of exact runs -/

variable {c : Config ℚ} {p : Problem ℚ} {g : Goal} {r : Run ℚ} {s : Sense} {E : (ℕ → ℚ) → Prop}
  {z : (ℕ → ℚ) → ℚ}

/-- No value of a trace is better than one before it, and the right-hand sides of the cuts are
negative. -/
structure Trace.Falls (t : Trace ℚ) (s : Sense) : Prop where
  values : t.values.Pairwise fun v w => ¬s.Beats w v
  cuts : ∀ cut ∈ t.cuts, cut.bound < 0

/-- The model of a run stands for equations and an objective, and the columns of the variables to be
integral are marked. -/
structure Run.Stands (r : Run ℚ) (g : Goal) (s : Sense) (E : (ℕ → ℚ) → Prop) (z : (ℕ → ℚ) → ℚ) :
    Prop where
  model : r.session.model.Stands E z
  sense_eq : r.session.model.problem.sense = s
  numVariables_eq : g.numVariables = r.session.model.columns.numVariables
  length_marks : r.integerColumns.length = r.session.model.tableau.rhsCol
  direct : ∀ i col, (i, col) ∈ g.direct → r.session.model.columns.directColumn? i = some col ∧
    r.integerColumns.getD col false = true

/-- A run whose trace falls to its bound, which is one for the objective in the region of its
model. -/
structure Run.Bounded (r : Run ℚ) (g : Goal) (s : Sense) : Prop where
  stands : ∃ E z, r.Stands g s E z ∧
    ∀ y ∈ r.session.model.Region E, z y ≤ PrimalSimplex.ofMaximized s r.bound
  last : ∀ v ∈ r.trace.values, ¬s.Beats r.bound v
  trace : r.trace.Falls s

/-- A run whose solution is an optimum that its model shows. -/
structure Run.Solved (r : Run ℚ) : Prop where
  answers : r.session.model.Answers r.solution
  status_eq : r.solution.status = .optimal

/-- The row of a fractional variable has a right-hand side that is no integer, and a marked column
that is basic in it. -/
theorem Run.Stands.not_integer (h : r.Stands g s E z) (ht : c.tolerance = 0)
    (hi : c.integralityTolerance = 0) (hsolved : r.Solved) {at_ : Fractional.Candidate ℚ}
    (hpick : r.pick c g = some at_) {row : ℕ} (hrow : r.sourceRow c g at_.index = some row) :
    (¬∃ k : ℤ, r.session.model.tableau.rhs row = k) ∧
      ∃ col, r.integerColumns.getD col false = true ∧ r.session.model.tableau.Basic row col := by
  obtain ⟨hmem, hfractional⟩ := Fractional.most_eq_some hpick
  obtain ⟨⟨i, col⟩, -, rfl⟩ := List.mem_map.1 hmem
  obtain ⟨⟨i', col'⟩, hfind, hbasic⟩ := Option.bind_eq_some_iff.1 hrow
  obtain rfl : i' = i := by simpa using List.find?_some hfind
  obtain ⟨hdirect, hmark⟩ := h.direct _ _ (List.mem_of_find?_eq_some hfind)
  obtain ⟨hlt, hpoint⟩ :=
    ColumnMap.point_directColumn hdirect (r.session.model.columnValue 0)
  rw [ht] at hbasic
  have hbasic := (Tableau.basicRow_eq_some (h.model.lt_rhsCol hlt)).1 hbasic
  -- the value that is reported for the variable is the right-hand side
  have hvalue : (r.solution.decisionValues g.numVariables).getD i' 0 =
      r.session.model.tableau.rhs row := by
    obtain ⟨-, -, -, hvalues, -⟩ := hsolved.answers.of_optimal hsolved.status_eq
    rw [h.numVariables_eq, Model.decisionValues_eq hvalues, Model.variableValues_eq, hpoint,
      Model.columnValue_of_basic hbasic]
  refine ⟨?_, col', hmark, hbasic⟩
  rw [← Fractional.isIntegral_zero_iff, ← hi, ← hvalue]
  simpa using hfractional

/-- A cut keeps the bound, and its right-hand side is negative. -/
theorem Run.Bounded.addCut (h : r.Bounded g s) (ht : c.tolerance = 0)
    (hi : c.integralityTolerance = 0) (hsolved : r.Solved) {at_ : Fractional.Candidate ℚ}
    (hpick : r.pick c g = some at_) {row : ℕ} (hrow : r.sourceRow c g at_.index = some row) :
    (r.addCut c row at_).Bounded g s := by
  obtain ⟨⟨E, z, hstands, hle⟩, hlast, htrace⟩ := h
  obtain ⟨hrhs, col, hmark, hbasic⟩ := hstands.not_integer ht hi hsolved hpick hrow
  unfold Run.addCut Run.cut
  rw [hi]
  refine ⟨⟨_, z, ⟨hstands.model.appendCut hmark hbasic, hstands.sense_eq, hstands.numVariables_eq,
    ?_, fun i col' hdirect => ?_⟩, fun y hy => hle y ?_⟩, hlast, htrace.values, fun cut hcut => ?_⟩
  · rw [List.length_append, List.length_singleton, hstands.length_marks]
    exact (hstands.model.states.rectangular.rhsCol_grow _ _).symm
  · obtain ⟨hcol, hmark⟩ := hstands.direct i col' hdirect
    refine ⟨hcol, ?_⟩
    show List.getD (_ ++ [_]) _ _ = _
    rw [List.getD_append _ _ _ _ (IntegralAt.lt_of_marked hmark)]
    exact hmark
  · exact Model.region_appendRow_subset (fun y hy => hy.1) _ _ hy
  · rcases List.mem_append.1 hcut with hcut | hcut
    · exact htrace.cuts cut hcut
    · rw [List.mem_singleton.1 hcut]
      exact GomoryCut.bound_neg hrhs

/-- Pivots leave what a run stands for. -/
theorem Run.Stands.optimize (h : r.Stands g s E z) (ht : c.tolerance = 0) {r' : Run ℚ}
    (hsession : r'.session = (r.session.optimize c r.journal).state)
    (hmarks : r'.integerColumns = r.integerColumns) :
    r'.Stands g s E z ∧ r'.session.model.Region E = r.session.model.Region E := by
  obtain ⟨⟨t, hmodel, hcar⟩, -⟩ := Session.optimize_spec ht h.model r.journal
  rw [← hsession] at hmodel
  refine ⟨⟨?_, ?_, ?_, ?_, ?_⟩, ?_⟩ <;> rw [hmodel]
  · exact hcar.stands h.model
  · exact h.sense_eq
  · exact h.numVariables_eq
  · rw [hmarks, h.length_marks]
    exact hcar.rhsCol_eq.symm
  · rw [hmarks]
    exact h.direct
  · rfl

/-- An optimum that a model shows bounds the objective in its region, and is attained there. -/
theorem Run.Stands.bounded (h : r.Stands g s E z) (hsolved : r.Solved)
    (hbound : r.solution.optimalValue = some r.bound) :
    (∀ y ∈ r.session.model.Region E, z y ≤ PrimalSimplex.ofMaximized s r.bound) ∧
      ∃ y ∈ r.session.model.Region E, z y = PrimalSimplex.ofMaximized s r.bound := by
  obtain ⟨hshows, hart, hvalue, -⟩ := hsolved.answers.of_optimal hsolved.status_eq
  rw [hbound, h.sense_eq] at hvalue
  rw [Option.some.inj hvalue, Sense.ofMaximized_ofMaximized]
  obtain ⟨y, hy, hz, -⟩ := h.model.exists_mem_region hshows.rhs_nonneg hart
  exact ⟨fun y hy => h.model.le_optimum hshows hy, y, hy, hz⟩

/-- An optimum after a cut is no better than the bound, and takes its place. -/
theorem Run.Bounded.reoptimize (h : r.Bounded g s) (ht : c.tolerance = 0) :
    (r.reoptimize c).Leads (fun r' => r'.Bounded g s ∧ r'.Solved)
      (fun answer => answer.state.Falls s) := by
  obtain ⟨⟨E, z, hstands, hle⟩, hlast, htrace⟩ := h
  obtain ⟨-, hans⟩ := Session.optimize_spec ht hstands.model r.journal
  unfold Run.reoptimize
  dsimp only
  split
  · exact .ended htrace
  · rename_i sol hsol
    split
    · rename_i v hstatus hvalue
      let r' : Run ℚ :=
        { r with
          session := (r.session.optimize c r.journal).state
          solution := sol
          bound := v
          trace := { r.trace with values := r.trace.values ++ [v] }
          journal := (r.session.optimize c r.journal).journal }
      obtain ⟨hstands', hregion⟩ : r'.Stands g s E z ∧ _ := hstands.optimize ht rfl rfl
      have hsolved : r'.Solved := ⟨(hans sol hsol).1, hstatus⟩
      obtain ⟨hle', y, hy, hz⟩ := hstands'.bounded hsolved hvalue
      have hbeats : ¬s.Beats v r.bound := by
        rw [Sense.beats_iff, not_lt]
        exact hz.symm.trans_le (hle y (hregion ▸ hy))
      have hlast' : ∀ w ∈ r.trace.values, ¬s.Beats v w := fun w hw =>
        Sense.not_beats_trans hbeats (hlast w hw)
      refine .next ⟨⟨⟨E, z, hstands', hle'⟩, ?_, ?_, htrace.cuts⟩, hsolved⟩
      · refine List.forall_mem_append.2 ⟨hlast', fun w hw => ?_⟩
        rw [List.mem_singleton.1 hw]
        exact Sense.not_beats_self s v
      · refine List.pairwise_append.2 ⟨htrace.values, List.pairwise_singleton _ _, ?_⟩
        rintro w hw _ hv
        rw [List.mem_singleton.1 hv]
        exact hlast' w hw
    · exact .ended htrace

/-- A round lowers the bound or ends with the trace so far. -/
theorem Run.Bounded.round (h : r.Bounded g s) (ht : c.tolerance = 0)
    (hi : c.integralityTolerance = 0) (hsolved : r.Solved) {at_ : Fractional.Candidate ℚ}
    (hpick : r.pick c g = some at_) :
    (r.round c g at_).Leads (fun r' => r'.Bounded g s ∧ r'.Solved)
      (fun answer => answer.state.Falls s) := by
  let asked : Run ℚ := { r with journal := (c.ask r.journal).2 }
  have hasked : asked.Bounded g s := by
    obtain ⟨E, z, hstands, hle⟩ := h.stands
    exact ⟨⟨E, z, { hstands with }, hle⟩, h.last, h.trace⟩
  have hsame : asked.Solved := ⟨hsolved.answers, hsolved.status_eq⟩
  unfold Run.round
  dsimp only
  split_ifs
  · exact .ended h.trace
  · exact .ended h.trace
  · split
    · exact .ended h.trace
    · rename_i row hrow
      exact (hasked.addCut ht hi hsame hpick hrow).reoptimize ht

/-- A run begins at the optimum of the relaxation, with its value alone in the trace. -/
theorem begin_bounded {root : Call (Session ℚ) ℚ} {sol : Solution ℚ} {v : ℚ}
    (hrep : root.state.model.Represents c.bigM ⟨p, []⟩) (hans : root.state.model.Answers sol)
    (hstatus : sol.status = .optimal) (hvalue : sol.optimalValue = some v)
    (h : begin c p root sol v = .ok (g, r)) : r.Bounded g p.sense ∧ r.Solved := by
  have hdirect : ∀ i col, (i, col) ∈ g.direct ↔
      i ∈ candidates p ∧ (ColumnMap.ofProblem p).directColumn? i = some col :=
    fun _ _ => mem_direct_of_begin h
  obtain ⟨f, hf, rfl, rfl⟩ := begin_eq_ok h
  have hcolumns := (StandardForm.ofProblem_eq_ok hf).1
  let run : Run ℚ := ⟨root.state, sol, v, integerColumns f (candidates p) c.tolerance,
    { values := [v] }, root.journal⟩
  let goal : Goal := ⟨p.numVariables, (candidates p).filterMap fun i =>
    (f.columns.directColumn? i).map fun col => (i, col)⟩
  have hstands : run.Stands goal p.sense (root.state.model.columns.Holds (Posed.mk p []).rows)
      ((Posed.mk p []).penalized c.bigM) := by
    refine ⟨hrep.stands, ?_, ?_, hrep.length_integerColumns hf _ _, fun i col hmem => ?_⟩
    · show root.state.model.problem.sense = _
      rw [hrep.problem_eq, Posed.current_nil]
    · show p.vars.length = _
      rw [hrep.columns_eq]
      exact (List.length_map _).symm
    · obtain ⟨hi, hcol⟩ := (hdirect i col).1 hmem
      refine ⟨hrep.columns_eq ▸ hcol, ?_⟩
      have hmark : (decisionMarks f (candidates p)).getD col false = true :=
        getD_decisionMarks.2 ⟨i, hi, hcolumns ▸ hcol⟩
      show (integerColumns f (candidates p) c.tolerance).getD col false = true
      rw [integerColumns_eq, List.getD_append _ _ _ _ (IntegralAt.lt_of_marked hmark)]
      exact hmark
  have hsolved : run.Solved := ⟨hans, hstatus⟩
  refine ⟨⟨⟨_, _, hstands, (hstands.bounded hsolved hvalue).1⟩, fun w hw => ?_,
    List.pairwise_singleton _ _, fun cut hcut => (nomatch hcut)⟩, hsolved⟩
  rw [List.mem_singleton.1 hw]
  exact Sense.not_beats_self p.sense v

/-- The rounds keep the trace falling. -/
theorem iterate_falls (ht : c.tolerance = 0) (hi : c.integralityTolerance = 0)
    (left : ℕ) (h : r.Bounded g s) (hsolved : r.Solved) : (iterate c g left r).state.Falls s :=
  iterate_rule (P := fun _ r => r.Bounded g s ∧ r.Solved) (Q := fun answer => answer.state.Falls s)
    (fun _ _ _ h hpick => h.1.round ht hi h.2 hpick) (fun _ _ h _ => h.1.trace)
    (fun _ h => h.1.trace) left ⟨h, hsolved⟩

/-! ## The method -/

/-- What a run is that returns a solution after an optimal relaxation. -/
theorem solve_eq_iterate {α : Type} [Scalar α] {c : Config α} {p : Problem α} {j : Journal α}
    {root sol : Solution α} (hroot : (DualSimplex.solve ⟨c, none⟩ p j).result = .ok root)
    (hopt : root.status = .optimal) (hsol : (solve c p j).result = .ok sol) :
    ∃ s j' v g r, Session.start c p j = .ok (s, j') ∧ (s.optimize c j').result = .ok root ∧
      root.optimalValue = some v ∧ begin c p (s.optimize c j') root v = .ok (g, r) ∧
      solve c p j = iterate c g c.maxCuts r := by
  unfold DualSimplex.solve at hroot
  unfold solve solveFrom at hsol ⊢
  dsimp only at hroot
  cases hstart : Session.start c p j with
  | error e => rw [hstart] at hroot; cases hroot
  | ok started =>
    obtain ⟨s, j'⟩ := started
    rw [hstart] at hroot hsol
    have hroot : (s.optimize c j').result = .ok root := hroot
    obtain ⟨v, hv⟩ := Option.isSome_iff_exists.1
      ((s.optimize_decides c j' root hroot).value_iff.2 hopt)
    dsimp only at hsol ⊢
    rw [hroot] at hsol ⊢
    dsimp only at hsol ⊢
    rw [hopt, hv] at hsol ⊢
    dsimp only at hsol ⊢
    cases hbegin : begin c p (s.optimize c j') root v with
    | error e => rw [hbegin] at hsol; cases hsol
    | ok begun => exact ⟨s, j', v, begun.1, begun.2, rfl, hroot, rfl, hbegin, rfl⟩

/-- After an optimal relaxation a run that returns a solution has at most `c.maxCuts` cuts. Its
trace has one value more than cuts, the optimal value of every optimization that the journal tells
of, or as many if the last optimization came to no optimum. At tolerance zero the values get no
better from cut to cut, and the right-hand side of every cut is negative. -/
theorem solve_trace :
    (∀ {α : Type} [Scalar α] (c : Config α) (p : Problem α) (j : Journal α) (root sol : Solution α),
      (DualSimplex.solve ⟨c, none⟩ p j).result = .ok root → root.status = .optimal →
        (solve c p j).result = .ok sol →
          (solve c p j).state.cuts.length ≤ c.maxCuts ∧ ∃ verdicts,
            (solve c p j).journal.verdicts = j.verdicts ++ verdicts ∧
              (solve c p j).state.Tells verdicts) ∧
    ∀ (c : Config ℚ) (p : Problem ℚ) (j : Journal ℚ) (root sol : Solution ℚ),
      c.tolerance = 0 → c.integralityTolerance = 0 →
      (DualSimplex.solve ⟨c, none⟩ p j).result = .ok root → root.status = .optimal →
        (solve c p j).result = .ok sol →
          ((solve c p j).state.values.Pairwise fun v w => ¬p.sense.Beats w v) ∧
            ∀ cut ∈ (solve c p j).state.cuts, cut.bound < 0 := by
  refine ⟨fun c p j root sol hroot hopt hsol => ?_, fun c p j root sol ht hi hroot hopt hsol => ?_⟩
  · obtain ⟨s, j', v, g, r, hstart, hroot, hv, hbegin, heq⟩ := solve_eq_iterate hroot hopt hsol
    have hverdicts := s.verdicts_optimize c j' hroot
    rw [Session.verdicts_start hstart, hopt, hv] at hverdicts
    obtain ⟨hcounts, hcuts⟩ := begin_counts hverdicts hbegin
    have htold := iterate_told c g c.maxCuts hcounts (by rw [hcuts, Nat.zero_add])
    rw [← heq] at htold
    exact htold sol hsol
  · obtain ⟨s, j', v, g, r, hstart, hroot, hv, hbegin, heq⟩ := solve_eq_iterate hroot hopt hsol
    obtain ⟨hrep, hans⟩ := Session.optimize_represents ht (Session.start_represents hstart) j'
    obtain ⟨hbounded, hsolved⟩ := begin_bounded hrep (hans root hroot) hopt hv hbegin
    have hfalls := iterate_falls ht hi c.maxCuts hbounded hsolved
    rw [← heq] at hfalls
    exact ⟨hfalls.values, hfalls.cuts⟩

/-- One cut takes the optimum of `3 x₁ + 2 x₂` with `2 x₁ + 2 x₂ ≤ 7` and `x₁ ≤ 2` from `9` to `8`,
which is integral. With `2 x₁ = 1` no point is left by the cut on `x₁ = 1 / 2`. -/
theorem solve_trace_one_cut :
    let p : Problem ℚ :=
      { Problem.ofObjective .maximize [3, 2] with
        constraints := [⟨[2, 2], .le, 7⟩, ⟨[1, 0], .le, 2⟩] }
    let q : Problem ℚ := { Problem.ofObjective .maximize [1] with constraints := [⟨[2], .eq, 1⟩] }
    ((solve .exact p {}).state.values = [9, 8] ∧
      (solve .exact p {}).state.Tells [(.optimal, some 9), (.optimal, some 8)] ∧
      ((solve .exact p {}).state.values.Pairwise fun v w => ¬p.sense.Beats w v) ∧
      ∀ cut ∈ (solve .exact p {}).state.cuts, cut.bound < 0) ∧
    (solve .exact q {}).state.cuts.length = 1 ∧
      (solve .exact q {}).state.Tells [(.optimal, some (1 / 2)), (.infeasible, none)] := by
  intro p q
  constructor
  · have hrelaxed : (DualSimplex.solve ⟨.exact, none⟩ p {}).result.toOption.map (·.status) =
        some .optimal := by decide +kernel
    have hsolved : (solve .exact p {}).result.toOption.map (·.status) = some .optimal := by
      decide +kernel
    have hvalues : (solve .exact p {}).state.values = [9, 8] := by decide +kernel
    have htold : (solve .exact p {}).journal.verdicts =
        [(.optimal, some 9), (.optimal, some 8)] := by decide +kernel
    obtain ⟨root, hroot, hopt⟩ := exists_ok_of_map hrelaxed
    obtain ⟨sol, hsol, -⟩ := exists_ok_of_map hsolved
    obtain ⟨-, verdicts, hverdicts, htells⟩ := solve_trace.1 _ p {} root sol hroot hopt hsol
    obtain rfl := htold.symm.trans hverdicts
    exact ⟨hvalues, htells, solve_trace.2 _ p {} root sol rfl rfl hroot hopt hsol⟩
  · have hrelaxed : (DualSimplex.solve ⟨.exact, none⟩ q {}).result.toOption.map (·.status) =
        some .optimal := by decide +kernel
    have hsolved : (solve .exact q {}).result.toOption.map (·.status) = some .infeasible := by
      decide +kernel
    have hcuts : (solve .exact q {}).state.cuts.length = 1 := by decide +kernel
    have htold : (solve .exact q {}).journal.verdicts =
        [(.optimal, some (1 / 2)), (.infeasible, none)] := by decide +kernel
    obtain ⟨root, hroot, hopt⟩ := exists_ok_of_map hrelaxed
    obtain ⟨sol, hsol, -⟩ := exists_ok_of_map hsolved
    obtain ⟨-, verdicts, hverdicts, htells⟩ := solve_trace.1 _ q {} root sol hroot hopt hsol
    obtain rfl := htold.symm.trans hverdicts
    exact ⟨hcuts, htells⟩

end CuttingPlane
end LinOpt
