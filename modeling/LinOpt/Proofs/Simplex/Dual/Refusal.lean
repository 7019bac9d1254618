import LinOpt.Proofs.Simplex.Dual.History

/-!
# Refused requests

What a refused request leaves of a dual solver. Pivots are never refused: both phases choose pivot
elements outside the tolerance (`Model.lt_abs_of_plan`), so what has a model is optimized
(`Session.exists_optimize_eq_ok`), and a request is refused for its input alone
(`DualSimplex.request_cases`).

At that time the model is as it was. A constraint is checked before anything changes, so its refusal
changes nothing; a problem is checked after the trail was started anew, so its refusal takes the
latest solution away although the former model stays (`DualSimplex.view_of_refused`).
-/

namespace LinOpt

variable {α : Type} [Scalar α]

/-! ## Planned pivots -/

namespace Model

variable {m : Model α} {t : Tableau α} {tolerance : α} {row col : ℕ}

/-- The first phase pivots on an entry below the negative tolerance. -/
theorem entry_lt_of_feasibilityPlan (h : m.feasibilityPlan tolerance t = .pivot row col) :
    t.entry row col < -tolerance := by
  unfold feasibilityPlan at h
  cases hmost : Tableau.mostNegative tolerance (t.rhsColumn.map some) with
  | none => rw [hmost] at h; cases h
  | some best =>
    rw [hmost] at h
    dsimp only at h
    split at h
    · cases h
    · rename_i k r hratio
      obtain ⟨rfl, rfl⟩ := Plan.pivot.inj h
      have hentry := Selection.firstBest_getElem? hratio
      rw [List.getElem?_mapIdx] at hentry
      obtain ⟨a, ha, hsome⟩ := Option.map_eq_some_iff.1 hentry
      rw [List.getElem?_take] at ha
      split_ifs at ha
      split_ifs at hsome with hneg
      rw [Tableau.entry_def, List.getD_eq_getElem?_getD, ha]
      exact of_decide_eq_true (Bool.and_eq_true_iff.1 hneg).1

/-- The second phase pivots on an entry above the tolerance. -/
theorem lt_entry_of_optimalityPlan (h : m.optimalityPlan tolerance t = .pivot row col) :
    tolerance < t.entry row col := by
  unfold optimalityPlan at h
  split at h
  · cases h
  · split at h
    · cases h
    · rename_i hleave
      obtain ⟨rfl, rfl⟩ := Plan.pivot.inj h
      exact Tableau.lt_entry_of_leaving hleave

/-- Planned pivot elements lie outside the tolerance. -/
theorem lt_abs_of_plan [Scalar.Measured α] {phase : Phase}
    (h : m.plan tolerance phase t = .pivot row col) : tolerance < Scalar.abs (t.entry row col) := by
  cases phase with
  | feasibility => exact Scalar.Measured.lt_abs _ _ (.inr (entry_lt_of_feasibilityPlan h))
  | optimality => exact Scalar.Measured.lt_abs _ _ (.inl (lt_entry_of_optimalityPlan h))

/-- Planned pivots are carried out. -/
theorem pivot_of_plan [Scalar.Measured α] {phase : Phase}
    (h : m.plan tolerance phase t = .pivot row col) :
    t.pivot row col tolerance = .ok (t.eliminate row col) := Tableau.pivot_of_lt (lt_abs_of_plan h)

end Model

/-! ## Runs without refusal -/

namespace Progress

variable [Scalar.Measured α]

/-- A phase ends with a verdict. -/
theorem exists_runPhase_eq_ok (c : Config α) (m : Model α) (phase : Phase) (remaining k : ℕ)
    (s : Progress α) :
    ∃ v, (runPhase c phase (m.plan c.tolerance phase) remaining k s).2 = .ok v := by
  induction remaining generalizing k s with
  | zero =>
    unfold runPhase
    cases m.plan c.tolerance phase s.tableau with
    | settled v => exact ⟨v, rfl⟩
    | stuck v => exact ⟨_, rfl⟩
    | pivot row col => exact ⟨_, rfl⟩
  | succ remaining ih =>
    unfold runPhase
    cases hplan : m.plan c.tolerance phase s.tableau with
    | settled v => exact ⟨v, rfl⟩
    | stuck v =>
      dsimp only
      split_ifs <;> exact ⟨_, rfl⟩
    | pivot row col =>
      dsimp only
      split_ifs
      · exact ⟨_, rfl⟩
      · rw [Model.pivot_of_plan hplan]
        exact ih (k + 1) _

/-- Both phases together end with a verdict. -/
theorem exists_phases_eq_ok (c : Config α) (m : Model α) (s : Progress α) :
    ∃ v, (s.phases c m).2 = .ok v := by
  unfold phases
  split
  · exact exists_runPhase_eq_ok c m .optimality _ 0 _
  · exact exists_runPhase_eq_ok c m .feasibility _ 0 s

end Progress

/-- A session is always optimized. -/
theorem Session.exists_optimize_eq_ok [Scalar.Measured α] (s : Session α) (c : Config α)
    (j : Journal α) : ∃ sol, (s.optimize c j).result = .ok sol := by
  obtain ⟨v, hv⟩ := Progress.exists_phases_eq_ok c s.model ⟨s.model.tableau, s.trail, s.pivots, j⟩
  unfold optimize
  dsimp only
  rw [hv]
  exact ⟨_, rfl⟩

/-! ## Refusals -/

/-- What can be seen of a solver. -/
structure View (α : Type) where
  tableau : Option (Tableau α)
  problem : Option (Problem α)
  columns : Option ColumnMap
  aux : List AuxColumn
  counts : Counts
  solution : Solution α

/-- What is left to be seen when a request is refused. -/
def Request.refuse : Request α → View α → View α
  | .solve _, v => { v with solution := {} }
  | .add _, v => v

namespace DualSimplex

/-- What can be seen of a solver: the parts of its model, if there is one, and its solution. -/
def view (d : DualSimplex α) : View α :=
  let model := d.session.map (·.model)
  { tableau := model.map (·.tableau)
    problem := model.map (·.problem)
    columns := model.map (·.columns)
    aux := (model.map (·.aux)).getD []
    counts := (model.map (·.counts)).getD {}
    solution := d.solution }

/-- No constraint of a request has more coefficients than there are variables, and a constraint that
is added is added to a model. -/
def Accepts (d : DualSimplex α) : Request α → Prop
  | .solve p => p.Fits
  | .add k => ∃ s, d.session = some s ∧ k.coefficients.length ≤ s.model.columns.numVariables ∧
      k.coefficients.length ≤ s.model.problem.numVariables

variable [Scalar.Measured α]

/-- A problem is solved, or refused where only the trail has been started anew. -/
theorem solve_cases (d : DualSimplex α) (p : Problem α) (j : Journal α) :
    (d.Accepts (.solve p) ∧ ∃ sol, (d.solve p j).result = .ok sol) ∨
      (¬d.Accepts (.solve p) ∧ (∃ e, (d.solve p j).result = .error e) ∧
        (d.solve p j).state =
          { d with session := d.session.map fun s => { model := s.model } }) := by
  have hfits := Session.exists_start_iff d.config p j
  unfold solve
  cases hstart : Session.start d.config p j with
  | error e =>
    refine .inr ⟨fun hp => ?_, ⟨e, rfl⟩, rfl⟩
    obtain ⟨_, hok⟩ := hfits.2 hp
    cases hstart.symm.trans hok
  | ok started => exact .inl ⟨hfits.1 ⟨started, hstart⟩, Session.exists_optimize_eq_ok _ _ _⟩

/-- A constraint is added, or refused before anything has changed. -/
theorem addConstraint_cases (d : DualSimplex α) (k : Constraint α) (j : Journal α) :
    (d.Accepts (.add k) ∧ ∃ sol, (d.addConstraint k j).result = .ok sol) ∨
      (¬d.Accepts (.add k) ∧ (∃ e, (d.addConstraint k j).result = .error e) ∧
        (d.addConstraint k j).state = d) := by
  obtain ⟨c, session⟩ := d
  cases session with
  | none =>
    refine .inr ⟨?_, ⟨_, rfl⟩, rfl⟩
    rintro ⟨_, h, -⟩
    cases h
  | some s =>
    have hextend := Model.exists_extend_iff (m := s.model) (c := c) (k := k)
    simp only [addConstraint, after, Session.addConstraint]
    cases hext : s.model.extend c k with
    | error e =>
      refine .inr ⟨?_, ⟨e, rfl⟩, rfl⟩
      rintro ⟨_, ⟨⟩, hlen⟩
      obtain ⟨_, hok⟩ := hextend.2 hlen
      cases hext.symm.trans hok
    | ok m =>
      exact .inl ⟨⟨s, rfl, hextend.1 ⟨m, hext⟩⟩, Session.exists_optimize_eq_ok _ _ _⟩

variable {d : DualSimplex α} {r : Request α} {j : Journal α}

/-- A request has a solution, or it is refused and leaves what `Request.refuse` says. -/
theorem request_cases (d : DualSimplex α) (r : Request α) (j : Journal α) :
    (d.Accepts r ∧ ∃ sol, (d.request r j).result = .ok sol) ∨
      (¬d.Accepts r ∧ (∃ e, (d.request r j).result = .error e) ∧
        (d.request r j).state.view = r.refuse d.view) := by
  cases r with
  | solve p =>
    refine (solve_cases d p j).imp_right ?_
    rintro ⟨hnot, herror, hstate⟩
    refine ⟨hnot, herror, ?_⟩
    rw [request, hstate]
    obtain ⟨c, _ | s⟩ := d <;> rfl
  | add k =>
    refine (addConstraint_cases d k j).imp_right ?_
    rintro ⟨hnot, herror, hstate⟩
    refine ⟨hnot, herror, ?_⟩
    rw [request, hstate, Request.refuse]

/-- A refused request leaves everything that can be seen of a solver but its solution. The solution
stays as well if it was a constraint that was refused, and if there was none; a problem that is
refused takes it away. -/
theorem view_of_refused {e : Error α} (h : (d.request r j).result = .error e) :
    { (d.request r j).state.view with solution := d.solution } = d.view ∧
      ((d.request r j).state.view = d.view ↔ (∃ k, r = .add k) ∨ d.solution = {}) := by
  obtain ⟨-, sol, hsol⟩ | ⟨-, -, hview⟩ := request_cases d r j
  · cases hsol.symm.trans h
  rw [hview]
  cases r with
  | add k => exact ⟨rfl, iff_of_true rfl (.inl ⟨k, rfl⟩)⟩
  | solve p =>
    refine ⟨rfl, fun heq => .inr (congrArg View.solution heq).symm, ?_⟩
    rintro (⟨k, hk⟩ | hnone)
    · cases hk
    · rw [Request.refuse, ← hnone]
      rfl

/-- The greatest `x₁ ≤ 4` stays the latest solution when a constraint on two variables is refused,
and is lost when a problem with that constraint is. -/
theorem view_of_refused_wide :
    let narrow : Problem ℚ :=
      { Problem.ofObjective .maximize [1] with constraints := [⟨[1], .le, 4⟩] }
    let wide : Constraint ℚ := ⟨[1, 1], .le, 4⟩
    let j : Journal ℚ := {}
    let d := run ⟨.exact, none⟩ [(.solve narrow, j)]
    let add := d.request (.add wide) j
    let solve := d.request (.solve { narrow with constraints := [wide] }) j
    (∃ e, add.result = .error e) ∧ add.state.view = d.view ∧
      (∃ e, solve.result = .error e) ∧
      { solve.state.view with solution := d.solution } = d.view := by
  intro narrow wide j d add solve
  have hadd : add.result.toOption.isNone := by decide +kernel
  have hsolve : solve.result.toOption.isNone := by decide +kernel
  cases hadd' : add.result with
  | ok sol => rw [hadd'] at hadd; cases hadd
  | error e =>
    cases hsolve' : solve.result with
    | ok sol => rw [hsolve'] at hsolve; cases hsolve
    | error e' =>
      exact ⟨⟨e, rfl⟩, (view_of_refused hadd').2.2 (.inl ⟨wide, rfl⟩), ⟨e', rfl⟩,
        (view_of_refused hsolve').1⟩

/-- With the greatest `x₁ ≤ 4` as the latest solution, a problem with a constraint on two variables
is refused, and the solution is lost. -/
theorem view_ne_of_refused :
    let narrow : Problem ℚ :=
      { Problem.ofObjective .maximize [1] with constraints := [⟨[1], .le, 4⟩] }
    let wide : Problem ℚ := { narrow with constraints := [⟨[1, 1], .le, 4⟩] }
    let j : Journal ℚ := {}
    let d := run ⟨.exact, none⟩ [(.solve narrow, j)]
    let call := d.request (.solve wide) j
    call.result.toOption.isNone ∧ d.view.solution.optimalValue = some 4 ∧
      call.state.view.solution.optimalValue = none ∧ call.state.view ≠ d.view := by
  intro narrow wide j d call
  have hrefused : call.result.toOption.isNone := by decide +kernel
  have hbefore : d.view.solution.optimalValue = some 4 := by decide +kernel
  have hafter : call.state.view.solution.optimalValue = none := by decide +kernel
  refine ⟨hrefused, hbefore, hafter, fun h => ?_⟩
  rw [h, hbefore] at hafter
  cases hafter

end DualSimplex
end LinOpt
