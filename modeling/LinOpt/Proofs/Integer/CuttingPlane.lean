import LinOpt.Proofs.Integer.Relaxation
import LinOpt.Proofs.Simplex.Dual.Shape

/-!
# Cutting planes keep the admissible points

A run begins at the optimum of the relaxation, and every round adds a cut and optimizes again
(`Reaches`). What the rounds keep carries over to the answer by one rule (`iterate_rule`). All
along, the model of the session relaxes the problem with the columns marked that the run takes for
integral (`Run.Relaxes`): it does at the start, a cut keeps it, whatever slacks of earlier cuts are
in its row, and so do the pivots after it (`Reaches.sound`). The counters of the model go on
counting its columns, each cut with a slack column of its own (`Reaches.counted`).

So no cut removes an admissible point, and an optimum that a run ends with is the best value over
the admissible points (`solve_admissible`).
-/

namespace LinOpt.CuttingPlane

section General

variable {α : Type} [Scalar α]

/-! ## The start of a run -/

section Start

variable {c : Config α} {p : Problem α} {root : Call (Session α) α} {sol : Solution α} {v : α}
  {g : Goal} {r : Run α}

/-- A run begins with the session of the relaxation, if the problem has a standard form. -/
theorem begin_eq_ok (h : begin c p root sol v = .ok (g, r)) :
    ∃ f, StandardForm.ofProblem p = .ok f ∧
      g = ⟨p.numVariables, (candidates p).filterMap fun i =>
        (f.columns.directColumn? i).map fun col => (i, col)⟩ ∧
      r = ⟨root.state, sol, v, integerColumns f (candidates p) c.tolerance, { values := [v] },
        root.journal⟩ := by
  unfold begin at h
  cases hf : StandardForm.ofProblem p with
  | error e =>
    rw [hf] at h
    cases h
  | ok f =>
    rw [hf] at h
    obtain ⟨rfl, rfl⟩ := Prod.mk.inj (Except.ok.inj h)
    exact ⟨f, rfl, rfl, rfl⟩

/-- A run looks for the candidates that have a column of their own. -/
theorem mem_direct_of_begin (h : begin c p root sol v = .ok (g, r)) {i col : ℕ} :
    (i, col) ∈ g.direct ↔
      i ∈ candidates p ∧ (ColumnMap.ofProblem p).directColumn? i = some col := by
  obtain ⟨f, hf, rfl, -⟩ := begin_eq_ok h
  rw [← (StandardForm.ofProblem_eq_ok hf).1]
  simp only [List.mem_filterMap, Option.map_eq_some_iff, Prod.mk.injEq]
  constructor
  · rintro ⟨i', hi', col', hcol, rfl, rfl⟩
    exact ⟨hi', hcol⟩
  · rintro ⟨hi', hcol⟩
    exact ⟨i, hi', col, hcol, rfl, rfl⟩

end Start

/-! ## A rule for the rounds -/

/-- What a round leads to: a run that it goes on with, or an answer. -/
inductive Round.Leads (P : Run α → Prop) (Q : Call (Trace α) α → Prop) : Round α → Prop
  | next {r : Run α} (h : P r) : Leads P Q (.next r)
  | ended {r : Run α} {answer : Call (Trace α) α} (h : Q answer) : Leads P Q (.ended r answer)

/-- A property of runs that every round keeps, each with the cuts left, and what it makes of every
way to end. The induction is on the cuts left. -/
theorem iterate_rule {c : Config α} {g : Goal} {P : ℕ → Run α → Prop}
    {Q : Call (Trace α) α → Prop}
    (hround : ∀ left r at_, P (left + 1) r → r.pick c g = some at_ →
      (r.round c g at_).Leads (P left) Q)
    (hintegral : ∀ left r, P left r → r.pick c g = none → Q (r.integral c g))
    (hcuts : ∀ r, P 0 r → let cuts := r.trace.cuts.length
      Q ({ r with journal := c.emit r.journal (.cutsStopped cuts r.bound) }.finish
        (r.solution.terminate .limitReached (.maximumCuts cuts r.bound))))
    (left : ℕ) {r : Run α} (h : P left r) : Q (iterate c g left r) := by
  induction left generalizing r with
  | zero =>
    unfold iterate
    split
    · exact hintegral 0 r h ‹_›
    · exact hcuts r h
  | succ left ih =>
    unfold iterate
    split
    · exact hintegral _ r h ‹_›
    · rename_i at_ hpick
      have hlead := hround left r at_ h hpick
      dsimp only
      generalize r.round c g at_ = round at hlead
      cases hlead with
      | next h => exact ih h
      | ended h => exact h

end General

variable {c : Config ℚ} {p : Problem ℚ} {g : Goal} {r : Run ℚ} {j : Journal ℚ}

/-! ## Runs -/

/-- Exact settings, and the goal of a problem. -/
structure Setting (c : Config ℚ) (p : Problem ℚ) (g : Goal) : Prop where
  tolerance_eq : c.tolerance = 0
  integralityTolerance_eq : c.integralityTolerance = 0
  numVariables_eq : g.numVariables = p.numVariables
  mem_direct : ∀ i col, (i, col) ∈ g.direct ↔
    p.IsInteger i ∧ (ColumnMap.ofProblem p).directColumn? i = some col

/-- The model of a run relaxes the problem, with the columns marked that the run takes for
integral. -/
def Run.Relaxes (r : Run ℚ) (p : Problem ℚ) : Prop :=
  ∃ E z, r.session.model.Relaxes r.integerColumns p E z

/-- A run stands at the optimum of a relaxation. -/
structure Run.AtOptimum (r : Run ℚ) (p : Problem ℚ) : Prop where
  relaxes : r.Relaxes p
  answers : r.session.model.Answers r.solution
  status_eq : r.solution.status = .optimal

/-- The state in which a round leaves a run. -/
def Round.run : Round ℚ → Run ℚ
  | .next r => r
  | .ended r _ => r

/-- A round leaves a run at the optimum of a relaxation, or ends it without optimum. -/
inductive Round.Sound (p : Problem ℚ) : Round ℚ → Prop
  | next {r : Run ℚ} (h : r.AtOptimum p) : Sound p (.next r)
  | ended {r : Run ℚ} {answer : Call (Trace ℚ) ℚ} (h : r.Relaxes p)
      (hanswer : ∀ sol, answer.result = .ok sol → sol.status ≠ .optimal) : Sound p (.ended r answer)

/-- A sound round leaves a relaxation, whether the run goes on or ends. -/
theorem Round.Sound.relaxes {round : Round ℚ} (h : round.Sound p) : round.run.Relaxes p := by
  cases h with
  | next h => exact h.relaxes
  | ended h => exact h

/-! ## Rounds -/

/-- The row of a cut is the one in which the column of a variable to be integral is basic. -/
theorem sourceRow_eq_some (hs : Setting c p g) {index row : ℕ}
    (h : r.sourceRow c g index = some row) : ∃ i col, p.IsInteger i ∧
      (ColumnMap.ofProblem p).directColumn? i = some col ∧
        r.session.model.tableau.basicRow col 0 = some row := by
  obtain ⟨⟨i, col⟩, hfind, hrow⟩ := Option.bind_eq_some_iff.1 h
  obtain ⟨hi, hcol⟩ := (hs.mem_direct i col).1 (List.mem_of_find?_eq_some hfind)
  rw [hs.tolerance_eq] at hrow
  exact ⟨i, col, hi, hcol, hrow⟩

/-- A cut leaves a relaxation. -/
theorem Run.Relaxes.addCut (h : r.Relaxes p) (hs : Setting c p g) {index row : ℕ}
    (hrow : r.sourceRow c g index = some row) (at_ : Fractional.Candidate ℚ) :
    (r.addCut c row at_).Relaxes p := by
  obtain ⟨E, z, h⟩ := h
  obtain ⟨i, col, hi, hcol, hrow⟩ := sourceRow_eq_some hs hrow
  rw [← h.columns_eq] at hcol
  have hlt := h.stands.lt_rhsCol (ColumnMap.point_directColumn hcol fun _ => 0).1
  obtain ⟨E', h'⟩ := h.appendCut hi hcol ((Tableau.basicRow_eq_some hlt).1 hrow)
  refine ⟨E', z, ?_⟩
  unfold Run.addCut Run.cut
  rw [hs.integralityTolerance_eq]
  exact h'

/-- Optimizing after a cut leaves a relaxation, and an optimum unless the run ends. -/
theorem Run.Relaxes.reoptimize (h : r.Relaxes p) (ht : c.tolerance = 0) :
    (r.reoptimize c).Sound p := by
  obtain ⟨E, z, h⟩ := h
  obtain ⟨⟨t, hmodel, hcar⟩, hans⟩ := Session.optimize_spec ht h.stands r.journal
  have hrelaxes : (r.session.optimize c r.journal).state.model.Relaxes r.integerColumns p E z := by
    rw [hmodel]
    exact h.carries hcar
  unfold Run.reoptimize
  dsimp only
  cases hres : (r.session.optimize c r.journal).result with
  | error e => exact .ended ⟨E, z, hrelaxes⟩ fun sol hsol => (nomatch hsol)
  | ok sol =>
    dsimp only
    cases (hans sol hres).1 with
    | optimal hstatus _ _ hvalue =>
      rw [hstatus, hvalue]
      exact .next ⟨⟨E, z, hrelaxes⟩, (hans sol hres).1, hstatus⟩
    | infeasible hstatus hvalue | artificial hstatus hvalue | unbounded hstatus hvalue
    | stopped hstatus hvalue =>
      rw [hstatus, hvalue]
      refine .ended ⟨E, z, hrelaxes⟩ fun sol' hsol' hopt => ?_
      obtain rfl := Except.ok.inj hsol'
      cases hstatus.symm.trans hopt

/-- A round leaves a run at the optimum of a relaxation, or ends it without optimum. -/
theorem Run.AtOptimum.round (h : r.AtOptimum p) (hs : Setting c p g)
    (at_ : Fractional.Candidate ℚ) : (r.round c g at_).Sound p := by
  have hlimit : ∀ (r' : Run ℚ) (reason : Message ℚ) (sol : Solution ℚ),
      (r'.finish (r.solution.terminate .limitReached reason)).result = .ok sol →
        sol.status ≠ .optimal := by
    intro r' reason sol hsol hopt
    obtain rfl := Except.ok.inj hsol
    cases hopt
  unfold Run.round
  dsimp only
  split_ifs
  · exact .ended h.relaxes (hlimit _ _)
  · exact .ended h.relaxes (hlimit _ _)
  · split
    · exact .ended h.relaxes fun sol hsol => (nomatch hsol)
    · rename_i row hrow
      have hasked : ({ r with journal := (c.ask r.journal).2 } : Run ℚ).Relaxes p := h.relaxes
      exact (hasked.addCut hs hrow at_).reoptimize hs.tolerance_eq

/-! ## Runs from the start -/

/-- The states of a run: it begins at the optimum of the relaxation, and goes on by rounds. -/
inductive Reaches (c : Config ℚ) (p : Problem ℚ) (j : Journal ℚ) (g : Goal) : Round ℚ → Prop
  | begin {s : Session ℚ} {j' : Journal ℚ} {sol : Solution ℚ} {v : ℚ} {r : Run ℚ}
      (hstart : Session.start c p j = .ok (s, j')) (hroot : (s.optimize c j').result = .ok sol)
      (hstatus : sol.status = .optimal)
      (hbegin : begin c p (s.optimize c j') sol v = .ok (g, r)) : Reaches c p j g (.next r)
  | round {r : Run ℚ} {at_ : Fractional.Candidate ℚ} (h : Reaches c p j g (.next r))
      (hpick : r.pick c g = some at_) : Reaches c p j g (r.round c g at_)

/-- A run begins at the optimum of a relaxation. -/
theorem begin_spec (ht : c.tolerance = 0) (hi : c.integralityTolerance = 0) (hp : p.Indexed)
    {root : Call (Session ℚ) ℚ} {sol : Solution ℚ} {v : ℚ}
    (hrep : root.state.model.Represents c.bigM ⟨p, []⟩) (hans : root.state.model.Answers sol)
    (hstatus : sol.status = .optimal) (h : begin c p root sol v = .ok (g, r)) :
    Setting c p g ∧ r.AtOptimum p := by
  have hdirect : ∀ i col, (i, col) ∈ g.direct ↔
      i ∈ candidates p ∧ (ColumnMap.ofProblem p).directColumn? i = some col :=
    fun _ _ => mem_direct_of_begin h
  obtain ⟨f, hf, rfl, rfl⟩ := begin_eq_ok h
  have hrelaxes := hrep.relaxes hp hf
  rw [← ht] at hrelaxes
  refine ⟨⟨ht, hi, rfl, fun i col => ?_⟩, ⟨_, _, hrelaxes⟩, hans, hstatus⟩
  exact (hdirect i col).trans (and_congr_left fun _ => Problem.mem_integers_iff hp)

/-- Every state of a run relaxes the problem. -/
theorem Reaches.sound (ht : c.tolerance = 0) (hi : c.integralityTolerance = 0) (hp : p.Indexed)
    {round : Round ℚ} (h : Reaches c p j g round) : Setting c p g ∧ round.Sound p := by
  induction h with
  | begin hstart hroot hstatus hbegin =>
    obtain ⟨hrep, hans⟩ := Session.optimize_represents ht (Session.start_represents hstart) _
    obtain ⟨hs, hopt⟩ := begin_spec ht hi hp hrep (hans _ hroot) hstatus hbegin
    exact ⟨hs, .next hopt⟩
  | round _ _ ih =>
    obtain ⟨hs, hsound⟩ := ih
    cases hsound with
    | next h => exact ⟨hs, h.round hs _⟩

/-- A model that counts its columns right still does so after an optimization. -/
theorem counted_optimize {s : Session ℚ} (h : s.model.Counted) (j : Journal ℚ) :
    (s.optimize c j).state.model.Counted :=
  Session.optimize_invariant (P := Model.Counted) (fun h _ _ => h) h j

/-- A round keeps the counters right: a cut raises the one of slack columns. -/
theorem Run.counted_round (h : r.session.model.Counted) (at_ : Fractional.Candidate ℚ) :
    (r.round c g at_).run.session.model.Counted := by
  unfold Run.round
  dsimp only
  split_ifs
  · exact h
  · exact h
  · split
    · exact h
    · rename_i row _
      have hcut : (({ r with journal := (c.ask r.journal).2 } : Run ℚ).addCut c row
          at_).session.model.Counted := Model.Counted.appendRow h _ _
      have hoptimized := counted_optimize (c := c) hcut
      unfold Run.reoptimize
      dsimp only
      split
      · exact hoptimized _
      · split <;> exact hoptimized _

/-- The counters of every model that a run comes to count its columns, those of the cuts
included. -/
theorem Reaches.counted {round : Round ℚ} (h : Reaches c p j g round) :
    round.run.session.model.Counted := by
  induction h with
  | begin hstart hroot hstatus hbegin =>
    have hbuilt := (Session.start_kept (Model.kept_aligned c) hstart).counted
    obtain ⟨f, -, -, rfl⟩ := begin_eq_ok hbegin
    exact counted_optimize hbuilt _
  | round _ _ ih => exact Run.counted_round ih _

/-- A run that is at an integral optimum has the best value over the admissible points. -/
theorem Run.AtOptimum.isBest (h : r.AtOptimum p) (hs : Setting c p g) (hpick : r.pick c g = none) :
    ∃ v, r.solution.optimalValue = some v ∧
      p.sense.IsBest (p.objectiveValue '' {x | p.Admissible x}) v := by
  obtain ⟨E, z, hrelaxes⟩ := h.relaxes
  refine hrelaxes.isBest h.answers h.status_eq fun i hi => ?_
  obtain ⟨hi, col, hcol⟩ := Problem.isCandidate_iff.1 hi
  have hall := Fractional.most_eq_none_iff.1 hpick _
    (List.mem_map_of_mem ((hs.mem_direct i col).2 ⟨hi, hcol⟩))
  rwa [hs.integralityTolerance_eq, Fractional.isIntegral_zero_iff, hs.numVariables_eq] at hall

/-- An integral optimum that a run comes to is the best value over the admissible points. -/
theorem Reaches.integral_isBest (ht : c.tolerance = 0) (hi : c.integralityTolerance = 0)
    (hp : p.Indexed) (h : Reaches c p j g (.next r)) (hpick : r.pick c g = none) {sol : Solution ℚ}
    (hsol : (r.integral c g).result = .ok sol) : ∃ v, sol.optimalValue = some v ∧
      p.sense.IsBest (p.objectiveValue '' {x | p.Admissible x}) v := by
  obtain ⟨hs, hsound⟩ := h.sound ht hi hp
  obtain rfl := Except.ok.inj hsol
  cases hsound with
  | next hr => exact hr.isBest hs hpick

/-- An optimum that the rounds come to is the best value over the admissible points. -/
theorem iterate_isBest (ht : c.tolerance = 0) (hi : c.integralityTolerance = 0) (hp : p.Indexed)
    (left : ℕ) (h : Reaches c p j g (.next r)) {sol : Solution ℚ}
    (hsol : (iterate c g left r).result = .ok sol) (hopt : sol.status = .optimal) :
    ∃ v, sol.optimalValue = some v ∧
      p.sense.IsBest (p.objectiveValue '' {x | p.Admissible x}) v := by
  refine iterate_rule (P := fun _ r => Reaches c p j g (.next r))
    (Q := fun answer => ∀ sol, answer.result = .ok sol → sol.status = .optimal →
      ∃ v, sol.optimalValue = some v ∧
        p.sense.IsBest (p.objectiveValue '' {x | p.Admissible x}) v)
    (fun _ r at_ h hpick => ?_)
    (fun _ r h hpick sol hsol _ => h.integral_isBest ht hi hp hpick hsol)
    (fun r _ sol hsol hopt => ?_) left h sol hsol hopt
  · have hround := h.round hpick
    generalize r.round c g at_ = round at hround
    cases round with
    | next r' => exact .next hround
    | ended r' answer =>
      cases (hround.sound ht hi hp).2 with
      | ended _ hanswer => exact .ended fun sol hsol hopt => absurd hopt (hanswer sol hsol)
  · obtain rfl := Except.ok.inj hsol
    cases hopt

/-- Every admissible point extends to a solution of all rows, those of the cuts included, without
negative values and with integers in the marked columns, however many cuts were added. An optimum
that a run ends with is the best value over the admissible points. -/
theorem solve_admissible (ht : c.tolerance = 0) (hi : c.integralityTolerance = 0) (hp : p.Indexed)
    (j : Journal ℚ) :
    (∀ g round, Reaches c p j g round → ∀ x, p.Admissible x →
      ∃ y : ℕ → ℚ, (∀ k, 0 ≤ y k) ∧ round.run.session.model.tableau.Solves y ∧
        (ColumnMap.ofProblem p).point y = x ∧ IntegralAt round.run.integerColumns y) ∧
    ∀ sol, (solve c p j).result = .ok sol → sol.status = .optimal → ∃ v, sol.optimalValue = some v ∧
      p.sense.IsBest (p.objectiveValue '' {x | p.Admissible x}) v := by
  refine ⟨fun g round h x hx => ?_, fun sol hsol hopt => ?_⟩
  · obtain ⟨E, z, hrelaxes⟩ := (h.sound ht hi hp).2.relaxes
    obtain ⟨y, ⟨hE, hpos, -⟩, hpoint, hint⟩ := hrelaxes.exists_extension x hx
    exact ⟨y, hpos, (hrelaxes.stands.states.solves_iff y).2 hE, hrelaxes.columns_eq ▸ hpoint, hint⟩
  · unfold solve solveFrom at hsol
    cases hstart : Session.start c p j with
    | error e =>
      rw [hstart] at hsol
      cases hsol
    | ok started =>
      obtain ⟨s, j'⟩ := started
      rw [hstart] at hsol
      dsimp only at hsol
      cases hroot : (s.optimize c j').result with
      | error e =>
        rw [hroot] at hsol
        cases hsol
      | ok root =>
        rw [hroot] at hsol
        dsimp only at hsol
        split at hsol
        · rename_i v hstatus hvalue
          cases hbegin : begin c p (s.optimize c j') root v with
          | error e =>
            rw [hbegin] at hsol
            cases hsol
          | ok begun =>
            rw [hbegin] at hsol
            exact iterate_isBest ht hi hp c.maxCuts (.begin hstart hroot hstatus hbegin) hsol hopt
        · -- an optimal relaxation has a value
          rename_i hnot
          obtain rfl := Except.ok.inj hsol
          obtain ⟨hrep, hans⟩ := Session.optimize_represents ht (Session.start_represents hstart) j'
          obtain ⟨v, hv, -⟩ := hrep.isBest hp (hans _ hroot) hopt
          exact absurd hv (hnot v hopt)

/-- `3 x₁ + 2 x₂` with `2 x₁ + 2 x₂ ≤ 7` and `x₁ ≤ 2`: the relaxation has optimum `9` at `(2, 3 /
2)`, and one cut, which keeps `(2, 1)`, brings it down to `8`. -/
theorem solve_admissible_one_cut :
    let p : Problem ℚ :=
      { Problem.ofObjective .maximize [3, 2] with
        constraints := [⟨[2, 2], .le, 7⟩, ⟨[1, 0], .le, 2⟩] }
    (∃ g round, Reaches .exact p {} g round ∧ round.run.trace.cuts.length = 1 ∧
      ∃ y : ℕ → ℚ, (∀ k, 0 ≤ y k) ∧ round.run.session.model.tableau.Solves y ∧
        (ColumnMap.ofProblem p).point y = [2, 1] ∧ IntegralAt round.run.integerColumns y) ∧
    ∃ sol, (solve .exact p {}).result = .ok sol ∧ sol.optimalValue = some 8 ∧
      p.sense.IsBest (p.objectiveValue '' {x | p.Admissible x}) 8 := by
  intro p
  have hp : p.Indexed := Problem.Indexed.ofObjective .maximize [3, 2]
  obtain ⟨hextends, hbest⟩ := solve_admissible (c := .exact) (p := p) rfl rfl hp {}
  refine ⟨?_, ?_⟩
  · have hpoint : p.Admissible [2, 1] := by
      refine ⟨⟨?_, ?_⟩, fun i _ => ?_⟩
      · have hpos : ∀ a : ℚ, 0 ≤ a → Restriction.nonNegative.Admits a := fun _ ha => ha
        exact .cons (hpos 2 (by decide)) (.cons (hpos 1 (by decide)) .nil)
      · intro k hk
        rcases List.mem_pair.1 hk with rfl | rfl
        · decide +kernel
        · decide +kernel
      · match i with
        | 0 => exact ⟨2, rfl⟩
        | 1 => exact ⟨1, rfl⟩
        | i + 2 => exact ⟨0, rfl⟩
    have hrun : ((Session.start .exact p {}).toOption.bind fun e =>
        (e.1.optimize .exact e.2).result.toOption.bind fun sol =>
          if sol.status = .optimal then
            (begin .exact p (e.1.optimize .exact e.2) sol 9).toOption.bind fun b =>
              (b.2.pick .exact b.1).map fun at_ => (b.2.round .exact b.1 at_).run.trace.cuts.length
          else none) = some 1 := by decide +kernel
    obtain ⟨⟨s, j⟩, hstart, hrun⟩ := Option.bind_eq_some_iff.1 hrun
    obtain ⟨sol, hroot, hrun⟩ := Option.bind_eq_some_iff.1 hrun
    obtain ⟨hstatus, hrun⟩ := Option.ite_none_right_eq_some.1 hrun
    obtain ⟨⟨g, r⟩, hbegin, hrun⟩ := Option.bind_eq_some_iff.1 hrun
    obtain ⟨at_, hpick, hcuts⟩ := Option.map_eq_some_iff.1 hrun
    have hreaches := (Reaches.begin (eq_ok_of_toOption hstart) (eq_ok_of_toOption hroot) hstatus
      (eq_ok_of_toOption hbegin)).round hpick
    exact ⟨g, _, hreaches, hcuts, hextends g _ hreaches [2, 1] hpoint⟩
  · have hrun : (solve .exact p {}).result.toOption.map (fun s => (s.status, s.optimalValue)) =
        some (.optimal, some 8) := by decide +kernel
    cases hsol : (solve .exact p {}).result with
    | error e => rw [hsol] at hrun; cases hrun
    | ok sol =>
      rw [hsol] at hrun
      obtain ⟨hopt, hvalue⟩ := Prod.mk.inj (Option.some.inj hrun)
      obtain ⟨v, hv, hbest⟩ := hbest sol hsol hopt
      obtain rfl : v = 8 := Option.some.inj (hv.symm.trans hvalue)
      exact ⟨sol, rfl, hvalue, hbest⟩

end LinOpt.CuttingPlane
