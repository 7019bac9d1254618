import LinOpt.Proofs.Simplex.Dual.History

/-!
# Replaying the audit trail

With steps recorded, the trail of a session says how its tableau came about: it starts with the
tableau of the model that was built, and every later entry is the one before it after the pivot that
it names, or with the constraint that it names (`Replays`). Every way in which an optimization may
end leaves such a trail, pivots that are refused included (`Session.Recorded.optimize`).

Trails only grow (`Solution.Extends`). So the solutions that a solver returns for a problem and
constraints added to it are replayed from one model, and each of them extends those before it
(`DualSimplex.replays_of_solve`).
-/

namespace LinOpt

variable {α : Type} [Scalar α]

/-! ## Recorded tableaux -/

/-- The tableau that a step holds. -/
def Step.tableau? (s : Step α) : Option (Tableau α) :=
  match s.content with
  | .tableau t => some t
  | .text _ => none

/-- The tableau recorded last. -/
def Step.last? (steps : List (Step α)) : Option (Tableau α) := steps.getLast?.bind Step.tableau?

/-- Steps that lead from a model to another: the first holds the initial tableau, and every other
the tableau recorded before it, after the pivot that the step names or extended by the constraint
that it names. -/
inductive Replays (c : Config α) (m₀ : Model α) : List (Step α) → Model α → Prop where
  | initial : Replays c m₀ [⟨.initial, .tableau m₀.tableau⟩] m₀
  | pivot {steps : List (Step α)} {m : Model α} {t t' : Tableau α} (phase : Phase) (k row col : ℕ)
      (h : Replays c m₀ steps m) (hlast : Step.last? steps = some t)
      (hpivot : t.pivot row col c.tolerance = .ok t') :
      Replays c m₀ (steps ++ [⟨.pivot phase k row col, .tableau t'⟩]) { m with tableau := t' }
  | added {steps : List (Step α)} {m m' : Model α} {t : Tableau α} (k : Constraint α)
      (h : Replays c m₀ steps m) (hlast : Step.last? steps = some t)
      (hextend : ({ m with tableau := t } : Model α).extend c k = .ok m') :
      Replays c m₀
        (steps ++ [⟨.added ⟨k, (AuxColumn.ofRow m.counts k).name⟩, .tableau m'.tableau⟩]) m'

omit [Scalar α] in
@[simp] theorem Step.last?_concat (steps : List (Step α)) (label : StepLabel α) (t : Tableau α) :
    Step.last? (steps ++ [⟨label, .tableau t⟩]) = some t := by
  simp [last?, tableau?]

/-- The tableau recorded last is that of the model. -/
theorem Replays.last {c : Config α} {m₀ m : Model α} {steps : List (Step α)}
    (h : Replays c m₀ steps m) : Step.last? steps = some m.tableau := by
  cases h with
  | initial => rfl
  | pivot | added => exact Step.last?_concat _ _ _

/-- The first recorded tableau is that of the model to start from. -/
theorem Replays.head {c : Config α} {m₀ m : Model α} {steps : List (Step α)}
    (h : Replays c m₀ steps m) : steps.head? = some ⟨.initial, .tableau m₀.tableau⟩ := by
  induction h with
  | initial => rfl
  | pivot _ _ _ _ _ _ _ ih | added _ _ _ _ ih => rw [List.head?_append, ih]; rfl

/-! ## Trails that grow -/

/-- A solution goes on from the steps and messages of another. -/
def Solution.Extends (s s' : Solution α) : Prop :=
  s'.steps <+: s.steps ∧ s'.messages <+: s.messages

namespace Solution.Extends

variable {s s' s'' : Solution α}

omit [Scalar α] in
/-- A solution extends itself. -/
theorem refl (s : Solution α) : s.Extends s := ⟨List.prefix_rfl, List.prefix_rfl⟩

omit [Scalar α] in
/-- What extends an extension extends the solution. -/
theorem trans (h : s.Extends s') (h' : s'.Extends s'') : s.Extends s'' :=
  ⟨h'.1.trans h.1, h'.2.trans h.2⟩

omit [Scalar α] in
/-- A message extends a solution. -/
theorem log (s : Solution α) (m : Message α) : (s.log m).Extends s :=
  ⟨List.prefix_rfl, List.prefix_append _ _⟩

omit [Scalar α] in
/-- A step extends a solution. -/
theorem record (s : Solution α) (c : Config α) (label : StepLabel α) (content : StepContent α) :
    (c.record label content s).Extends s := by
  unfold Config.record
  split_ifs
  · exact ⟨List.prefix_append _ _, List.prefix_rfl⟩
  · exact refl s

end Solution.Extends

/-- What is concluded keeps the steps and adds a message. -/
theorem Model.conclude_extends (m : Model α) (c : Config α) (trail : Solution α) (v : Verdict α) :
    (m.conclude c trail v).steps = trail.steps ∧ (m.conclude c trail v).Extends trail := by
  unfold Model.conclude
  cases v with
  | done =>
    dsimp only
    split <;> exact ⟨rfl, List.prefix_rfl, List.prefix_append _ _⟩
  | infeasible | unbounded | limit | interrupted =>
    exact ⟨rfl, List.prefix_rfl, List.prefix_append _ _⟩

/-! ## Sessions -/

/-- The trail of a session replays from a model to its own. -/
def Session.Recorded (s : Session α) (c : Config α) (m₀ : Model α) : Prop :=
  Replays c m₀ s.trail.steps s.model

namespace Session

variable {s : Session α} {c : Config α} {m₀ : Model α}

/-- The trail of a session starts with the model that was built. -/
theorem exists_recorded_start (hrec : c.recordSteps) {p : Problem α} {j j' : Journal α}
    (h : start c p j = .ok (s, j')) :
    Model.build c.bigM p = .ok s.model ∧ s.Recorded c s.model := by
  obtain ⟨m, hbuild, rfl, -⟩ := start_eq_ok h
  refine ⟨hbuild, ?_⟩
  rw [Recorded, Config.record, if_pos hrec]
  exact .initial

/-- An optimization records its pivots, whatever it ends with, and what it answers is its trail. -/
theorem Recorded.optimize (hrec : c.recordSteps) (h : s.Recorded c m₀) (j : Journal α) :
    let call := s.optimize c j
    call.state.Recorded c m₀ ∧ call.state.trail.Extends s.trail ∧
      ∀ sol, call.result = .ok sol →
        call.state.trail = sol ∧ sol.tableau = some call.state.model.tableau := by
  have hend := Progress.phases_rule c s.model
    (P := fun p => Replays c m₀ p.trail.steps { s.model with tableau := p.tableau } ∧
      p.trail.Extends s.trail)
    (fun _ => id) (fun _ _ _ => id)
    (fun phase p k row col t hkept _ hpivot => by
      obtain ⟨hreplays, hextends⟩ := hkept
      refine ⟨?_, (Solution.Extends.record _ _ _ _).trans hextends⟩
      rw [Progress.pivoted, Config.record, if_pos hrec]
      exact hreplays.pivot phase k row col hreplays.last hpivot)
    ⟨s.model.tableau, s.trail, s.pivots, j⟩ ⟨h, .refl _⟩
  unfold Session.optimize
  generalize Progress.phases _ c s.model = out at hend
  obtain ⟨p, verdict⟩ := out
  obtain ⟨hreplays, hextends⟩ := hend
  cases verdict with
  | error e => exact ⟨hreplays, hextends, fun sol hsol => by cases hsol⟩
  | ok v =>
    obtain ⟨hsteps, hconclude⟩ :=
      Model.conclude_extends { s.model with tableau := p.tableau } c p.trail v
    refine ⟨?_, hconclude.trans hextends, fun sol hsol => ?_⟩
    · show Replays c m₀ (Model.conclude _ c p.trail v).steps _
      rw [hsteps]
      exact hreplays
    · obtain rfl := Except.ok.inj hsol
      exact ⟨rfl, (Model.conclude_shows _ c p.trail v).1⟩

/-- A constraint is recorded and then the pivots after it. One that is refused leaves the trail. -/
theorem Recorded.addConstraint (hrec : c.recordSteps) (h : s.Recorded c m₀) (k : Constraint α)
    (j : Journal α) :
    let call := s.addConstraint c k j
    call.state.Recorded c m₀ ∧ call.state.trail.Extends s.trail ∧
      ∀ sol, call.result = .ok sol →
        call.state.trail = sol ∧ sol.tableau = some call.state.model.tableau := by
  unfold Session.addConstraint
  cases hext : s.model.extend c k with
  | error e => exact ⟨h, .refl _, fun sol hsol => (nomatch hsol)⟩
  | ok m =>
    have hadded : Session.Recorded ⟨m, c.record (.added ⟨k, (AuxColumn.ofRow s.model.counts k).name⟩)
        (.tableau m.tableau) (s.trail.log (.added ⟨k, (AuxColumn.ofRow s.model.counts k).name⟩)),
        s.pivots⟩ c m₀ := by
      rw [Session.Recorded, Config.record, if_pos hrec]
      exact .added k h h.last hext
    obtain ⟨hreplays, hextends, hsol⟩ := hadded.optimize hrec
      (c.emit j (.constraintAdded ⟨k, (AuxColumn.ofRow s.model.counts k).name⟩))
    exact ⟨hreplays, hextends.trans ((Solution.Extends.record _ _ _ _).trans (.log _ _)), hsol⟩

end Session

/-! ## Solutions of a solver -/

namespace DualSimplex

/-- The solutions of a history of requests, refusals left out. -/
def solutions (d : DualSimplex α) : List (Request α × Journal α) → List (Solution α)
  | [] => []
  | (r, j) :: history =>
    (d.request r j).result.toOption.toList ++ solutions (d.request r j).state history

variable {d : DualSimplex α} {m₀ : Model α}

/-- A recorded session answers additions with solutions that replay from the same model and that
extend its trail and each other. -/
theorem solutions_recorded {c : Config α} (hrec : c.recordSteps)
    (adds : List (Constraint α × Journal α)) {s : Session α} (h : s.Recorded c m₀) :
    let sols := solutions ⟨c, some s⟩ (adds.map fun a => (.add a.1, a.2))
    (∀ sol ∈ sols, sol.Extends s.trail ∧ ∃ m, Replays c m₀ sol.steps m ∧
      sol.tableau = some m.tableau) ∧
    sols.Pairwise fun sol sol' => sol'.Extends sol := by
  induction adds generalizing s with
  | nil => exact ⟨fun sol hsol => (nomatch hsol), .nil⟩
  | cons a adds ih =>
    obtain ⟨k, j⟩ := a
    obtain ⟨hreplays, hextends, hanswer⟩ := h.addConstraint hrec k j
    obtain ⟨hsols, hpairs⟩ := ih hreplays
    have hlater := fun sol hsol => And.intro ((hsols sol hsol).1.trans hextends) (hsols sol hsol).2
    rw [List.map_cons, solutions]
    simp only [DualSimplex.request, DualSimplex.addConstraint, after]
    cases hresult : (s.addConstraint c k j).result with
    | error e => exact ⟨hlater, hpairs⟩
    | ok sol =>
      obtain ⟨rfl, htableau⟩ := hanswer sol hresult
      exact ⟨List.forall_mem_cons.2 ⟨⟨hextends, _, hreplays, htableau⟩, hlater⟩,
        List.pairwise_cons.2 ⟨fun sol' hsol' => (hsols sol' hsol').1, hpairs⟩⟩

/-- With steps recorded, the solutions to a problem that is solved and to constraints added to it
have trails that start with the tableau of its model. Every later step holds the tableau recorded
before it, after the pivot that the step names or extended by the constraint that it names, and the
last holds the tableau that is returned. Each solution extends the steps and messages of those
before it. -/
theorem replays_of_solve (hrec : d.config.recordSteps) {p : Problem α} {j : Journal α}
    {first : Solution α} (hfirst : (d.solve p j).result = .ok first)
    (adds : List (Constraint α × Journal α)) :
    ∃ m₀, Model.build d.config.bigM p = .ok m₀ ∧
      let sols := d.solutions ((.solve p, j) :: adds.map fun a => (.add a.1, a.2))
      (∀ sol ∈ sols, sol.steps.head? = some ⟨.initial, .tableau m₀.tableau⟩ ∧
        (∃ m, Replays d.config m₀ sol.steps m) ∧ sol.tableau = Step.last? sol.steps) ∧
      sols.Pairwise fun sol sol' => sol.steps <+: sol'.steps ∧ sol.messages <+: sol'.messages := by
  simp only [solutions, DualSimplex.request]
  unfold solve at hfirst ⊢
  cases hstart : Session.start d.config p j with
  | error e => rw [hstart] at hfirst; cases hfirst
  | ok started =>
    obtain ⟨s, j'⟩ := started
    rw [hstart] at hfirst
    obtain ⟨hbuild, hrecorded⟩ := Session.exists_recorded_start hrec hstart
    obtain ⟨hreplays, -, hanswer⟩ := hrecorded.optimize hrec j'
    obtain ⟨hsols, hpairs⟩ := solutions_recorded hrec adds hreplays
    replace hfirst : (s.optimize d.config j').result = .ok first := hfirst
    obtain ⟨rfl, htableau⟩ := hanswer first hfirst
    refine ⟨s.model, hbuild, ?_⟩
    dsimp only [after]
    rw [hfirst]
    have hshown : ∀ {sol : Solution α} {m : Model α}, Replays d.config s.model sol.steps m →
        sol.tableau = some m.tableau →
          sol.steps.head? = some ⟨.initial, .tableau s.model.tableau⟩ ∧
            (∃ m, Replays d.config s.model sol.steps m) ∧ sol.tableau = Step.last? sol.steps :=
      fun h htableau => ⟨h.head, ⟨_, h⟩, htableau.trans h.last.symm⟩
    refine ⟨List.forall_mem_cons.2 ⟨hshown hreplays htableau, fun sol hsol => ?_⟩,
      List.pairwise_cons.2 ⟨fun sol hsol => (hsols sol hsol).1, hpairs⟩⟩
    obtain ⟨-, m, hm, htableau⟩ := hsols sol hsol
    exact hshown hm htableau

/-- The least `2 x₁ + 3 x₂` for `x₁ + x₂ ≥ 4`, then with `x₂ ≥ 1`, then with a constraint on three
variables, which is refused, then with `x₁ = 2`: three solutions, with the tableau after each of the
two additions and of one pivot for each of the three rows. -/
theorem replays_of_solve_cover :
    let p : Problem ℚ :=
      { Problem.ofObjective .minimize [2, 3] with constraints := [⟨[1, 1], .ge, 4⟩] }
    let j : Journal ℚ := {}
    let d : DualSimplex ℚ := ⟨.exact, none⟩
    let adds : List (Constraint ℚ × Journal ℚ) :=
      [(⟨[0, 1], .ge, 1⟩, j), (⟨[1, 1, 1], .le, 5⟩, j), (⟨[1], .eq, 2⟩, j)]
    let sols := d.solutions ((.solve p, j) :: adds.map fun a => (.add a.1, a.2))
    sols.map (·.steps.length) = [2, 4, 6] ∧ (∃ m₀, Model.build d.config.bigM p = .ok m₀ ∧
      ∀ sol ∈ sols, ∃ m, Replays d.config m₀ sol.steps m) := by
  intro p j d adds sols
  have hsolve : ((d.solve p j).result.toOption.map (·.status)) = some .optimal := by decide +kernel
  obtain ⟨first, hfirst, -⟩ := exists_ok_of_map hsolve
  obtain ⟨m₀, hbuild, hsols, -⟩ := replays_of_solve (d := d) rfl hfirst adds
  exact ⟨by decide +kernel, m₀, hbuild, fun sol hsol => (hsols sol hsol).2.1⟩

end DualSimplex
end LinOpt
