import LinOpt.Simplex.Dual.Session
import LinOpt.Simplex.Revised

/-!
# Simplex methods without recording

`Solution.erase` drops the recorded steps of a solution, and so do the operations of that name on
everything that carries a solution along. Recording only ever adds steps, and nothing reads them. So
every function of the simplex methods commutes with erasure: on erased data and with recording
switched off it gives what it gives otherwise, erased (`Session.optimize_erase`,
`DualSimplex.solve_erase` and their like). Each of these is one case analysis along the definition.
-/

namespace LinOpt

variable {α : Type}

/-! ## Erasure -/

/-- The settings with recording switched off. -/
def Config.silent (c : Config α) : Config α := { c with recordSteps := false }

/-- A solution without its recorded steps. -/
def Solution.erase (s : Solution α) : Solution α := { s with steps := [] }

/-- An answer without the recorded steps of its solution. -/
def Answer.erase (a : Answer α) : Answer α := { a with result := a.result.map Solution.erase }

/-- A call without the recorded steps of its answer, given how to erase what it leaves behind. -/
def Call.erase {σ : Type} (f : σ → σ) (call : Call σ α) : Call σ α :=
  ⟨call.toAnswer.erase, f call.state⟩

@[simp] theorem Config.erase_record (c : Config α) (label : StepLabel α) (content : StepContent α)
    (s : Solution α) : (c.record label content s).erase = s.erase := by
  unfold Config.record
  split <;> rfl

/-! The other settings stay, and so does what is read of a solution. -/

section
variable (c : Config α) (s : Solution α)

@[simp] theorem Config.tolerance_silent : c.silent.tolerance = c.tolerance := rfl

@[simp] theorem Config.ask_silent (j : Journal α) : c.silent.ask j = c.ask j := rfl

@[simp] theorem Solution.status_erase : s.erase.status = s.status := rfl

@[simp] theorem Solution.optimalValue_erase : s.erase.optimalValue = s.optimalValue := rfl

end

/-! ## The dual method -/

namespace Progress

/-- Progress without recorded steps. -/
def erase (s : Progress α) : Progress α := { s with trail := s.trail.erase }

/-- A silent solver takes the same pivot. -/
theorem pivoted_erase (s : Progress α) (c : Config α) (phase : Phase) (k row col : Nat)
    (t : Tableau α) :
    s.erase.pivoted c.silent phase k row col t = (s.pivoted c phase k row col t).erase := by
  unfold pivoted erase
  rw [Config.erase_record]
  rfl

variable [Scalar α]

/-- A silent solver goes through a phase in the same way, by induction on the pivots left. -/
theorem runPhase_erase (c : Config α) (phase : Phase) (plan : Tableau α → Plan α) :
    ∀ (remaining k : Nat) (s : Progress α), runPhase c.silent phase plan remaining k s.erase =
      ((runPhase c phase plan remaining k s).1.erase, (runPhase c phase plan remaining k s).2) := by
  intro remaining
  induction remaining with
  | zero =>
    intro k s
    unfold runPhase
    dsimp only [erase]
    cases plan s.tableau <;> rfl
  | succ remaining ih =>
    intro k s
    unfold runPhase
    dsimp only [erase]
    cases plan s.tableau with
    | settled v => rfl
    | stuck v =>
      show (if (c.ask s.journal).1 then _ else _) = _
      dsimp only
      split <;> rfl
    | pivot row col =>
      dsimp only
      show (if (c.ask s.journal).1 then _ else _) = _
      split
      · rfl
      · dsimp only [Config.tolerance_silent]
        cases s.tableau.pivot row col c.tolerance with
        | error e => rfl
        | ok t =>
          exact (congrArg (runPhase c.silent phase plan remaining (k + 1)) (pivoted_erase
            { s with journal := (c.ask s.journal).2 } c phase (k + 1) row col t)).trans (ih _ _)

/-- A silent solver goes through both phases in the same way. -/
theorem phases_erase (s : Progress α) (c : Config α) (m : Model α) :
    s.erase.phases c.silent m = ((s.phases c m).1.erase, (s.phases c m).2) := by
  have hfirst : s.erase.phase c.silent m .feasibility =
      ((s.phase c m .feasibility).1.erase, (s.phase c m .feasibility).2) :=
    runPhase_erase c .feasibility _ _ 0 s
  unfold phases
  rw [hfirst]
  generalize s.phase c m .feasibility = out
  obtain ⟨s, verdict⟩ := out
  cases verdict with
  | error e => rfl
  | ok v =>
    cases v with
    | done => exact runPhase_erase c .optimality _ _ 0 s
    | infeasible | unbounded | limit | interrupted => rfl

end Progress

variable [Scalar α]

/-- A silent solver concludes the same from a verdict. -/
theorem Model.conclude_erase (m : Model α) (c : Config α) (trail : Solution α) (v : Verdict α) :
    m.conclude c.silent trail.erase v = (m.conclude c trail v).erase := by
  unfold Model.conclude
  cases v with
  | done =>
    dsimp only [Config.tolerance_silent]
    cases m.positiveArtificial? c.tolerance <;> rfl
  | infeasible | unbounded | limit | interrupted => rfl

namespace Session

/-- A session without recorded steps. -/
def erase (s : Session α) : Session α := { s with trail := s.trail.erase }

/-- A silent solver starts with the same model. -/
theorem start_erase (c : Config α) (p : Problem α) (j : Journal α) :
    start c.silent p j = (start c p j).map fun e => (e.1.erase, e.2) := by
  unfold start
  show Except.map _ (Model.build c.bigM p) = _
  cases Model.build c.bigM p with
  | error e => rfl
  | ok m =>
    exact congrArg (fun trail => Except.ok (({ model := m, trail } : Session α),
      c.emit j (.dualBuilt m.numDecisions m.tableau.numConstraints)))
        (c.erase_record .initial (.tableau m.tableau) {}).symm

/-- A silent solver optimizes in the same way. -/
theorem optimize_erase (s : Session α) (c : Config α) (j : Journal α) :
    s.erase.optimize c.silent j = (s.optimize c j).erase erase := by
  have hphases := Progress.phases_erase ⟨s.model.tableau, s.trail, s.pivots, j⟩ c s.model
  unfold optimize
  dsimp only [Progress.erase, erase] at hphases ⊢
  rw [hphases]
  generalize Progress.phases _ c s.model = out
  obtain ⟨p, verdict⟩ := out
  cases verdict with
  | error e => rfl
  | ok v =>
    dsimp only [Call.erase, Answer.erase, Except.map]
    rw [Model.conclude_erase]
    rfl

/-- A silent session takes the same constraint. -/
theorem addConstraint_erase (s : Session α) (c : Config α) (k : Constraint α) (j : Journal α) :
    s.erase.addConstraint c.silent k j = (s.addConstraint c k j).erase erase := by
  unfold addConstraint
  have hextend : s.erase.model.extend c.silent k = s.model.extend c k := rfl
  rw [hextend]
  cases s.model.extend c k with
  | error e => rfl
  | ok m =>
    let added : AddedConstraint α := ⟨k, (AuxColumn.ofRow s.model.counts k).name⟩
    let grown : Session α :=
      ⟨m, c.record (.added added) (.tableau m.tableau) (s.trail.log (.added added)), s.pivots⟩
    have hgrown : grown.erase = ⟨m, s.trail.erase.log (.added added), s.pivots⟩ := by
      unfold erase
      rw [Config.erase_record]
      rfl
    have hend := grown.optimize_erase c (c.emit j (.constraintAdded added))
    rw [hgrown] at hend
    exact hend

/-- A cut is appended as it is otherwise, without the step. -/
theorem appendCut_erase (s : Session α) (c : Config α) (coefficients : List α) (note : CutNote α)
    (j : Journal α) : s.erase.appendCut c.silent coefficients note j =
      ((s.appendCut c coefficients note j).1.erase, (s.appendCut c coefficients note j).2) := by
  unfold appendCut erase
  rw [Config.erase_record]
  rfl

end Session

namespace DualSimplex

/-- A solver with recording switched off and without the steps it has recorded. -/
def erase (d : DualSimplex α) : DualSimplex α := ⟨d.config.silent, d.session.map Session.erase⟩

/-- The dual method answers to a problem as it does otherwise, without the steps. -/
theorem solve_erase (d : DualSimplex α) (p : Problem α) (j : Journal α) :
    d.erase.solve p j = (d.solve p j).erase erase := by
  have hstart : Session.start d.erase.config p j = _ := Session.start_erase d.config p j
  unfold solve
  rw [hstart]
  cases Session.start d.config p j with
  | error e => obtain ⟨c, _ | s⟩ := d <;> rfl
  | ok started => exact congrArg d.erase.after (Session.optimize_erase _ d.config _)

/-- The dual method answers to a constraint as it does otherwise, without the steps. -/
theorem addConstraint_erase (d : DualSimplex α) (k : Constraint α) (j : Journal α) :
    d.erase.addConstraint k j = (d.addConstraint k j).erase erase := by
  obtain ⟨c, _ | s⟩ := d
  · rfl
  · exact congrArg (after ⟨c.silent, some s.erase⟩) (Session.addConstraint_erase s c k j)

end DualSimplex

/-! ## The primal methods -/

/-- A silent primal method makes the same pivots, by induction on the pivots left. -/
theorem PrimalSimplex.iterate_erase (c : Config α) (f : StandardForm α) :
    ∀ (remaining k : Nat) (t : Tableau α) (s : Solution α) (j : Journal α),
      iterate c.silent f remaining k t s.erase j = (iterate c f remaining k t s j).erase := by
  intro remaining
  induction remaining with
  | zero =>
    intro k t s j
    unfold iterate
    show (if t.IsOptimal c.tolerance then _ else _) = _
    dsimp only
    split <;> rfl
  | succ remaining ih =>
    intro k t s j
    unfold iterate
    show (if t.IsOptimal c.tolerance then _ else if (c.ask j).1 then _ else _) = _
    dsimp only
    split
    · rfl
    split
    · rfl
    dsimp only [Config.tolerance_silent]
    cases t.entering c.tolerance with
    | none => rfl
    | some col =>
      dsimp only
      cases t.leaving col c.tolerance with
      | none => rfl
      | some row =>
        dsimp only
        cases t.pivot row col c.tolerance with
        | error e => rfl
        | ok t =>
          dsimp only
          rw [← ih, Config.erase_record]
          rfl

/-- The primal method answers as it does otherwise, without the steps. -/
theorem PrimalSimplex.solve_erase (c : Config α) (p : Problem α) (j : Journal α) :
    solve c.silent p j = (solve c p j).erase := by
  unfold solve
  dsimp only
  generalize (do let f ← StandardForm.ofProblem p; return (f, ← buildTableau f) :
    Except (Error α) (StandardForm α × Tableau α)) = start
  cases start with
  | error e => rfl
  | ok e =>
    dsimp only
    rw [← iterate_erase, Config.erase_record]
    rfl

/-- A silent revised method makes the same exchanges, by induction on those left. -/
theorem RevisedSimplex.iterate_erase (c : Config α) (f : StandardForm α) :
    ∀ (remaining k : Nat) (b : Basis α) (s : Solution α) (j : Journal α),
      iterate c.silent f remaining k b s.erase j = (iterate c f remaining k b s j).erase := by
  intro remaining
  induction remaining with
  | zero => exact fun _ _ _ _ => rfl
  | succ remaining ih =>
    intro k b s j
    unfold iterate
    dsimp only [Config.tolerance_silent, Config.ask_silent]
    split
    · rfl
    cases b.entering c.tolerance with
    | none => rfl
    | some e =>
      obtain ⟨col, cost⟩ := e
      dsimp only
      cases b.leaving (b.direction col) c.tolerance with
      | none => rfl
      | some row =>
        dsimp only
        cases b.exchange row col c.tolerance with
        | error e => rfl
        | ok b =>
          dsimp only
          rw [← ih, Config.erase_record]
          rfl

/-- The revised method answers as it does otherwise, without the steps. -/
theorem RevisedSimplex.solve_erase (c : Config α) (p : Problem α) (j : Journal α) :
    solve c.silent p j = (solve c p j).erase := by
  unfold solve
  dsimp only
  generalize (do let f ← StandardForm.ofProblem p; return (f, ← Basis.ofStandardForm f) :
    Except (Error α) (StandardForm α × Basis α)) = start
  cases start with
  | error e => rfl
  | ok e =>
    obtain ⟨f, b⟩ := e
    exact iterate_erase c f _ 0 b { counts := ⟨f.columns.numColumns, b.rhs.length, 0, 0⟩ } j

end LinOpt
