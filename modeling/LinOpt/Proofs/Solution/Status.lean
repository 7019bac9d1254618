import LinOpt.Proofs.Integer.CuttingPlane
import LinOpt.Proofs.Recording.Methods

/-!
# Statuses and optimal values

A solution that a solver answers with has come to a status, and it has an optimal value exactly if
that status is the one of an optimum (`Solution.Decided`). Solvers make solutions from others: from
the trail of a session, the solution of an incumbent node, the optimum of the last relaxation. What
counts is how each way out of a solver ends the solve. `Solution.terminate` and `Solution.settle`
decide whatever the solution was before, and messages, steps and values leave it decided.

So every answer of every method is decided, and the dual solver does not show the values and the
analysis of a former optimum with another status (`solvers_decide`).
-/

namespace LinOpt

variable {α : Type}

/-! ## Decided solutions -/

/-- A solution has come to a status, and has an optimal value exactly if it is an optimum. -/
structure Solution.Decided (s : Solution α) : Prop where
  status_ne : s.status ≠ .notSolved
  value_iff : s.optimalValue.isSome ↔ s.status = .optimal

/-- An answer is decided if there is one. -/
def Answer.Decides (a : Answer α) : Prop := ∀ s, a.result = .ok s → s.Decided

/-- A solution that is no optimum shows neither values nor an analysis. -/
def Solution.Bare (s : Solution α) : Prop :=
  s.status ≠ .optimal → s.values = {} ∧ s.analysis = none

namespace Solution.Decided

variable {s : Solution α}

/-- Ending without an optimum decides. -/
theorem terminate (s : Solution α) {status : Status} (hsolved : status ≠ .notSolved)
    (hopt : status ≠ .optimal) (reason : Message α) : (s.terminate status reason).Decided :=
  ⟨hsolved, iff_of_false Bool.false_ne_true hopt⟩

/-- Ending with an optimum decides. -/
theorem settle (s : Solution α) (value : α) : (s.settle value).Decided :=
  ⟨Status.noConfusion, iff_of_true rfl rfl⟩

/-- Messages leave a solution decided. -/
theorem logAll (h : s.Decided) (ms : List (Message α)) : (s.logAll ms).Decided :=
  ⟨h.status_ne, h.value_iff⟩

/-- A message changes no status. -/
theorem log (h : s.Decided) (m : Message α) : (s.log m).Decided := h.logAll [m]

/-- Values may be changed in a decided solution, -/
theorem withValues (h : s.Decided) (values : Valuation α) :
    ({ s with values } : Solution α).Decided := ⟨h.status_ne, h.value_iff⟩

/-- and the tableau. -/
theorem withTableau (h : s.Decided) (tableau : Option (Tableau α)) :
    ({ s with tableau } : Solution α).Decided := ⟨h.status_ne, h.value_iff⟩

/-- A recorded step leaves a solution decided. -/
theorem record (h : s.Decided) (c : Config α) (label : StepLabel α) (content : StepContent α) :
    (c.record label content s).Decided := by
  unfold Config.record
  split_ifs
  · exact ⟨h.status_ne, h.value_iff⟩
  · exact h

end Solution.Decided

/-- A refusal has nothing to decide. -/
protected theorem Answer.Decides.error (e : Error α) (j : Journal α) :
    (⟨.error e, j⟩ : Answer α).Decides := nofun

/-- A solution that has come to a status is an answer that decides. -/
protected theorem Answer.Decides.ok {s : Solution α} (h : s.Decided) (j : Journal α) :
    (⟨.ok s, j⟩ : Answer α).Decides := fun _ hs => Except.ok.inj hs ▸ h

variable [Scalar α]

/-! ## Simplex methods -/

/-- The dual method decides by its verdict, whatever trail it goes on from. -/
theorem Model.conclude_decided (m : Model α) (c : Config α) (trail : Solution α) (v : Verdict α) :
    (m.conclude c trail v).Decided := by
  unfold conclude
  cases v with
  | done =>
    dsimp only
    split
    · exact .terminate _ (by decide) (by decide) _
    · exact ⟨Status.noConfusion, iff_of_true rfl rfl⟩
  | infeasible | unbounded | limit | interrupted =>
    dsimp only
    exact .terminate _ (by decide) (by decide) _

/-- The dual method takes values and analysis from its tableau only, and only at an optimum. -/
theorem Model.conclude_bare (m : Model α) (c : Config α) (trail : Solution α) (v : Verdict α) :
    (m.conclude c trail v).Bare := by
  unfold conclude
  cases v with
  | done =>
    dsimp only
    split
    · exact fun _ => ⟨rfl, rfl⟩
    · exact fun hopt => absurd rfl hopt
  | infeasible | unbounded | limit | interrupted => exact fun _ => ⟨rfl, rfl⟩

/-- An optimization comes to a status, whatever the verdict. -/
theorem Session.optimize_decides (s : Session α) (c : Config α) (j : Journal α) :
    (s.optimize c j).toAnswer.Decides := fun sol hsol => by
  obtain ⟨trail, v, rfl⟩ := optimize_eq_ok hsol
  exact Model.conclude_decided _ c trail v

/-- The dual solver comes to a status with every request that it does not refuse. -/
theorem DualSimplex.request_decides (d : DualSimplex α) (r : Request α) (j : Journal α) {sol}
    (h : (d.request r j).result = .ok sol) : sol.Decided ∧ sol.Bare := by
  obtain ⟨s, trail, v, -, rfl⟩ := request_eq_ok h
  exact ⟨s.model.conclude_decided _ trail v, s.model.conclude_bare _ trail v⟩

/-- The loop of the primal method, by induction on the iterations left. -/
theorem PrimalSimplex.iterate_decides (c : Config α) (f : StandardForm α) (remaining k : ℕ)
    (t : Tableau α) (s : Solution α) (j : Journal α) : (iterate c f remaining k t s j).Decides := by
  have hfinish : ∀ t s j, Answer.Decides (⟨.ok (optimum c f t s).1, j⟩ : Answer α) :=
    fun t s j => .ok (.log (.settle _ _) _) j
  have hstop : ∀ (t : Tableau α) (s : Solution α) status reason j, status ≠ .notSolved →
      status ≠ .optimal → Answer.Decides
        (⟨.ok { s.terminate status reason with tableau := some t }, j⟩ : Answer α) :=
    fun t s status reason j hsolved hopt =>
      .ok ((Solution.Decided.terminate s hsolved hopt reason).withTableau _) j
  induction remaining generalizing k t s j with
  | zero =>
    unfold iterate
    dsimp only
    split_ifs
    · exact hfinish t s _
    · exact hstop t s _ _ _ (by decide) (by decide)
  | succ remaining ih =>
    unfold iterate
    dsimp only
    split_ifs
    · exact hfinish t s _
    · exact hstop t s _ _ _ (by decide) (by decide)
    · split
      · exact hfinish t s _
      · split
        · exact hstop t s _ _ _ (by decide) (by decide)
        · split
          · exact .error _ _
          · exact ih _ _ _ _

/-- The primal method comes to a status. -/
theorem PrimalSimplex.solve_decides (c : Config α) (p : Problem α) (j : Journal α) :
    (solve c p j).Decides := by
  unfold solve
  dsimp only
  split
  · exact .error _ _
  · exact iterate_decides c _ _ _ _ _ _

/-- The loop of the revised method, by induction on the iterations left. -/
theorem RevisedSimplex.iterate_decides (c : Config α) (f : StandardForm α) (remaining k : ℕ)
    (b : Basis α) (s : Solution α) (j : Journal α) : (iterate c f remaining k b s j).Decides := by
  induction remaining generalizing k b s j with
  | zero =>
    unfold iterate
    exact .ok (.terminate _ (by decide) (by decide) _) _
  | succ remaining ih =>
    unfold iterate
    dsimp only
    split_ifs
    · exact .ok (.terminate _ (by decide) (by decide) _) _
    · split
      · exact .ok (.log (.settle _ _) _) _
      · split
        · exact .ok (.terminate _ (by decide) (by decide) _) _
        · split
          · exact .error _ _
          · exact ih _ _ _ _

/-- The revised method comes to a status. -/
theorem RevisedSimplex.solve_decides (c : Config α) (p : Problem α) (j : Journal α) :
    (solve c p j).Decides := by
  unfold solve
  dsimp only
  split
  · exact .error _ _
  · exact iterate_decides c _ _ _ _ _ _

/-! ## Integer methods -/

namespace BranchAndBound

/-- The incumbent's solution is settled anew; without one the status is that of what was
searched. -/
theorem outcome_decided (g : Goal) (s : Search α) : (outcome g s).1.Decided := by
  unfold outcome
  cases s.incumbent with
  | some best => exact .settle _ _
  | none => cases s.limited <;> exact .terminate _ (by decide) (by decide) _

/-- The end of a search has a status, however many nodes are recorded. -/
theorem conclude_decides (c : Config α) (g : Goal) (s : Search α) :
    (conclude c g s).toAnswer.Decides := by
  unfold conclude
  split
  · exact .error _ _
  · dsimp only
    refine .ok (.logAll ?_ _) _
    exact List.foldlRecOn _ _ (motive := Solution.Decided) (outcome_decided g _)
      fun sol hsol node _ => hsol.record c _ _

/-- A relaxation without optimum keeps its status, so that it is no optimum now either. -/
theorem solve_decides (c : Config α) (p : Problem α) (j : Journal α) :
    (solve c p j).toAnswer.Decides := by
  unfold solve solveFrom
  split
  · exact .error _ _
  · rename_i session j' _
    have hroot := session.optimize_decides c j'
    dsimp only
    split
    · exact .error _ _
    · rename_i relaxation hrelaxation
      have hdecided := hroot relaxation hrelaxation
      split
      · exact conclude_decides c _ _
      · exact .ok (hdecided.log _) _
      · rename_i hopt _
        exact .ok (.terminate _ hdecided.status_ne hopt _) _

end BranchAndBound

namespace CuttingPlane

omit [Scalar α] in
/-- The trace changes no status. -/
theorem Run.finish_decides (r : Run α) {s : Solution α} (h : s.Decided) :
    (r.finish s).toAnswer.Decides := .ok (h.log _) _

/-- A round goes on with a decided solution, or ends with a decided answer. -/
abbrev Round.Decides (round : Round α) : Prop :=
  round.Leads (fun r => r.solution.Decided) fun answer => answer.toAnswer.Decides

/-- The run goes on at an optimum only; the solution of a relaxation that was lost is the answer. -/
theorem Run.reoptimize_decides (r : Run α) (c : Config α) : (r.reoptimize c).Decides := by
  have hoptimize := r.session.optimize_decides c r.journal
  unfold reoptimize
  dsimp only
  split
  · exact .ended (.error _ _)
  · rename_i sol hsol
    split
    · exact .next (hoptimize sol hsol)
    · exact .ended (Run.finish_decides _ (hoptimize sol hsol))

/-- A round goes on at an optimum, or ends with a status. -/
theorem Run.round_decides (r : Run α) (c : Config α) (g : Goal) (at_ : Fractional.Candidate α) :
    (r.round c g at_).Decides := by
  unfold round
  dsimp only
  split_ifs
  · exact .ended (Run.finish_decides _ (.terminate _ (by decide) (by decide) _))
  · exact .ended (Run.finish_decides _ (.terminate _ (by decide) (by decide) _))
  · split
    · exact .ended (.error _ _)
    · exact Run.reoptimize_decides _ c

/-- The rounds come to a status, because every one of them goes on at an optimum. -/
theorem iterate_decides (c : Config α) (g : Goal) (left : ℕ) {r : Run α}
    (h : r.solution.Decided) : (iterate c g left r).toAnswer.Decides :=
  iterate_rule (P := fun _ r => r.solution.Decided) (Q := fun answer => answer.toAnswer.Decides)
    (fun _ r at_ _ _ => r.round_decides c g at_)
    (fun _ _ h _ => Run.finish_decides _ ((h.withValues _).log _))
    (fun _ _ => Run.finish_decides _ (.terminate _ (by decide) (by decide) _)) left h

/-- Cutting planes come to a status, that of the relaxation if it has no optimum. -/
theorem solve_decides (c : Config α) (p : Problem α) (j : Journal α) :
    (solve c p j).toAnswer.Decides := by
  unfold solve solveFrom
  split
  · exact .error _ _
  · rename_i session j' _
    have hroot := session.optimize_decides c j'
    dsimp only
    split
    · exact .error _ _
    · rename_i sol hsol
      have hdecided := hroot sol hsol
      split
      · unfold begin
        cases StandardForm.ofProblem p with
        | error e => exact .error _ _
        | ok f => exact iterate_decides c _ _ hdecided
      · exact .ok hdecided _

end CuttingPlane

/-- The knapsack search comes to a status. -/
theorem Knapsack.solve_decides (c : Config α) (prune : Bool) (p : Problem α) (j : Journal α) :
    (solve c prune p j).toAnswer.Decides := by
  unfold solve solveFrom
  split
  · exact .error _ _
  · dsimp only
    refine .ok ?_ _
    unfold conclude
    dsimp only
    split
    · split_ifs <;> exact .terminate _ (by decide) (by decide) _
    · exact .log (.settle _ _) _

/-! ## All solvers -/

/-- Every solution that a method answers with, in a sequence of problems that are solved one after
the other, has come to a status, and it has an optimal value exactly if the status is that of an
optimum. So has every solution that the dual solver answers with after any history of problems and
additions, and if it is no optimum, there are no values and no analysis, whatever was answered
before. -/
theorem solvers_decide :
    (∀ (m : Method) (c : Config α) (j : Journal α) (ps : List (Problem α)),
      ∀ call ∈ m.calls c j ps, ∀ s, call.result = .ok s →
        s.status ≠ .notSolved ∧ (s.optimalValue.isSome ↔ s.status = .optimal)) ∧
    ∀ (d : DualSimplex α) (history : List (Request α × Journal α)) (r : Request α)
      (j : Journal α) (s : Solution α), ((d.run history).request r j).result = .ok s →
        (s.status ≠ .notSolved ∧ (s.optimalValue.isSome ↔ s.status = .optimal)) ∧
        (s.status ≠ .optimal → s.values = {} ∧ s.analysis = none) := by
  have hmethod : ∀ (m : Method) (c : Config α) (p : Problem α) (j : Journal α),
      (m.call c p j).toAnswer.Decides := by
    intro m c p j
    cases m with
    | primal => exact PrimalSimplex.solve_decides c p j
    | revised => exact RevisedSimplex.solve_decides c p j
    | dual => exact fun s hs => (DualSimplex.request_decides ⟨c, none⟩ (.solve p) j hs).1
    | branchAndBound => exact BranchAndBound.solve_decides c p j
    | cuttingPlane => exact CuttingPlane.solve_decides c p j
    | knapsack prune => exact Knapsack.solve_decides c prune p j
  refine ⟨fun m c j ps => ?_, fun d history r j s hs => ?_⟩
  · intro call hcall s hs
    obtain ⟨p, -, j', rfl⟩ := Method.mem_calls hcall
    exact ⟨(hmethod m c p j' s hs).status_ne, (hmethod m c p j' s hs).value_iff⟩
  · obtain ⟨hdecided, hbare⟩ := (d.run history).request_decides r j hs
    exact ⟨⟨hdecided.status_ne, hdecided.value_iff⟩, hbare⟩

/-- The greatest `x₁` with `x₁ ≤ 4` is `4`. With `x₁ ≥ 5` besides nothing is left of that
optimum. -/
theorem solvers_decide_refuted :
    let p : Problem ℚ :=
      { sense := .maximize, vars := [⟨0, 1, .nonNegative⟩], constraints := [⟨[1], .le, 4⟩] }
    let bound : Request ℚ := .add ⟨[1], .ge, 5⟩
    (∃ call ∈ Method.dual.calls .exact {} [p], ∃ sol, call.result = .ok sol ∧
      sol.status = .optimal ∧ sol.optimalValue.isSome ∧ sol.analysis.isSome) ∧
    ∃ sol, ((DualSimplex.run ⟨.exact, none⟩ [(.solve p, {})]).request bound {}).result = .ok sol ∧
      sol.status = .infeasible ∧ sol.optimalValue = none ∧ sol.values = {} ∧
      sol.analysis = none := by
  intro p bound
  have hsolved : (Method.dual.call .exact p {}).result.toOption.map
      (fun sol => (sol.status, sol.analysis.isSome)) = some (.optimal, true) := by decide +kernel
  have hrefuted : ((DualSimplex.run ⟨.exact, none⟩ [(.solve p, {})]).request bound
      {}).result.toOption.map (·.status) = some .infeasible := by decide +kernel
  constructor
  · obtain ⟨sol, hsol, hread⟩ := exists_ok_of_map hsolved
    obtain ⟨hopt, hanalysis⟩ := Prod.mk.inj hread
    have hvalue := (solvers_decide.1 .dual .exact {} [p] _ (List.mem_singleton_self _) sol hsol).2
    exact ⟨_, List.mem_singleton_self _, sol, hsol, hopt, hvalue.2 hopt, hanalysis⟩
  · obtain ⟨sol, hsol, hinfeasible⟩ := exists_ok_of_map hrefuted
    have hopt : sol.status ≠ .optimal := fun h => by cases hinfeasible.symm.trans h
    obtain ⟨⟨-, hvalue⟩, hbare⟩ := solvers_decide.2 ⟨.exact, none⟩ _ bound {} sol hsol
    obtain ⟨hvalues, hanalysis⟩ := hbare hopt
    exact ⟨sol, hsol, hinfeasible, Option.not_isSome_iff_eq_none.1 fun h => hopt (hvalue.1 h),
      hvalues, hanalysis⟩

end LinOpt
