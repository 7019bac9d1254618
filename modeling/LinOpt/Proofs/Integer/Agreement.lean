import LinOpt.Proofs.Integer.BranchAndBound
import LinOpt.Proofs.Integer.CuttingPlane

/-!
# The two integer methods side by side

Branch-and-bound and cutting planes look for the best value over different sets of points. The
search asks for integers in every variable that is to be integral, the cuts only in those that have
a column of their own. Where no variable is restricted to integers, variables that are negated or
split into two columns are left fractional by the cuts.

So the optimum of the cuts is never worse than that of a complete search, and both are the same
value exactly if the optimum of the cuts is attained by an integral point
(`Problem.optima_eq_iff`). That is so where some variable is restricted to integers, and where every
variable is placed as it is.
-/

namespace LinOpt

variable {c : Config ℚ} {p : Problem ℚ} {j : Journal ℚ} {sol : Solution ℚ}

namespace BranchAndBound

/-- An optimum is concluded from the search below a root whose relaxation has an optimum. -/
theorem exists_root_of_optimal (h : (solve c p j).result = .ok sol) (hopt : sol.status = .optimal) :
    ∃ (session : Session ℚ) (j' : Journal ℚ) (relaxation : Solution ℚ),
      Session.start c p j = .ok (session, j') ∧
      (session.optimize c j').result = .ok relaxation ∧ relaxation.status = .optimal ∧
      (conclude c (goal p).1 (explore c (goal p).1 (c.maxBranchDepth + 1) 0
        ⟨(session.optimize c j').state, relaxation, .root⟩
        { remarks := (goal p).2, journal := (session.optimize c j').journal })).result =
          .ok sol := by
  unfold solve solveFrom at h
  split at h
  · cases h
  · rename_i session j' hstart
    dsimp only at h
    split at h
    · cases h
    · rename_i relaxation hroot
      split at h
      · rename_i hstatus
        exact ⟨session, j', relaxation, hstart, hroot, hstatus, h⟩
      · rename_i hstatus
        obtain rfl := Except.ok.inj h
        exact absurd (hstatus.symm.trans hopt) Status.noConfusion
      · rename_i hnot _
        obtain rfl := Except.ok.inj h
        exact absurd hopt hnot

/-- Without equalities the optimum of a search that left nothing out is the best value over the
integral points. -/
theorem complete_isBest (ht : c.tolerance = 0) (hi : c.integralityTolerance = 0) (hp : p.Indexed)
    (hne : p.NoEquality) (h : (solve c p j).result = .ok sol) (hopt : sol.status = .optimal)
    (hcomplete : .searchIncomplete ∉ sol.messages) :
    ∃ v, sol.optimalValue = some v ∧ p.sense.IsBest p.integerValues v := by
  obtain ⟨session, j', relaxation, hstart, hroot, hstatus, hsol⟩ := exists_root_of_optimal h hopt
  obtain ⟨hrep, hans⟩ := Session.optimize_represents ht (Session.start_represents hstart) j'
  have hnode : Node.Stands ⟨(session.optimize c j').state, relaxation, .root⟩ c p [] :=
    ⟨hrep, hans relaxation hroot, fun k hk => (nomatch hk)⟩
  obtain ⟨v, hv, -, hbest⟩ := (conclude_best (setting_goal ht hi hp) hnode hstatus
    (Search.sound_start p _ _) hsol).1 hopt
  exact ⟨v, hv, hbest hne hcomplete⟩

end BranchAndBound

namespace CuttingPlane

/-- An optimum is that of the rounds from the start, because the optimum of a relaxation has a
value. -/
theorem exists_begin_of_optimal (ht : c.tolerance = 0) (hp : p.Indexed)
    (h : (solve c p j).result = .ok sol) (hopt : sol.status = .optimal) :
    ∃ g r, Reaches c p j g (.next r) ∧ (iterate c g c.maxCuts r).result = .ok sol := by
  unfold solve solveFrom at h
  split at h
  · cases h
  · rename_i s j' hstart
    dsimp only at h
    split at h
    · cases h
    · rename_i root hroot
      split at h
      · rename_i v hstatus hvalue
        split at h
        · cases h
        · rename_i g r hbegin
          exact ⟨g, r, .begin hstart hroot hstatus hbegin, h⟩
      · rename_i hnot
        obtain rfl := Except.ok.inj h
        obtain ⟨hrep, hans⟩ := Session.optimize_represents ht (Session.start_represents hstart) j'
        obtain ⟨v, hv, -⟩ := hrep.isBest hp (hans _ hroot) hopt
        exact absurd hv (hnot v hopt)

end CuttingPlane

/-! ## Integral and admissible points -/

namespace Problem

/-- The cuts ask for no more integers than the search. -/
theorem integerValues_subset (p : Problem ℚ) :
    p.integerValues ⊆ p.objectiveValue '' {x | p.Admissible x} := by
  rintro _ ⟨x, hx, rfl⟩
  exact ⟨x, ⟨hx.feasible, fun i hi => hx.integral i (isCandidate_iff.1 hi).1⟩, rfl⟩

/-- A variable that is to be integral is a candidate for cuts if some variable is restricted to
integers, or if all are placed as they are. -/
theorem IsInteger.isCandidate {i : ℕ} (h : p.IsInteger i)
    (hp : (∃ u ∈ p.vars, u.restriction.isIntegral) ∨
      ∀ u ∈ p.vars, u.restriction.placement = .direct) : p.IsCandidate i := by
  obtain ⟨hi, hv | hnone⟩ := h
  · exact .inl hv
  · rcases hp with ⟨u, hu, hint⟩ | hdirect
    · rw [hnone u hu] at hint
      cases hint
    · refine .inr ⟨hnone, ColumnMap.exists_directColumn ?_⟩
      show (p.vars.map (·.restriction.placement))[i]? = _
      rw [List.getElem?_map, List.getElem?_eq_getElem hi, Option.map_some,
        hdirect _ (List.getElem_mem hi)]

/-- Without equalities, an optimum of cutting planes is not worse than one of a complete search, and
they are equal exactly if the former is attained by an integral point. They are equal if some
variable is restricted to integers, and if all variables are placed as they are. -/
theorem optima_eq_iff (ht : c.tolerance = 0) (hi : c.integralityTolerance = 0) (hp : p.Indexed)
    (hne : p.NoEquality) {j₁ j₂ : Journal ℚ} {searched cut : Solution ℚ}
    (hsearched : (BranchAndBound.solve c p j₁).result = .ok searched)
    (hcut : (CuttingPlane.solve c p j₂).result = .ok cut) (hsopt : searched.status = .optimal)
    (hcomplete : .searchIncomplete ∉ searched.messages) (hcopt : cut.status = .optimal) :
    ∃ v w, searched.optimalValue = some v ∧ cut.optimalValue = some w ∧
      ¬p.sense.Beats v w ∧ (v = w ↔ w ∈ p.integerValues) ∧
      (((∃ u ∈ p.vars, u.restriction.isIntegral) ∨
        ∀ u ∈ p.vars, u.restriction.placement = .direct) → v = w) := by
  obtain ⟨v, hv, hvbest⟩ := BranchAndBound.complete_isBest ht hi hp hne hsearched hsopt hcomplete
  obtain ⟨g, r, hreaches, hiterate⟩ := CuttingPlane.exists_begin_of_optimal ht hp hcut hcopt
  obtain ⟨w, hw, hwbest⟩ :=
    CuttingPlane.iterate_isBest ht hi hp c.maxCuts hreaches hiterate hcopt
  have hsub := p.integerValues_subset
  have heq : v = w ↔ w ∈ p.integerValues := by
    constructor
    · rintro rfl
      exact (Sense.isBest_iff.1 hvbest).1
    · exact fun hmem => hvbest.unique (hwbest.of_subset hsub hmem)
  refine ⟨v, w, hv, hw, ?_, heq, fun hplaced => heq.2 ?_⟩
  · exact (Sense.isBest_iff_not_beats.1 hwbest).2 v (hsub (Sense.isBest_iff.1 hvbest).1)
  · obtain ⟨x, hx, rfl⟩ := (Sense.isBest_iff.1 hwbest).1
    exact ⟨x, ⟨hx.feasible, fun i h => hx.integral i (h.isCandidate hplaced)⟩, rfl⟩

/-- `3 x₁ + 2 x₂` with `2 x₁ + 2 x₂ ≤ 7` and `x₁ ≤ 2`: both methods come to `8`. -/
theorem optima_eq_iff_one_cut :
    let p : Problem ℚ :=
      { Problem.ofObjective .maximize [3, 2] with
        constraints := [⟨[2, 2], .le, 7⟩, ⟨[1, 0], .le, 2⟩] }
    ∃ searched cut, (BranchAndBound.solve .exact p {}).result = .ok searched ∧
      (CuttingPlane.solve .exact p {}).result = .ok cut ∧
      searched.optimalValue = some 8 ∧ cut.optimalValue = some 8 := by
  intro p
  have hp : p.Indexed := Problem.Indexed.ofObjective .maximize [3, 2]
  have hsearch : (BranchAndBound.solve .exact p {}).result.toOption.map (fun s =>
      (s.status, s.messages.all fun m => match m with | .searchIncomplete => false | _ => true)) =
      some (.optimal, true) := by decide +kernel
  have hcuts : (CuttingPlane.solve .exact p {}).result.toOption.map
      (fun s => (s.status, s.optimalValue)) = some (.optimal, some 8) := by decide +kernel
  obtain ⟨searched, hsearched, hread⟩ := exists_ok_of_map hsearch
  obtain ⟨hsopt, hmessages⟩ := Prod.mk.inj hread
  obtain ⟨cut, hcut, hread⟩ := exists_ok_of_map hcuts
  obtain ⟨hcopt, hvalue⟩ := Prod.mk.inj hread
  have hcomplete : .searchIncomplete ∉ searched.messages := fun hmem =>
    Bool.false_ne_true (List.all_eq_true.1 hmessages _ hmem)
  obtain ⟨v, w, hv, hw, -, -, heq⟩ :=
    optima_eq_iff rfl rfl hp (by decide) hsearched hcut hsopt hcomplete hcopt
  obtain rfl : w = 8 := Option.some.inj (hw.symm.trans hvalue)
  have hdirect : ∀ u ∈ p.vars, u.restriction.placement = .direct := by decide
  rw [heq (.inr hdirect)] at hv
  exact ⟨searched, cut, hsearched, hcut, hv, hvalue⟩

/-- The greatest `x₁ ≤ 0` with `2 x₁ ≤ -1`, with no variable restricted to integers: the complete
search comes to `-1`, the cuts to `-1 / 2`, because the variable is placed negated. -/
theorem optima_ne_negated :
    let p : Problem ℚ :=
      { (Problem.empty .maximize).addVariable 1 .nonPositive with
        constraints := [⟨[2], .le, -1⟩] }
    p.NoEquality ∧ ∃ searched cut, (BranchAndBound.solve .exact p {}).result = .ok searched ∧
      (CuttingPlane.solve .exact p {}).result = .ok cut ∧
      searched.status = .optimal ∧ cut.status = .optimal ∧
      .searchIncomplete ∉ searched.messages ∧
      searched.optimalValue = some (-1) ∧ cut.optimalValue = some (-1 / 2) := by
  intro p
  have hsearch : (BranchAndBound.solve .exact p {}).result.toOption.map (fun s =>
      (s.status, s.optimalValue,
        s.messages.all fun m => match m with | .searchIncomplete => false | _ => true)) =
      some (.optimal, some (-1), true) := by decide +kernel
  have hcuts : (CuttingPlane.solve .exact p {}).result.toOption.map
      (fun s => (s.status, s.optimalValue)) = some (.optimal, some (-1 / 2)) := by decide +kernel
  obtain ⟨searched, hsearched, hread⟩ := exists_ok_of_map hsearch
  obtain ⟨hsopt, hrest⟩ := Prod.mk.inj hread
  obtain ⟨hsvalue, hmessages⟩ := Prod.mk.inj hrest
  obtain ⟨cut, hcut, hread⟩ := exists_ok_of_map hcuts
  obtain ⟨hcopt, hcvalue⟩ := Prod.mk.inj hread
  have hcomplete : .searchIncomplete ∉ searched.messages := fun hmem =>
    Bool.false_ne_true (List.all_eq_true.1 hmessages _ hmem)
  exact ⟨by decide, searched, cut, hsearched, hcut, hsopt, hcopt, hcomplete, hsvalue, hcvalue⟩

end Problem
end LinOpt
