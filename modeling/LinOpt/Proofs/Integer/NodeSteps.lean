import LinOpt.Proofs.Integer.SearchLoop
import LinOpt.Proofs.Simplex.Dual.Session

/-!
# What a search writes down

The answer of a search goes on from the trail of some node's relaxation. No simplex method records a
step for a node or counts open nodes (`Solution.Unsearched`), so all that an answer says about nodes
is what the search noted, in the order in which it was noted (`solve_concludes`).
-/

namespace LinOpt

variable {α : Type}

/-! ## Solutions without nodes -/

/-- The node that a step is about, and what became of it. -/
def Step.node? (s : Step α) : Option (BranchPath × StepText α) :=
  match s.label, s.content with
  | .node path, .text text => some (path, text)
  | _, _ => none

/-- The number of open nodes that a message names. -/
def Message.openNodes? : Message α → Option ℕ
  | .openNodes n => some n
  | _ => none

/-- A solution that says nothing about nodes. -/
structure Solution.Unsearched (s : Solution α) : Prop where
  steps : s.steps.filterMap Step.node? = []
  messages : s.messages.filterMap Message.openNodes? = []

namespace Solution.Unsearched

variable {s : Solution α}

/-- An empty solution tells nothing of nodes. -/
theorem empty : ({} : Solution α).Unsearched := ⟨rfl, rfl⟩

/-- A message that does not count open nodes tells nothing of them. -/
theorem log (h : s.Unsearched) {m : Message α} (hm : m.openNodes? = none) :
    (s.log m).Unsearched :=
  ⟨h.steps, by simp [Solution.log, h.messages, hm]⟩

/-- Nor does a status that is given with such a message. -/
theorem terminate (h : s.Unsearched) (status : Status) {m : Message α}
    (hm : m.openNodes? = none) : (s.terminate status m).Unsearched :=
  ⟨h.steps, (h.log hm).messages⟩

/-- A step that is not one of a node tells nothing of nodes. -/
theorem record (h : s.Unsearched) (c : Config α) {label : StepLabel α} {content : StepContent α}
    (hnode : Step.node? ⟨label, content⟩ = none) : (c.record label content s).Unsearched := by
  unfold Config.record
  split_ifs
  · exact ⟨by simp [Solution.record, h.steps, hnode], h.messages⟩
  · exact h

end Solution.Unsearched

variable [Scalar α] {c : Config α}

/-- The dual method ends with a message of its own. -/
theorem Model.conclude_unsearched {trail : Solution α} (h : trail.Unsearched) (m : Model α)
    (c : Config α) (v : Verdict α) : (m.conclude c trail v).Unsearched := by
  have hread : ({ trail with
      values := {}, analysis := none, tableau := some m.tableau, counts := m.counts } :
        Solution α).Unsearched := ⟨h.steps, h.messages⟩
  unfold conclude
  cases v with
  | done =>
    dsimp only
    split
    · exact hread.terminate _ rfl
    · exact ⟨h.steps, (hread.log rfl).messages⟩
  | infeasible | unbounded | limit | interrupted => exact hread.terminate _ rfl

namespace Session

variable {s : Session α}

/-- An optimization records pivots only. -/
theorem optimize_unsearched (h : s.trail.Unsearched) (c : Config α) (j : Journal α) :
    (s.optimize c j).state.trail.Unsearched ∧
      ∀ sol, (s.optimize c j).result = .ok sol → sol.Unsearched := by
  have hphases := Progress.phases_rule c s.model (P := fun p => p.trail.Unsearched)
    (fun _ hp => hp) (fun _ _ _ hp => hp) (fun _ _ _ _ _ _ hp _ _ => hp.record c rfl)
    ⟨s.model.tableau, s.trail, s.pivots, j⟩ h
  unfold optimize
  generalize Progress.phases _ c s.model = out at hphases ⊢
  obtain ⟨p, verdict⟩ := out
  cases verdict with
  | error e => exact ⟨hphases, fun sol hsol => (nomatch hsol)⟩
  | ok v =>
    have hsol := Model.conclude_unsearched hphases { s.model with tableau := p.tableau } c v
    exact ⟨hsol, fun sol heq => Except.ok.inj heq ▸ hsol⟩

/-- A session that takes a constraint tells nothing of nodes. -/
theorem addConstraint_unsearched (h : s.trail.Unsearched) (c : Config α) (k : Constraint α)
    (j : Journal α) : (s.addConstraint c k j).state.trail.Unsearched ∧
      ∀ sol, (s.addConstraint c k j).result = .ok sol → sol.Unsearched := by
  unfold addConstraint
  cases s.model.extend c k with
  | error e => exact ⟨h, fun sol hsol => (nomatch hsol)⟩
  | ok m => exact optimize_unsearched ((h.log rfl).record c rfl) c _

end Session

/-- A session starts with its initial tableau as the only step. -/
theorem Session.start_unsearched {p : Problem α} {j j' : Journal α} {s : Session α}
    (h : start c p j = .ok (s, j')) : s.trail.Unsearched := by
  obtain ⟨m, -, rfl, -⟩ := start_eq_ok h
  exact .record .empty c rfl

/-- The dual method tells nothing of nodes. -/
theorem DualSimplex.solve_unsearched {p : Problem α} {j : Journal α} {sol : Solution α}
    (h : (solve ⟨c, none⟩ p j).result = .ok sol) : sol.Unsearched ∧
      ∀ s, (solve ⟨c, none⟩ p j).state.session = some s → s.trail.Unsearched := by
  unfold solve at h ⊢
  cases hstart : Session.start c p j with
  | error e => rw [hstart] at h; cases h
  | ok started =>
    rw [hstart] at h
    obtain ⟨htrail, hsol⟩ := Session.optimize_unsearched (Session.start_unsearched hstart) c
      started.2
    exact ⟨hsol sol h, fun s hs => Option.some.inj hs ▸ htrail⟩

namespace BranchAndBound

variable {g : Goal} {p : Problem α} {j : Journal α} {node : Node α} {s : Search α}

/-! ## Nodes and incumbents -/

/-- Neither the session nor the solution of a node says anything about nodes. -/
structure Node.Unsearched (node : Node α) : Prop where
  trail : node.session.trail.Unsearched
  solution : node.solution.Unsearched

/-- The solution of a child tells nothing of nodes if that of its parent does not. -/
theorem Node.IsChild.unsearched {at_ : Fractional.Candidate α} {b : Branch} {child : Node α}
    (h : node.IsChild c g at_ b child) (hnode : node.Unsearched) : child.Unsearched := by
  obtain ⟨j, hresult, hstate⟩ := h.solved
  obtain ⟨htrail, hsol⟩ := Session.addConstraint_unsearched hnode.trail c (branchBound g at_ b) j
  exact ⟨hstate ▸ htrail, hsol _ hresult⟩

/-- The incumbent says nothing about nodes. -/
def Search.Unsearched (s : Search α) : Prop :=
  ∀ best, s.incumbent = some best → best.solution.Unsearched

omit [Scalar α] in
/-- Nor does the incumbent if the solution of its node does not. -/
theorem Search.takeIntegral_unsearched (hs : s.Unsearched) (hnode : node.Unsearched)
    (c : Config α) (value : α) (better : Bool) :
    (s.takeIntegral c node value better).Unsearched := by
  unfold takeIntegral
  dsimp only
  split_ifs
  · rintro _ ⟨⟩
    exact hnode.solution
  · exact hs

/-- A visit takes the solution of its node at most. -/
theorem Fate.unsearched {out : Search α × Option (Node α × Node α)} (h : Fate c g node s out)
    (hs : s.Unsearched) (hnode : node.Unsearched) : out.1.Unsearched ∧
      ∀ down up, out.2 = some (down, up) → down.Unsearched ∧ up.Unsearched := by
  cases h with
  | infeasible | abandoned | pruned | failed => exact ⟨hs, fun _ _ hnone => (nomatch hnone)⟩
  | integral value better =>
    exact ⟨Search.takeIntegral_unsearched hs hnode c value better, fun _ _ hnone => (nomatch hnone)⟩
  | branched value at_ j hdown hup =>
    refine ⟨hs, ?_⟩
    rintro _ _ ⟨⟩
    exact ⟨hdown.unsearched hnode, hup.unsearched hnode⟩

/-- Wherever the loop stands, the open nodes and the incumbent say nothing about nodes. -/
theorem Loop.Reached.unsearched {l : Loop α} (h : Reached c p j l) :
    l.search.Unsearched ∧ ∀ f ∈ l.stack, f.node.Unsearched := by
  induction h with
  | root hresult hsession hopt =>
    obtain ⟨hsol, htrail⟩ := DualSimplex.solve_unsearched hresult
    exact ⟨fun best hbest => (nomatch hbest),
      List.forall_mem_singleton.2 ⟨htrail _ hsession, hsol⟩⟩
  | turn hreached hturn ih =>
    obtain ⟨hs, hstack⟩ := ih
    cases hturn with
    | interrupted hhalt hask => exact ⟨hs, hstack⟩
    | tooDeep hhalt hask hdepth => exact ⟨hs, (List.forall_mem_cons.1 hstack).2⟩
    | closed hhalt hask hdepth hvisit =>
      obtain ⟨htop, hrest⟩ := List.forall_mem_cons.1 hstack
      exact ⟨((visit_fate hvisit).unsearched hs htop).1, hrest⟩
    | branched hhalt hask hdepth hvisit =>
      obtain ⟨htop, hrest⟩ := List.forall_mem_cons.1 hstack
      obtain ⟨hs', hchildren⟩ := (visit_fate hvisit).unsearched hs htop
      obtain ⟨hdown, hup⟩ := hchildren _ _ rfl
      exact ⟨hs', List.forall_mem_cons.2 ⟨hdown, List.forall_mem_cons.2 ⟨hup, hrest⟩⟩⟩

/-! ## Answers -/

/-- The solution of the incumbent, or one without optimum, says nothing about nodes. -/
theorem outcome_unsearched (hs : s.Unsearched) (g : Goal) : (outcome g s).1.Unsearched ∧
    (outcome g s).2.filterMap Message.openNodes? = [] := by
  unfold outcome
  cases hbest : s.incumbent with
  | none => exact ⟨Solution.Unsearched.empty.terminate _ rfl, rfl⟩
  | some best =>
    have hsol := hs best hbest
    cases s.limited <;> exact ⟨⟨hsol.steps, hsol.messages⟩, rfl⟩

/-- What is concluded says of nodes what the search noted: the steps come last, if steps are
recorded. -/
theorem conclude_eq_ok (hs : s.Unsearched) {sol : Solution α}
    (h : (conclude c g s).result = .ok sol) :
    (∀ e, s.halt ≠ some (.failed e)) ∧ (conclude c g s).state = s.stats ∧
      (∃ before, before.filterMap Step.node? = [] ∧ sol.steps = before ++
        if c.recordSteps then s.nodes.map fun e => ⟨.node e.1, .text e.2⟩ else []) ∧
      sol.messages.filterMap Message.openNodes? = s.remarks.filterMap Message.openNodes? := by
  unfold conclude at h ⊢
  split at h
  · cases h
  · rename_i hhalt
    dsimp only at h
    rw [foldl_record_node] at h
    obtain rfl := Except.ok.inj h
    obtain ⟨hfound, htold⟩ := outcome_unsearched hs g
    have hexplored : (Message.explored s.stats : Message α).openNodes? = none := rfl
    refine ⟨hhalt, rfl, ⟨(outcome g s).1.steps, hfound.steps, rfl⟩, ?_⟩
    show ((outcome g s).1.messages ++ ((s.remark (.explored s.stats)).remarks ++
      (outcome g s).2)).filterMap Message.openNodes? = _
    simp [Search.remark, hfound.messages, htold, hexplored]

/-- A solution is concluded from where the loop stands when the search is over: what it counts and
what it says about nodes is what the search counted and noted until then. -/
structure Loop.Concludes (c : Config α) (p : Problem α) (j : Journal α) (l : Loop α)
    (sol : Solution α) : Prop where
  reached : Reached c p j l
  closed : l.search.halt = none → l.stack = []
  not_failed : ∀ e, l.search.halt ≠ some (.failed e)
  stats_eq : (solve c p j).state = l.search.stats
  steps_eq : ∃ before, before.filterMap Step.node? = [] ∧ sol.steps = before ++
    if c.recordSteps then l.search.nodes.map fun e => ⟨.node e.1, .text e.2⟩ else []
  openNodes_eq : sol.messages.filterMap Message.openNodes? =
    l.search.remarks.filterMap Message.openNodes?

/-- Every solution is concluded from a search or says nothing about nodes, because the relaxation
has no optimum. -/
theorem solve_concludes {sol : Solution α} (h : (solve c p j).result = .ok sol) : ∃ relaxation,
    (DualSimplex.solve ⟨c, none⟩ p j).result = .ok relaxation ∧
      ((relaxation.status = .optimal ∧ ∃ l : Loop α, l.Concludes c p j sol) ∨
        (relaxation.status ≠ .optimal ∧ sol.steps.filterMap Step.node? = [])) := by
  obtain ⟨relaxation, hroot, ⟨hopt, l, hreached, hclosed, hsolve⟩ | ⟨hopt, hsteps⟩⟩ :=
    solve_eq_ok h
  · rw [hsolve] at h
    obtain ⟨hfailed, hstats, hsteps, hmessages⟩ := conclude_eq_ok hreached.unsearched.1 h
    exact ⟨relaxation, hroot, .inl ⟨hopt, l, hreached, hclosed, hfailed,
      (congrArg Call.state hsolve).trans hstats, hsteps, hmessages⟩⟩
  · rw [hsteps]
    exact ⟨relaxation, hroot, .inr ⟨hopt, (DualSimplex.solve_unsearched hroot).1.steps⟩⟩

end BranchAndBound
end LinOpt
