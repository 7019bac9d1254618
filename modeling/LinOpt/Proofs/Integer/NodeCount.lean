import LinOpt.Proofs.Integer.NodeSteps
import LinOpt.Proofs.Simplex.Dual.Session

/-!
# Every node is accounted for

A node that is taken up ends in one of five ways, and only a split opens further ones. So the
counters of a search and the stack of its loop hang together at every turn (`Loop.Balanced`): a turn
takes up one node and ends it (`Fate.ends`), or leaves it on the stack because of an interrupt, and
the number that the interrupt reports is the size of the stack.

At the end nothing is open, or what the interrupt left. So the counters that a solution is reported
with add up, and so do its steps for nodes (`solve_accounts`).
-/

namespace LinOpt

/-- How many nodes were dealt with, in one way or the other. -/
def SearchStats.ended (n : SearchStats) : ℕ :=
  n.branches + n.prunedByBound + n.prunedInfeasible + n.abandoned + n.integralCandidates

namespace BranchAndBound

variable {α : Type} {s s' : Search α}

/-! ## One node -/

/-- A node has ended and left some children: it is counted once, and noted unless it is
abandoned. -/
structure Search.Ends (s s' : Search α) (children : ℕ) : Prop where
  nodesExplored_eq : s'.stats.nodesExplored = s.stats.nodesExplored
  ended_eq : s'.stats.ended = s.stats.ended + 1
  branches_eq : 2 * s'.stats.branches = 2 * s.stats.branches + children
  noted_eq : s'.nodes.length + s'.stats.abandoned = s.nodes.length + s.stats.abandoned + 1
  openNodes_eq : s'.remarks.filterMap Message.openNodes? = s.remarks.filterMap Message.openNodes?
  halt_eq : s'.halt = s.halt

namespace Search

/-- Neither the incumbent nor the journal matters. -/
theorem Ends.congr {s₁ s₂ : Search α} {children : ℕ} (h : s.Ends s₁ children)
    (hstats : s₂.stats = s₁.stats) (hnodes : s₂.nodes = s₁.nodes)
    (hremarks : s₂.remarks = s₁.remarks) (hhalt : s₂.halt = s₁.halt) : s.Ends s₂ children := by
  refine ⟨?_, ?_, ?_, ?_, ?_, hhalt.trans h.halt_eq⟩
  · exact hstats ▸ h.nodesExplored_eq
  · exact hstats ▸ h.ended_eq
  · exact hstats ▸ h.branches_eq
  · exact hstats ▸ hnodes ▸ h.noted_eq
  · exact hremarks ▸ h.openNodes_eq

/-- A node that is noted has ended in the way that is counted. -/
theorem ends_note (s : Search α) {f : SearchStats → SearchStats} (children : ℕ)
    (path : BranchPath) (text : StepText α)
    (hf : ∀ n, (f n).nodesExplored = n.nodesExplored ∧ (f n).ended = n.ended + 1 ∧
      2 * (f n).branches = 2 * n.branches + children ∧ (f n).abandoned = n.abandoned) :
    s.Ends ((s.count f).note path text) children := by
  obtain ⟨hexplored, hended, hbranches, habandoned⟩ := hf s.stats
  refine ⟨hexplored, hended, hbranches, ?_, rfl, rfl⟩
  show (s.nodes ++ [(path, text)]).length + (f s.stats).abandoned = _
  rw [List.length_append, List.length_singleton, habandoned]
  omega

/-- A node that is not noted is abandoned, with a remark that counts no nodes. -/
theorem ends_abandon (s : Search α) {m : Message α} (hm : m.openNodes? = none) :
    s.Ends ((s.count fun n => { n with abandoned := n.abandoned + 1 }).remark m) 0 :=
  ⟨rfl, by dsimp only [remark, count, SearchStats.ended]; omega, rfl, rfl,
    by simp [remark, count, hm], rfl⟩

/-- An integral node ends without children, as an incumbent or not. -/
theorem ends_takeIntegral (s : Search α) (c : Config α) (node : Node α) (value : α)
    (better : Bool) : s.Ends (s.takeIntegral c node value better) 0 := by
  have hends := s.ends_note 0 node.path (.integral value better)
    (f := fun n => { n with integralCandidates := n.integralCandidates + 1 })
    fun n => ⟨rfl, rfl, rfl, rfl⟩
  unfold takeIntegral
  dsimp only
  split_ifs
  · exact hends.congr rfl rfl rfl rfl
  · exact hends

end Search

variable [Scalar α] {c : Config α} {g : Goal} {p : Problem α} {j : Journal α} {node : Node α}
  {l l' : Loop α}

/-- A visit ends the node, unless it fails. -/
theorem Fate.ends {out : Search α × Option (Node α × Node α)} (h : Fate c g node s out) :
    (∃ e, out.1.halt = some (.failed e)) ∨ s.Ends out.1 (if out.2.isSome then 2 else 0) := by
  cases h with
  | infeasible =>
    refine .inr (s.ends_note 0 _ _ fun n => ⟨rfl, ?_, rfl, rfl⟩)
    dsimp only [SearchStats.ended]
    omega
  | abandoned status =>
    have hends := s.ends_abandon (m := .nodeAbandoned node.path status) rfl
    exact .inr (hends.congr rfl rfl rfl rfl)
  | pruned value best =>
    refine .inr (s.ends_note 0 _ _ fun n => ⟨rfl, ?_, rfl, rfl⟩)
    dsimp only [SearchStats.ended]
    omega
  | integral value better => exact .inr (s.ends_takeIntegral c node value better)
  | failed text j e => exact .inl ⟨e, rfl⟩
  | branched value at_ j hdown hup =>
    have hends := s.ends_note 2 node.path (.branching value at_.index at_.value)
      (f := fun n => { n with branches := n.branches + 1 }) fun n => ⟨rfl, by
        dsimp only [SearchStats.ended]
        omega, Nat.mul_succ 2 _, rfl⟩
    exact .inr (hends.congr rfl rfl rfl rfl)

/-! ## Turns -/

/-- The books of a search balance: the nodes that were taken up have ended, and with those still
open they are the root and the children of all splits; those that were not abandoned are noted; and
an interrupt, if there was one, has told how many nodes are open. -/
structure Loop.Balanced (l : Loop α) : Prop where
  ended_eq : l.search.stats.nodesExplored = l.search.stats.ended
  opened_eq : l.search.stats.nodesExplored + l.stack.length = 2 * l.search.stats.branches + 1
  noted_eq : l.search.nodes.length + l.search.stats.abandoned = l.search.stats.nodesExplored
  told : (l.search.halt = none ∧ l.search.remarks.filterMap Message.openNodes? = []) ∨
    (l.search.halt = some .interrupted ∧ l.stack ≠ [] ∧
      l.search.remarks.filterMap Message.openNodes? = [l.stack.length])

omit [Scalar α] in
/-- A node that is taken up and ends keeps the books balanced, with its children on the stack. -/
theorem Loop.Balanced.next {top : Frame α} {rest : List (Frame α)}
    (h : Balanced ⟨top :: rest, s⟩) (hhalt : s.halt = none) (children : List (Frame α))
    (hends : (s.takenUp c).Ends s' children.length) : Balanced ⟨children ++ rest, s'⟩ := by
  obtain ⟨hended, hopened, hnoted, htold⟩ := h
  obtain ⟨hexplored', hended', hbranches', hnoted', hopen', hhalt'⟩ := hends
  dsimp only [Search.takenUp, Search.asked, Search.count, SearchStats.ended,
    List.length_cons] at *
  refine ⟨?_, ?_, ?_, ?_⟩
  · dsimp only [SearchStats.ended]
    omega
  · dsimp only
    rw [List.length_append]
    omega
  · dsimp only
    omega
  · refine .inl ⟨hhalt'.trans hhalt, ?_⟩
    obtain ⟨-, hnone⟩ | ⟨hsome, -⟩ := htold
    · exact hopen'.trans hnone
    · cases hhalt.symm.trans hsome

/-- A turn keeps the books balanced, unless it fails. -/
theorem Loop.Turn.balanced (h : Turn c g l l') (hl : l.Balanced) :
    (∃ e, l'.search.halt = some (.failed e)) ∨ l'.Balanced := by
  cases h with
  | @interrupted top rest s hhalt hask =>
    refine .inr ⟨hl.ended_eq, hl.opened_eq, hl.noted_eq, .inr ⟨rfl, List.cons_ne_nil _ _, ?_⟩⟩
    obtain ⟨-, hnone⟩ | ⟨hsome, -⟩ := hl.told
    · show (s.remarks ++ [Message.openNodes (rest.length + 1)]).filterMap _ = _
      rw [List.filterMap_append, hnone]
      rfl
    · cases hhalt.symm.trans hsome
  | @tooDeep top rest s hhalt hask hdepth =>
    have hends := (s.takenUp c).ends_abandon (m := .nodeTooDeep top.node.path) rfl
    exact .inr (hl.next hhalt [] (hends.congr rfl rfl rfl rfl))
  | closed hhalt hask hdepth hvisit =>
    exact (visit_fate hvisit).ends.imp id (hl.next hhalt [])
  | branched hhalt hask hdepth hvisit =>
    exact (visit_fate hvisit).ends.imp id (hl.next hhalt [_, _])

/-- The books of a search balance wherever the loop can stand, unless it has failed. -/
theorem Loop.Reached.balanced (h : Reached c p j l) :
    (∃ e, l.search.halt = some (.failed e)) ∨ l.Balanced := by
  induction h with
  | root hresult hsession hopt =>
    refine .inr ⟨rfl, rfl, rfl, .inl ⟨rfl, ?_⟩⟩
    show (goal p).2.filterMap _ = _
    unfold goal
    dsimp only
    split_ifs <;> rfl
  | turn hreached hturn ih =>
    obtain ⟨e, hfailed⟩ | hl := ih
    · cases hturn.halt_eq_none.symm.trans hfailed
    · exact hturn.balanced hl

/-! ## Answers -/

/-- A solution that is found below an optimal relaxation comes with counters that add up: every node
that was explored is counted in one way, and with the nodes that are open where the loop stops they
are the root and two children for each branching. Nodes are open after an interrupt only, and its
message tells how many. With steps recorded, those for the nodes come last, and they are as many as
the nodes that were explored and not abandoned. -/
theorem solve_accounts {relaxation sol : Solution α}
    (hroot : (DualSimplex.solve ⟨c, none⟩ p j).result = .ok relaxation)
    (hopt : relaxation.status = .optimal) (hsol : (solve c p j).result = .ok sol) :
    let n := (solve c p j).state
    n.nodesExplored = n.branches + n.prunedByBound + n.prunedInfeasible + n.abandoned +
        n.integralCandidates ∧
      (∃ l : Loop α, l.Reached c p j ∧ (∀ l', ¬l.Turn c (goal p).1 l') ∧ l.search.stats = n ∧
        n.nodesExplored + l.stack.length = 2 * n.branches + 1 ∧
        (l.stack ≠ [] ↔ l.search.halt = some .interrupted) ∧
        sol.messages.filterMap Message.openNodes? =
          if l.stack = [] then [] else [l.stack.length]) ∧
      (c.recordSteps = true → ∃ before nodes, sol.steps = before ++ nodes ∧
        (∀ step ∈ before, step.node? = none) ∧ (∀ step ∈ nodes, step.node?.isSome) ∧
        nodes.length + n.abandoned = n.nodesExplored) := by
  intro n
  obtain ⟨relaxation', hroot', ⟨-, l, hl⟩ | ⟨hnot, -⟩⟩ := solve_concludes hsol
  swap
  · obtain rfl := Except.ok.inj (hroot.symm.trans hroot')
    exact absurd hopt hnot
  have hn : l.search.stats = n := hl.stats_eq.symm
  obtain ⟨e, hfailed⟩ | hbalanced := hl.reached.balanced
  · exact absurd hfailed (hl.not_failed e)
  rw [← hn]
  refine ⟨hbalanced.ended_eq, ⟨l, hl.reached, fun l' hturn => ?_, rfl, hbalanced.opened_eq, ?_⟩,
    fun hrecord => ?_⟩
  · exact hturn.stack_ne_nil (hl.closed hturn.halt_eq_none)
  · rw [hl.openNodes_eq]
    obtain ⟨hhalt, htold⟩ | ⟨hhalt, hstack, htold⟩ := hbalanced.told
    · have hstack := hl.closed hhalt
      rw [if_pos hstack, hhalt]
      exact ⟨iff_of_false (not_not_intro hstack) nofun, htold⟩
    · rw [if_neg hstack]
      exact ⟨iff_of_true hstack hhalt, htold⟩
  · obtain ⟨before, hbefore, hsteps⟩ := hl.steps_eq
    rw [if_pos hrecord] at hsteps
    refine ⟨before, _, hsteps, List.filterMap_eq_nil_iff.1 hbefore,
      List.forall_mem_map.2 fun _ _ => rfl, ?_⟩
    rw [List.length_map]
    exact hbalanced.noted_eq

/-- The search for the best integral point of `2 x₁ + 3 x₂` with `2 x₁ + 4 x₂ ≤ 7` and
`4 x₁ + 2 x₂ ≤ 9` comes upon one at its third node, after two branchings. An interrupt at the next
question leaves two nodes open. -/
theorem solve_accounts_interrupted :
    let products : Problem ℚ :=
      { Problem.ofObjective .maximize [2, 3] with
        constraints := [⟨[2, 4], .le, 7⟩, ⟨[4, 2], .le, 9⟩] }
    let c : Config ℚ :=
      { Config.exact with interrupt := { answer := fun questions _ => decide (10 ≤ questions) } }
    ∃ (sol : Solution ℚ) (l : Loop ℚ), (solve c products {}).result = .ok sol ∧
      sol.status = .optimal ∧ l.Reached c products {} ∧
      l.search.stats = { nodesExplored := 3, branches := 2, integralCandidates := 1 } ∧
      l.stack.length = 2 ∧ sol.messages.filterMap Message.openNodes? = [2] ∧
      ∃ before nodes, sol.steps = before ++ nodes ∧ (∀ step ∈ before, step.node? = none) ∧
        (∀ step ∈ nodes, step.node?.isSome) ∧ nodes.length = 3 := by
  intro products c
  have hrelaxed : (DualSimplex.solve ⟨c, none⟩ products {}).result.toOption.map (·.status) =
      some .optimal := by decide +kernel
  have hsolved : (solve c products {}).result.toOption.map (·.status) = some .optimal := by
    decide +kernel
  have hcounted : (solve c products {}).state =
      { nodesExplored := 3, branches := 2, integralCandidates := 1 } := by decide +kernel
  obtain ⟨relaxation, hroot, hopt⟩ := exists_ok_of_map hrelaxed
  obtain ⟨sol, hsol, hstatus⟩ := exists_ok_of_map hsolved
  obtain ⟨-, ⟨l, hreached, -, hstats, hopened, -, htold⟩, hsteps⟩ :=
    solve_accounts hroot hopt hsol
  obtain ⟨before, nodes, hsteps, hbefore, hnodes, hlength⟩ := hsteps rfl
  rw [hcounted] at hstats hopened hlength
  have hopen : l.stack.length = 2 := Nat.add_left_cancel hopened
  have hne : l.stack ≠ [] := List.ne_nil_of_length_pos (hopen ▸ Nat.two_pos)
  rw [if_neg hne, hopen] at htold
  exact ⟨sol, l, hsol, hstatus, hreached, hstats, hopen, htold, before, nodes, hsteps, hbefore,
    hnodes, hlength⟩

end BranchAndBound
end LinOpt
