import LinOpt.Integer.BranchAndBound
import LinOpt.Integer.CuttingPlane
import LinOpt.Integer.Knapsack
import LinOpt.Proofs.Recording.Simplex

/-!
# Integer methods without recording

The searches carry solutions along in their nodes, incumbents and runs, and decide by statuses,
values and tableaux. So they commute with erasure as the simplex methods do that they are built on:
what a search counts, which nodes it visits and which cuts it makes is the same with recording
switched off.
-/

namespace LinOpt

variable {α : Type} [Scalar α]

/-! ## Branch-and-bound -/

namespace BranchAndBound

/-- A node without recorded steps. -/
def Node.erase (n : Node α) : Node α :=
  { n with session := n.session.erase, solution := n.solution.erase }

/-- An incumbent without recorded steps. -/
def Incumbent.erase (i : Incumbent α) : Incumbent α := { i with solution := i.solution.erase }

/-- A search without recorded steps. What became of the nodes is kept apart from them. -/
def Search.erase (s : Search α) : Search α :=
  { s with incumbent := s.incumbent.map Incumbent.erase }

/-- Two children without recorded steps. -/
def eraseBoth (e : Node α × Node α) : Node α × Node α := (e.1.erase, e.2.erase)

/-- A silent search splits a node into the same children. -/
theorem split_erase (c : Config α) (g : Goal) (node : Node α) (at_ : Fractional.Candidate α)
    (s : Search α) : split c.silent g node.erase at_ s.erase =
      ((split c g node at_ s).1.erase, (split c g node at_ s).2.map eraseBoth) := by
  have hchild := node.session.addConstraint_erase c
  unfold split
  dsimp only [Node.erase, Search.erase]
  simp only [hchild]
  generalize node.session.addConstraint c _ s.journal = down
  obtain ⟨⟨result, journal⟩, state⟩ := down
  cases result with
  | error e => rfl
  | ok downSolution =>
    dsimp only [Call.erase, Answer.erase, Except.map]
    generalize node.session.addConstraint c _ journal = up
    obtain ⟨⟨result, journal⟩, state⟩ := up
    cases result <;> rfl

/-- A silent search goes on with a node in the same way. -/
theorem open_erase (c : Config α) (g : Goal) (node : Node α) (s : Search α) (value : α) :
    visit.open_ c.silent g node.erase s.erase value =
      ((visit.open_ c g node s value).1.erase, (visit.open_ c g node s value).2.map eraseBoth) := by
  have hbetter : s.erase.improvedBy c.silent g.sense value = s.improvedBy c g.sense value := by
    obtain ⟨stats, incumbent, nodes, remarks, limited, halt, journal⟩ := s
    cases incumbent <;> rfl
  have hpick : pick c.silent g node.erase.solution = pick c g node.solution := rfl
  unfold visit.open_
  rw [hpick]
  cases pick c g node.solution with
  | none =>
    dsimp only
    rw [hbetter]
    unfold Search.takeIntegral
    dsimp only
    split <;> rfl
  | some at_ =>
    exact split_erase c g node at_ (s.note node.path (.branching value at_.index at_.value))

/-- A silent search deals with a node in the same way. -/
theorem visit_erase (c : Config α) (g : Goal) (node : Node α) (s : Search α) :
    visit c.silent g node.erase s.erase =
      ((visit c g node s).1.erase, (visit c g node s).2.map eraseBoth) := by
  unfold visit
  simp only [open_erase]
  have hstatus : node.erase.solution.status = node.solution.status := rfl
  have hvalue : node.erase.solution.optimalValue = node.solution.optimalValue := rfl
  have hbest : s.erase.incumbent = s.incumbent.map Incumbent.erase := rfl
  rw [hstatus, hvalue, hbest]
  cases node.solution.status with
  | optimal =>
    cases node.solution.optimalValue with
    | none => rfl
    | some value =>
      cases s.incumbent with
      | none => rfl
      | some best =>
        show (if improves c g.sense value best.value then _ else _) = _
        dsimp only
        split <;> rfl
  | notSolved | infeasible | unbounded | limitReached => rfl

/-- A silent search explores the tree in the same way, by induction on the levels left. -/
theorem explore_erase (c : Config α) (g : Goal) :
    ∀ (left waiting : Nat) (node : Node α) (s : Search α),
      explore c.silent g left waiting node.erase s.erase =
        (explore c g left waiting node s).erase := by
  intro left
  induction left with
  | zero =>
    intro waiting node s
    unfold explore
    show (if s.halt.isSome then _ else if (c.ask s.journal).1 then _ else _) = _
    dsimp only
    split
    · rfl
    split <;> rfl
  | succ left ih =>
    intro waiting node s
    unfold explore
    show (if s.halt.isSome then _ else if (c.ask s.journal).1 then _ else _) = _
    dsimp only
    split
    · rfl
    split
    · rfl
    let counted := Search.count { s with journal := (c.ask s.journal).2 }
      fun n => { n with nodesExplored := n.nodesExplored + 1 }
    generalize hout : visit c.silent g node.erase _ = out
    obtain rfl := (visit_erase c g node counted).symm.trans hout
    generalize visit c g node counted = out
    obtain ⟨s', _ | ⟨down, up⟩⟩ := out
    · rfl
    · exact (congrArg _ (ih (waiting + 1) down s')).trans (ih waiting up _)

omit [Scalar α] in
/-- Steps that are recorded one after the other are erased together. -/
theorem erase_recordNodes (c : Config α) (nodes : List (BranchPath × StepText α))
    (s : Solution α) : (nodes.foldl (fun s (path, text) =>
      c.record (.node path) (.text text) s) s).erase = s.erase := by
  induction nodes generalizing s with
  | nil => rfl
  | cons e nodes ih => exact (ih _).trans (c.erase_record _ _ _)

omit [Scalar α] in
/-- With recording switched off nothing is recorded. -/
theorem recordNodes_silent (c : Config α) (nodes : List (BranchPath × StepText α))
    (s : Solution α) : nodes.foldl (fun s (path, text) =>
      c.silent.record (.node path) (.text text) s) s = s := by
  induction nodes with
  | nil => rfl
  | cons e nodes ih => exact ih

/-- A silent search comes out at the same solution. -/
theorem outcome_erase (g : Goal) (s : Search α) :
    outcome g s.erase = ((outcome g s).1.erase, (outcome g s).2) := by
  unfold outcome
  dsimp only [Search.erase]
  cases s.incumbent <;> rfl

/-- A silent search ends with the same answer, though its nodes are not recorded. -/
theorem conclude_erase (c : Config α) (g : Goal) (s : Search α) :
    conclude c.silent g s.erase = (conclude c g s).erase id := by
  have hsome : ∀ s : Search α,
      (⟨⟨.ok ((s.nodes.foldl (fun solution (path, text) =>
        c.silent.record (.node path) (.text text) solution)
          (outcome g s.erase).1).logAll (s.remarks ++ (outcome g s.erase).2)), s.journal⟩,
        s.stats⟩ : Call SearchStats α) =
      Call.erase id ⟨⟨.ok ((s.nodes.foldl (fun solution (path, text) =>
        c.record (.node path) (.text text) solution)
          (outcome g s).1).logAll (s.remarks ++ (outcome g s).2)), s.journal⟩, s.stats⟩ := by
    intro s
    have herase : ∀ (solution : Solution α) ms, (solution.logAll ms).erase =
        solution.erase.logAll ms := fun _ _ => rfl
    dsimp only [Call.erase, Answer.erase, Except.map]
    rw [recordNodes_silent, outcome_erase, herase, erase_recordNodes]
    rfl
  let counted := (s.remark (.explored s.stats)).emit c (.searchFinished s.stats)
  unfold conclude
  dsimp only [Search.erase]
  cases s.halt with
  | none => exact hsome counted
  | some halt =>
    cases halt with
    | failed e => rfl
    | interrupted => exact hsome counted

/-- Branch-and-bound answers as it does otherwise, without the steps. -/
theorem solve_erase (c : Config α) (p : Problem α) (j : Journal α) :
    solve c.silent p j = (solve c p j).erase id := by
  unfold solve solveFrom
  rw [Session.start_erase]
  cases Session.start c p j with
  | error e => rfl
  | ok started =>
    obtain ⟨session, j⟩ := started
    dsimp only [Except.map]
    rw [Session.optimize_erase]
    generalize session.optimize c j = root
    obtain ⟨⟨result, journal⟩, state⟩ := root
    cases result with
    | error e => rfl
    | ok relaxation =>
      let root : Node α := ⟨state, relaxation, .root⟩
      let s : Search α := { remarks := (goal p).2, journal }
      dsimp only [Call.erase, Answer.erase, Except.map, Solution.status_erase]
      cases relaxation.status with
      | optimal =>
        exact (congrArg (conclude c.silent (goal p).1) (explore_erase c _ _ 0 root s)).trans
          (conclude_erase c _ _)
      | notSolved | infeasible | unbounded | limitReached => rfl

end BranchAndBound

/-! ## Cutting planes -/

namespace CuttingPlane

/-- A run without recorded steps. -/
def Run.erase (r : Run α) : Run α :=
  { r with session := r.session.erase, solution := r.solution.erase }

/-- What a round makes of a run, without recorded steps. -/
def Round.erase : Round α → Round α
  | .next r => .next r.erase
  | .ended r answer => .ended r.erase (answer.erase id)

/-- A silent run adds the same cut. -/
theorem Run.addCut_erase (r : Run α) (c : Config α) (row : Nat) (at_ : Fractional.Candidate α) :
    r.erase.addCut c.silent row at_ = (r.addCut c row at_).erase := by
  unfold addCut
  dsimp only [erase]
  rw [Session.appendCut_erase]
  rfl

/-- A silent run optimizes in the same way after a cut. -/
theorem Run.reoptimize_erase (r : Run α) (c : Config α) :
    r.erase.reoptimize c.silent = (r.reoptimize c).erase := by
  unfold reoptimize
  dsimp only [Run.erase]
  rw [Session.optimize_erase]
  generalize r.session.optimize c r.journal = call
  obtain ⟨⟨result, journal⟩, state⟩ := call
  cases result with
  | error e => rfl
  | ok solution =>
    obtain ⟨status, value, values, steps, messages, tableau, counts, analysis⟩ := solution
    cases status with
    | optimal => cases value <;> rfl
    | notSolved | infeasible | unbounded | limitReached => rfl

/-- A silent run makes the same round. -/
theorem Run.round_erase (r : Run α) (c : Config α) (g : Goal) (at_ : Fractional.Candidate α) :
    r.erase.round c.silent g at_ = (r.round c g at_).erase := by
  unfold round
  show (if r.trace.isStalled c.integralityTolerance then _ else if (c.ask r.journal).1 then _ else
    _) = _
  dsimp only
  split
  · rfl
  split
  · rfl
  let asked : Run α := { r with journal := (c.ask r.journal).2 }
  generalize hrow : sourceRow _ c.silent g at_.index = row
  obtain rfl : asked.sourceRow c g at_.index = row := hrow
  cases asked.sourceRow c g at_.index with
  | none => rfl
  | some row =>
    exact (congrArg (Run.reoptimize · c.silent) (asked.addCut_erase c row at_)).trans
      ((asked.addCut c row at_).reoptimize_erase c)

/-- A silent run goes through the same rounds, by induction on the cuts left. -/
theorem iterate_erase (c : Config α) (g : Goal) : ∀ (left : Nat) (r : Run α),
    iterate c.silent g left r.erase = (iterate c g left r).erase id := by
  intro left
  induction left with
  | zero =>
    intro r
    have hpick : r.erase.pick c.silent g = r.pick c g := rfl
    unfold iterate
    rw [hpick]
    cases r.pick c g <;> rfl
  | succ left ih =>
    intro r
    have hpick : r.erase.pick c.silent g = r.pick c g := rfl
    unfold iterate
    rw [hpick]
    cases r.pick c g with
    | none => rfl
    | some at_ =>
      dsimp only
      rw [Run.round_erase]
      cases r.round c g at_ with
      | next r => exact ih r
      | ended r answer => rfl

/-- A silent run begins at the same place. -/
theorem begin_erase (c : Config α) (p : Problem α) (root : Call (Session α) α)
    (solution : Solution α) (value : α) :
    begin c.silent p (root.erase Session.erase) solution.erase value =
      (begin c p root solution value).map fun e => (e.1, e.2.erase) := by
  unfold begin
  cases StandardForm.ofProblem p <;> rfl

/-- Cutting planes answer as they do otherwise, without the steps. -/
theorem solve_erase (c : Config α) (p : Problem α) (j : Journal α) :
    solve c.silent p j = (solve c p j).erase id := by
  unfold solve solveFrom
  rw [Session.start_erase]
  cases Session.start c p j with
  | error e => rfl
  | ok started =>
    obtain ⟨session, j⟩ := started
    dsimp only [Except.map]
    rw [Session.optimize_erase]
    generalize session.optimize c j = root
    obtain ⟨⟨result, journal⟩, state⟩ := root
    cases result with
    | error e => rfl
    | ok relaxation =>
      let root : Call (Session α) α := ⟨⟨.ok relaxation, journal⟩, state⟩
      have hbegin := begin_erase c p root relaxation
      dsimp only [root, Call.erase, Answer.erase, Except.map, Solution.status_erase,
        Solution.optimalValue_erase] at hbegin ⊢
      cases relaxation.status with
      | optimal =>
        cases relaxation.optimalValue with
        | none => rfl
        | some value =>
          dsimp only
          rw [hbegin]
          generalize begin c p _ relaxation value = begun
          cases begun with
          | error e => rfl
          | ok e => exact iterate_erase c e.1 c.maxCuts e.2
      | notSolved | infeasible | unbounded | limitReached => rfl

end CuttingPlane

/-! ## The knapsack search -/

namespace Knapsack

/-- A search without recorded steps. -/
def Search.erase (s : Search α) : Search α := { s with solution := s.solution.erase }

omit [Scalar α] in
/-- A silent search reports the same about a node. -/
theorem Search.note_erase (s : Search α) (c : Config α) (path : BranchPath)
    (event : Option (Event α)) (text : StepText α) :
    s.erase.note c.silent path event text = (s.note c path event text).erase := by
  unfold note erase
  rw [Config.erase_record]
  rfl

/-- A silent search takes the same packings. -/
theorem Search.take_erase (s : Search α) (c : Config α) (t : Task α) (path : BranchPath)
    (load : Load α) : s.erase.take c.silent t path load = (s.take c t path load).erase := by
  unfold take note
  dsimp only [erase]
  rw [Config.erase_record]
  rfl

/-- A silent search deals with a node in the same way. -/
theorem Search.visit_erase (s : Search α) (c : Config α) (t : Task α) (deeper : Bool)
    (node : Node) : s.erase.visit c.silent t deeper node =
      ((s.visit c t deeper node).1.erase, (s.visit c t deeper node).2) := by
  unfold visit
  dsimp only [Config.tolerance_silent]
  cases relax c.tolerance t.items t.capacity node.decisions with
  | none => exact congrArg (·, []) (s.note_erase c _ _ _)
  | some r =>
    show (if t.prune && s.cannotBeat c r.bound then _ else _) = _
    dsimp only
    split
    · exact congrArg (·, []) (s.note_erase c _ _ _)
    cases r.split with
    | none => exact congrArg (·, []) (s.take_erase c t _ _)
    | some k =>
      dsimp only
      split
      · exact congrArg (·, [node.child k .first, node.child k .second]) (s.note_erase c _ _ _)
      · rfl

/-- A silent search goes through a level in the same way, by induction on its nodes. -/
theorem Search.level_erase (c : Config α) (t : Task α) (deeper : Bool) :
    ∀ (nodes next : List Node) (s : Search α), level c.silent t deeper nodes next s.erase =
      ((level c t deeper nodes next s).1.erase, (level c t deeper nodes next s).2)
  | [], _, _ => rfl
  | node :: rest, next, s => by
    unfold level
    show (if (c.ask s.journal).1 then _ else _) = _
    dsimp only
    split
    · rfl
    · let asked : Search α := { s with journal := (c.ask s.journal).2 }
      generalize hout : visit _ c.silent t deeper node = out
      obtain rfl := (asked.visit_erase c t deeper node).symm.trans hout
      exact level_erase c t deeper rest _ _

/-- A silent search goes through all levels in the same way. -/
theorem Search.levels_erase (c : Config α) (t : Task α) :
    ∀ (left : Nat) (nodes : List Node) (s : Search α),
      levels c.silent t left nodes s.erase = (levels c t left nodes s).erase
  | 0, nodes, s => congrArg Prod.fst (level_erase c t false nodes [] s)
  | left + 1, nodes, s => by
    unfold levels
    rw [level_erase]
    exact levels_erase c t left _ _

/-- A silent search ends with the same packing. -/
theorem conclude_erase (c : Config α) (p : Problem α) (t : Task α) (s : Search α) :
    conclude c.silent p t s.erase = ((conclude c p t s).1.erase, (conclude c p t s).2) := by
  obtain ⟨solution, candidates, best, interrupted, journal⟩ := s
  cases best with
  | none => cases interrupted <;> rfl
  | some b => rfl

/-- The knapsack search answers as it does otherwise, without the steps. -/
theorem solve_erase (c : Config α) (prune : Bool) (p : Problem α) (j : Journal α) :
    solve c.silent prune p j = (solve c prune p j).erase id := by
  unfold solve solveFrom
  cases items p with
  | error e => rfl
  | ok e =>
    obtain ⟨items, capacity⟩ := e
    let solution := ({ counts := { decision := items.length } } : Solution α).log
      (.itemRanking (items.map (·.index)))
    let t : Task α := ⟨items, capacity, prune⟩
    let root : Node := ⟨List.replicate items.length none, .root⟩
    let s : Search α := { solution, journal := j }
    have hlevels := Search.levels_erase c t items.length [root] s
    have hconclude := conclude_erase c p t (Search.levels c t items.length [root] s)
    show (⟨⟨.ok (conclude c.silent p t (Search.levels c.silent t items.length [root] s.erase)).1,
        (conclude c.silent p t (Search.levels c.silent t items.length [root] s.erase)).2⟩,
      (Search.levels c.silent t items.length [root] s.erase).candidates⟩ :
        Call (List (Candidate α)) α) = _
    rw [hlevels, hconclude]
    rfl

end Knapsack
end LinOpt
