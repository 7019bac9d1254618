import LinOpt.Integer.Fractional
import LinOpt.Simplex.Dual.Session

/-!
# Branch-and-bound

A depth-first search over relaxations. A node whose relaxation is fractional is split at a variable
with value `v`, into `x ≤ ⌊v⌋`, which is searched first, and `x ≥ ⌈v⌉`; both go on from the node's
own session. The search is a recursion on the depth that is left, so it ends whatever the
relaxations say. It carries the number of nodes that wait elsewhere, and once it is halted the
remaining calls return at once.
-/

namespace LinOpt.BranchAndBound

variable {α : Type} [Scalar α]

/-- A node: its session, the solution of its relaxation and its place in the tree. -/
structure Node (α : Type) where
  session : Session α
  solution : Solution α
  path : BranchPath

/-- The best integral node so far. -/
structure Incumbent (α : Type) where
  value : α
  solution : Solution α
  path : BranchPath

/-- Why a search stops before all nodes are dealt with. -/
inductive Halt (α : Type) where
  | interrupted
  | failed (error : Error α)

/-- What is searched for: the number of variables, the sense and the variables to be integral. -/
structure Goal where
  numVariables : Nat
  sense : Sense
  integers : List Nat

/-- The state of a search. `limited` is set when part of the tree was left out. -/
structure Search (α : Type) where
  stats : SearchStats := {}
  incumbent : Option (Incumbent α) := none
  /-- What became of the nodes, in order. -/
  nodes : List (BranchPath × StepText α) := []
  remarks : List (Message α) := []
  limited : Bool := false
  halt : Option (Halt α) := none
  journal : Journal α

namespace Search

/-- Adds a remark. -/
def remark (s : Search α) (m : Message α) : Search α := { s with remarks := s.remarks ++ [m] }

/-- Notes what became of a node. -/
def note (s : Search α) (path : BranchPath) (text : StepText α) : Search α :=
  { s with nodes := s.nodes ++ [(path, text)] }

/-- Changes the counters. -/
def count (s : Search α) (f : SearchStats → SearchStats) : Search α := { s with stats := f s.stats }

/-- Reports an event. -/
def emit (s : Search α) (c : Config α) (e : Event α) : Search α :=
  { s with journal := c.emit s.journal e }

/-- Stops because of the interrupt, with some nodes still open. -/
def interrupt (s : Search α) (c : Config α) (openNodes : Nat) : Search α :=
  let s := (s.emit c (.searchInterrupted openNodes)).remark (.openNodes openNodes)
  { s with limited := true, halt := some .interrupted }

/-- Leaves out a node below the deepest level. -/
def abandonDeep (s : Search α) (c : Config α) (path : BranchPath) : Search α :=
  let s := (s.emit c (.nodeTooDeep path)).remark (.nodeTooDeep path)
  { s.count (fun n => { n with abandoned := n.abandoned + 1 }) with limited := true }

/-- Leaves out a node whose relaxation came to no verdict. -/
def abandon (s : Search α) (path : BranchPath) (status : Status) : Search α :=
  let s := (s.count fun n => { n with abandoned := n.abandoned + 1 }).remark
    (.nodeAbandoned path status)
  { s with limited := s.limited || status = .limitReached }

/-- Leaves out a node without feasible point. -/
def pruneInfeasible (s : Search α) (path : BranchPath) : Search α :=
  (s.count fun n => { n with prunedInfeasible := n.prunedInfeasible + 1 }).note path .infeasible

/-- Leaves out a node that cannot beat the incumbent. -/
def pruneByBound (s : Search α) (path : BranchPath) (value incumbent : α) : Search α :=
  (s.count fun n => { n with prunedByBound := n.prunedByBound + 1 }).note path
    (.cannotBeat value incumbent)

/-- Takes an integral node, as the new incumbent if it is better. -/
def takeIntegral (s : Search α) (c : Config α) (node : Node α) (value : α) (better : Bool) :
    Search α :=
  let s := (s.count fun n => { n with integralCandidates := n.integralCandidates + 1 }).note
    node.path (.integral value better)
  if better then
    { s.emit c (.incumbentFound value node.path) with
      incumbent := some ⟨value, node.solution, node.path⟩ }
  else s

end Search

/-- Whether a value beats another by more than the tolerance. -/
def improves (c : Config α) (sense : Sense) (candidate incumbent : α) : Bool :=
  match sense with
  | .maximize => decide (candidate > incumbent + c.tolerance)
  | .minimize => decide (candidate < incumbent - c.tolerance)

/-- Whether a value beats the incumbent, if there is one. -/
def Search.improvedBy (s : Search α) (c : Config α) (sense : Sense) (value : α) : Bool :=
  match s.incumbent with
  | none => true
  | some best => improves c sense value best.value

/-- The most fractional of the integer variables. -/
def pick (c : Config α) (g : Goal) (solution : Solution α) : Option (Fractional.Candidate α) :=
  let values := solution.decisionValues g.numVariables
  Fractional.most c.integralityTolerance (g.integers.map fun i => ⟨i, values.getD i 0⟩)

/-- The two children of a node, split at a variable. The second result is `none` when a relaxation
failed, which halts the search. -/
def split (c : Config α) (g : Goal) (node : Node α) (at_ : Fractional.Candidate α) (s : Search α) :
    Search α × Option (Node α × Node α) :=
  let bound (r : Relation) (v : α) : Constraint α := .bound g.numVariables at_.index r v
  let down := node.session.addConstraint c (bound .le (Scalar.floor at_.value)) s.journal
  let s := { s with journal := down.journal }
  match down.result with
  | .error e => ({ s with halt := some (.failed e) }, none)
  | .ok downSolution =>
    let up := node.session.addConstraint c (bound .ge (Scalar.ceil at_.value)) s.journal
    let s := { s with journal := up.journal }
    match up.result with
    | .error e => ({ s with halt := some (.failed e) }, none)
    | .ok upSolution =>
      let s := (s.count fun n => { n with branches := n.branches + 1 }).emit c
        (.branched at_.index at_.value node.path downSolution.status upSolution.status)
      (s, some (⟨down.state, downSolution, node.path.child .first⟩,
        ⟨up.state, upSolution, node.path.child .second⟩))

/-- Deals with a node within the depth limit; its children are the nodes to search next. -/
def visit (c : Config α) (g : Goal) (node : Node α) (s : Search α) :
    Search α × Option (Node α × Node α) :=
  match node.solution.status, node.solution.optimalValue with
  | .optimal, some value =>
    match s.incumbent with
    | some best =>
      if improves c g.sense value best.value then open_ value else
        (s.pruneByBound node.path value best.value, none)
    | none => open_ value
  | .infeasible, _ => (s.pruneInfeasible node.path, none)
  | status, _ => (s.abandon node.path status, none)
where
  /-- Goes on with a node that can beat the incumbent. -/
  open_ (value : α) : Search α × Option (Node α × Node α) :=
    match pick c g node.solution with
    | none => (s.takeIntegral c node value (s.improvedBy c g.sense value), none)
    | some at_ => split c g node at_ (s.note node.path (.branching value at_.index at_.value))

/-- Searches the tree below a node. `left` is the number of levels from this node on that may be
explored and `waiting` the number of nodes that wait elsewhere. -/
def explore (c : Config α) (g : Goal) : (left waiting : Nat) → Node α → Search α → Search α
  | left, waiting, node, s =>
    if s.halt.isSome then s
    else
      let (interrupted, journal) := c.ask s.journal
      let s := { s with journal }
      if interrupted then s.interrupt c (waiting + 1)
      else
        let s := s.count fun n => { n with nodesExplored := n.nodesExplored + 1 }
        match left with
        | 0 => s.abandonDeep c node.path
        | left + 1 =>
          match visit c g node s with
          | (s, none) => s
          | (s, some (down, up)) =>
            explore c g left waiting up (explore c g left (waiting + 1) down s)

/-- The variables to be integral: those restricted so, or all if none is. -/
def goal (p : Problem α) : Goal × List (Message α) :=
  let typed := p.integerVariables
  if typed.isEmpty then
    (⟨p.numVariables, p.sense, List.range p.numVariables⟩, [.everyVariableInteger])
  else (⟨p.numVariables, p.sense, typed⟩, [])

/-- The incumbent's solution with its integer variables rounded, or a solution without optimum, and
the remarks to it. -/
def outcome (g : Goal) (s : Search α) : Solution α × List (Message α) :=
  match s.incumbent with
  | some best =>
    let values := g.integers.foldl (fun (v : Valuation α) i => v.modify (.decision i) Scalar.round)
      best.solution.values
    ({ best.solution with values }.settle best.value,
      .bestInteger best.value best.path :: if s.limited then [.searchIncomplete] else [])
  | none =>
    let status := if s.limited then .limitReached else .infeasible
    (({} : Solution α).terminate status .noIntegerSolution, [])

/-- The answer after the search. -/
def conclude (c : Config α) (g : Goal) (s : Search α) : Call SearchStats α :=
  match s.halt with
  | some (.failed e) => ⟨⟨.error e, s.journal⟩, s.stats⟩
  | _ =>
    let s := (s.remark (.explored s.stats)).emit c (.searchFinished s.stats)
    let (solution, remarks) := outcome g s
    let solution := s.nodes.foldl (fun solution (path, text) =>
      c.record (.node path) (.text text) solution) solution
    ⟨⟨.ok (solution.logAll (s.remarks ++ remarks)), s.journal⟩, s.stats⟩

/-- Solves an integer problem. The counters go on from `stats`; the state is what they show at the
end. -/
def solveFrom (c : Config α) (p : Problem α) (j : Journal α) (stats : SearchStats) :
    Call SearchStats α :=
  match Session.start c p j with
  | .error e => ⟨⟨.error e, j⟩, stats⟩
  | .ok (session, j) =>
    let root := session.optimize c j
    match root.result with
    | .error e => ⟨⟨.error e, root.journal⟩, stats⟩
    | .ok relaxation =>
      match relaxation.status with
      | .optimal =>
        let (g, remarks) := goal p
        conclude c g (explore c g (c.maxBranchDepth + 1) 0 ⟨root.state, relaxation, .root⟩
          { stats, remarks, journal := root.journal })
      | .unbounded => ⟨⟨.ok (relaxation.log .relaxationUnbounded), root.journal⟩, stats⟩
      | status =>
        ⟨⟨.ok (relaxation.terminate status .relaxationWithoutOptimum), root.journal⟩, stats⟩

/-- Solves an integer problem with counters that start at zero. -/
def solve (c : Config α) (p : Problem α) (j : Journal α) : Call SearchStats α :=
  solveFrom c p j {}

end LinOpt.BranchAndBound
