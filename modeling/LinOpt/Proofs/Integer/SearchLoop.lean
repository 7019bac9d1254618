import LinOpt.Integer.BranchAndBound
import Mathlib.Data.Nat.Notation
import Mathlib.Logic.Relation
import Mathlib.Tactic.SplitIfs

/-!
# The loop of the search

`explore` is a recursion on the depth that is left, and the nodes that wait elsewhere are a number
to it. The same search is a loop over a stack: the topmost node is taken off and dealt with, and a
split puts both children on, the first on top (`Loop.Turn`). What the recursion computes is where
the loop stands when it stops (`Loop.exists_reaches_explore`), and the number it is told is the size
of the stack.

So what holds at the root and is kept by every turn holds of the search that an answer is concluded
from (`solve_eq_ok`). What can become of the node in a turn is read off `visit` once (`Fate`).
-/

namespace LinOpt.BranchAndBound

variable {α : Type} [Scalar α] {c : Config α} {g : Goal} {p : Problem α} {j : Journal α}
  {node : Node α} {s : Search α}

/-! ## What becomes of a node -/

/-- The constraint of a branch: the value is at most the integer below on the first one and at least
the integer above on the second. -/
def branchBound (g : Goal) (at_ : Fractional.Candidate α) : Branch → Constraint α
  | .first => .bound g.numVariables at_.index .le (Scalar.floor at_.value)
  | .second => .bound g.numVariables at_.index .ge (Scalar.ceil at_.value)

/-- A child goes on from the session of its parent with the constraint of its branch. -/
structure Node.IsChild (c : Config α) (g : Goal) (node : Node α) (at_ : Fractional.Candidate α)
    (b : Branch) (child : Node α) : Prop where
  path_eq : child.path = node.path.child b
  solved : ∃ j, (node.session.addConstraint c (branchBound g at_ b) j).result =
      .ok child.solution ∧
    (node.session.addConstraint c (branchBound g at_ b) j).state = child.session

/-- What a visit can make of a search, and the children it can leave. -/
inductive Fate (c : Config α) (g : Goal) (node : Node α) (s : Search α) :
    Search α × Option (Node α × Node α) → Prop
  | infeasible : Fate c g node s (s.pruneInfeasible node.path, none)
  | abandoned (status : Status) : Fate c g node s (s.abandon node.path status, none)
  | pruned (value best : α) : Fate c g node s (s.pruneByBound node.path value best, none)
  | integral (value : α) (better : Bool) :
      Fate c g node s (s.takeIntegral c node value better, none)
  | failed (text : StepText α) (j : Journal α) (e : Error α) :
      Fate c g node s ({ s.note node.path text with journal := j, halt := some (.failed e) }, none)
  | branched {down up : Node α} (value : α) (at_ : Fractional.Candidate α) (j : Journal α)
      (hdown : node.IsChild c g at_ .first down) (hup : node.IsChild c g at_ .second up) :
      Fate c g node s
        ({ (s.note node.path (.branching value at_.index at_.value)).count
            (fun n => { n with branches := n.branches + 1 }) with journal := j },
          some (down, up))

/-- A split halts the search or leaves both children. -/
theorem split_fate (node : Node α) (at_ : Fractional.Candidate α) (s : Search α) (value : α) :
    Fate c g node s
      (split c g node at_ (s.note node.path (.branching value at_.index at_.value))) := by
  unfold split
  dsimp only
  cases hdown : (node.session.addConstraint c _ _).result with
  | error e => exact .failed _ _ e
  | ok downSolution =>
    dsimp only
    cases hup : (node.session.addConstraint c (.bound g.numVariables at_.index .ge _) _).result with
    | error e => exact .failed _ _ e
    | ok upSolution =>
      exact .branched value at_ _ ⟨rfl, _, hdown, rfl⟩ ⟨rfl, _, hup, rfl⟩

/-- A node that can beat the incumbent is integral, or it is split. -/
theorem open_fate (node : Node α) (s : Search α) (value : α) :
    Fate c g node s (visit.open_ c g node s value) := by
  unfold visit.open_
  cases pick c g node.solution with
  | none => exact .integral value _
  | some at_ => exact split_fate node at_ s value

/-- What is made of a node by a visit is one of its fates. -/
theorem visit_fate {out : Search α × Option (Node α × Node α)} (h : visit c g node s = out) :
    Fate c g node s out := by
  subst h
  unfold visit
  split
  · split
    · split_ifs
      · exact open_fate node s _
      · exact .pruned _ _
    · exact open_fate node s _
  · exact .infeasible
  · exact .abandoned _

/-! ## Turns of the loop -/

/-- An open node and how deep it lies. -/
structure Frame (α : Type) where
  node : Node α
  depth : Nat

/-- Where the loop stands: the open nodes, the next one first, and the search so far. -/
structure Loop (α : Type) where
  stack : List (Frame α)
  search : Search α

/-- The search after the question whether to stop. -/
def Search.asked (s : Search α) (c : Config α) : Search α :=
  { s with journal := (c.ask s.journal).2 }

/-- The search once a node is taken up. -/
def Search.takenUp (s : Search α) (c : Config α) : Search α :=
  (s.asked c).count fun n => { n with nodesExplored := n.nodesExplored + 1 }

/-- One turn of the loop. A node that is not taken up because of an interrupt is still open. -/
inductive Loop.Turn (c : Config α) (g : Goal) : Loop α → Loop α → Prop
  | interrupted {top : Frame α} {rest : List (Frame α)} {s : Search α} (hhalt : s.halt = none)
      (hask : (c.ask s.journal).1 = true) :
      Turn c g ⟨top :: rest, s⟩ ⟨top :: rest, (s.asked c).interrupt c (rest.length + 1)⟩
  | tooDeep {top : Frame α} {rest : List (Frame α)} {s : Search α} (hhalt : s.halt = none)
      (hask : (c.ask s.journal).1 = false) (hdepth : c.maxBranchDepth < top.depth) :
      Turn c g ⟨top :: rest, s⟩ ⟨rest, (s.takenUp c).abandonDeep c top.node.path⟩
  | closed {top : Frame α} {rest : List (Frame α)} {s s' : Search α} (hhalt : s.halt = none)
      (hask : (c.ask s.journal).1 = false) (hdepth : top.depth ≤ c.maxBranchDepth)
      (hvisit : visit c g top.node (s.takenUp c) = (s', none)) :
      Turn c g ⟨top :: rest, s⟩ ⟨rest, s'⟩
  | branched {top : Frame α} {rest : List (Frame α)} {s s' : Search α} {down up : Node α}
      (hhalt : s.halt = none) (hask : (c.ask s.journal).1 = false)
      (hdepth : top.depth ≤ c.maxBranchDepth)
      (hvisit : visit c g top.node (s.takenUp c) = (s', some (down, up))) :
      Turn c g ⟨top :: rest, s⟩ ⟨⟨down, top.depth + 1⟩ :: ⟨up, top.depth + 1⟩ :: rest, s'⟩

/-- A search that is halted returns at once. -/
theorem explore_of_halted (h : s.halt.isSome) (left waiting : ℕ) (node : Node α) :
    explore c g left waiting node s = s := by
  unfold explore
  exact if_pos h

namespace Loop

/-- A search that is halted takes no turn. -/
theorem Turn.halt_eq_none {l l' : Loop α} (h : Turn c g l l') : l.search.halt = none := by
  cases h <;> assumption

/-- A loop that turns has an open node. -/
theorem Turn.stack_ne_nil {l l' : Loop α} (h : Turn c g l l') : l.stack ≠ [] := by
  cases h <;> exact List.cons_ne_nil _ _

/-- The recursion below a node is a run of the loop that takes the node off the stack, unless it is
halted: by induction on the depth left, which with the depth of the node makes up the limit. -/
theorem exists_reaches_explore (left : ℕ) (top : Frame α) (rest : List (Frame α)) (s : Search α)
    (hleft : top.depth + left = c.maxBranchDepth + 1) : ∃ stack,
      let s' := explore c g left rest.length top.node s
      Relation.ReflTransGen (Turn c g) ⟨top :: rest, s⟩ ⟨stack, s'⟩ ∧
        (s'.halt = none → stack = rest) := by
  induction left generalizing top rest s with
  | zero =>
    unfold explore
    dsimp only
    split_ifs with hhalt hask
    · exact ⟨_, .refl, fun hnone => absurd hhalt (by simp [hnone])⟩
    · have hhalt := Option.not_isSome_iff_eq_none.1 hhalt
      exact ⟨_, .single (.interrupted hhalt hask), fun hnone => (nomatch hnone)⟩
    · have hhalt := Option.not_isSome_iff_eq_none.1 hhalt
      exact ⟨rest, .single (.tooDeep hhalt (Bool.eq_false_iff.2 hask) (by omega)), fun _ => rfl⟩
  | succ left ih =>
    unfold explore
    dsimp only
    split_ifs with hhalt hask
    · exact ⟨_, .refl, fun hnone => absurd hhalt (by simp [hnone])⟩
    · have hhalt := Option.not_isSome_iff_eq_none.1 hhalt
      exact ⟨_, .single (.interrupted hhalt hask), fun hnone => (nomatch hnone)⟩
    have hhalt := Option.not_isSome_iff_eq_none.1 hhalt
    have hask := Bool.eq_false_iff.2 hask
    cases hvisit : visit c g top.node (s.takenUp c) with
    | mk s₁ children =>
    cases children with
    | none =>
      have hturn : Turn c g ⟨top :: rest, s⟩ ⟨rest, s₁⟩ := .closed hhalt hask (by omega) hvisit
      unfold Search.takenUp Search.asked at hvisit
      rw [hvisit]
      exact ⟨rest, .single hturn, fun _ => rfl⟩
    | some children =>
      obtain ⟨down, up⟩ := children
      have hturn : Turn c g ⟨top :: rest, s⟩
          ⟨⟨down, top.depth + 1⟩ :: ⟨up, top.depth + 1⟩ :: rest, s₁⟩ :=
        .branched hhalt hask (by omega) hvisit
      unfold Search.takenUp Search.asked at hvisit
      rw [hvisit]
      dsimp only
      obtain ⟨stack, hdown, hstack⟩ := ih ⟨down, top.depth + 1⟩ (⟨up, top.depth + 1⟩ :: rest) s₁
        (by dsimp only; omega)
      dsimp only [List.length_cons] at hdown hstack
      generalize explore c g left (rest.length + 1) down s₁ = s₂ at hdown hstack ⊢
      cases hhalt₂ : s₂.halt with
      | some halt =>
        -- the second child is not searched and stays open
        rw [explore_of_halted (Option.isSome_of_eq_some hhalt₂)]
        exact ⟨stack, .head hturn hdown, fun hnone => (nomatch hhalt₂.symm.trans hnone)⟩
      | none =>
        rw [hstack hhalt₂] at hdown
        obtain ⟨stack, hup, hstack⟩ := ih ⟨up, top.depth + 1⟩ rest s₂ (by dsimp only; omega)
        exact ⟨stack, .head hturn (hdown.trans hup), hstack⟩

/-- Where the loop can stand in the search for a problem: it starts at the optimum of the relaxation
and takes turns. -/
inductive Reached (c : Config α) (p : Problem α) (j : Journal α) : Loop α → Prop
  | root {session : Session α} {relaxation : Solution α}
      (hresult : (DualSimplex.solve ⟨c, none⟩ p j).result = .ok relaxation)
      (hsession : (DualSimplex.solve ⟨c, none⟩ p j).state.session = some session)
      (hopt : relaxation.status = .optimal) :
      Reached c p j ⟨[⟨⟨session, relaxation, .root⟩, 0⟩],
        { remarks := (goal p).2, journal := (DualSimplex.solve ⟨c, none⟩ p j).journal }⟩
  | turn {l l' : Loop α} (hreached : Reached c p j l) (hturn : Turn c (goal p).1 l l') :
      Reached c p j l'

/-- What a run makes of where the loop stands. -/
theorem Reached.reaches {l l' : Loop α} (h : Reached c p j l)
    (hrun : Relation.ReflTransGen (Turn c (goal p).1) l l') : Reached c p j l' := by
  induction hrun with
  | refl => exact h
  | tail _ hturn ih => exact .turn ih hturn

end Loop

/-! ## Answers -/

omit [Scalar α] in
/-- Steps for nodes are added at the end of a solution, if steps are recorded. -/
theorem foldl_record_node (c : Config α) (nodes : List (BranchPath × StepText α))
    (sol : Solution α) :
    nodes.foldl (fun sol (path, text) => c.record (.node path) (.text text) sol) sol =
      { sol with
        steps := sol.steps ++
          if c.recordSteps then nodes.map fun e => ⟨.node e.1, .text e.2⟩ else [] } := by
  unfold Config.record
  induction nodes generalizing sol with
  | nil => split_ifs <;> exact (congrArg (fun steps => { sol with steps }) (List.append_nil _)).symm
  | cons e nodes ih =>
    rw [List.foldl_cons, ih]
    split_ifs
    · exact congrArg (fun steps => { sol with steps }) (List.append_assoc _ _ _)
    · rfl

/-- Whatever is concluded, the counters are those of the search. -/
theorem state_conclude (c : Config α) (g : Goal) (s : Search α) :
    (conclude c g s).state = s.stats := by
  unfold conclude
  split <;> rfl

/-- If the relaxation has an optimum, the answer is concluded from where the loop stands when
nothing is open or the search is halted. -/
theorem solve_eq_conclude {relaxation : Solution α}
    (hroot : (DualSimplex.solve ⟨c, none⟩ p j).result = .ok relaxation)
    (hopt : relaxation.status = .optimal) : ∃ l, Loop.Reached c p j l ∧
      (l.search.halt = none → l.stack = []) ∧ solve c p j = conclude c (goal p).1 l.search := by
  have hreached := @Loop.Reached.root α _ c p j
  unfold solve solveFrom
  unfold DualSimplex.solve DualSimplex.after at hroot hreached
  cases hstart : Session.start c p j with
  | error e =>
    rw [hstart] at hroot
    cases hroot
  | ok started =>
    obtain ⟨session, j'⟩ := started
    rw [hstart] at hroot hreached
    dsimp only at hroot hreached ⊢
    rw [hroot]
    dsimp only
    rw [hopt]
    obtain ⟨stack, hrun, hstack⟩ := Loop.exists_reaches_explore (c := c) (g := (goal p).1)
      (c.maxBranchDepth + 1) ⟨⟨(session.optimize c j').state, relaxation, .root⟩, 0⟩ []
      { remarks := (goal p).2, journal := (session.optimize c j').journal } (Nat.zero_add _)
    exact ⟨_, (hreached hroot rfl hopt).reaches hrun, hstack, rfl⟩

/-- If it has none, nothing is searched, and a solution is that of the relaxation. -/
theorem solve_of_not_optimal (hopt : ∀ relaxation,
    (DualSimplex.solve ⟨c, none⟩ p j).result = .ok relaxation → relaxation.status ≠ .optimal) :
    (solve c p j).state = {} ∧ ∀ sol, (solve c p j).result = .ok sol →
      ∃ relaxation, (DualSimplex.solve ⟨c, none⟩ p j).result = .ok relaxation ∧
        sol.steps = relaxation.steps := by
  unfold solve solveFrom
  unfold DualSimplex.solve DualSimplex.after at hopt ⊢
  cases hstart : Session.start c p j with
  | error e => exact ⟨rfl, nofun⟩
  | ok started =>
    obtain ⟨session, j'⟩ := started
    rw [hstart] at hopt
    dsimp only at hopt ⊢
    cases hresult : (session.optimize c j').result with
    | error e => exact ⟨rfl, nofun⟩
    | ok relaxation =>
      dsimp only
      cases hstatus : relaxation.status with
      | optimal => exact absurd hstatus (hopt _ hresult)
      | unbounded | notSolved | infeasible | limitReached =>
        exact ⟨rfl, fun sol hsol => ⟨relaxation, rfl, Except.ok.inj hsol ▸ rfl⟩⟩

/-- A solution is concluded from where the loop stands when nothing is open or the search is halted,
or the relaxation has no optimum and nothing is searched. -/
theorem solve_eq_ok {sol : Solution α} (h : (solve c p j).result = .ok sol) : ∃ relaxation,
    (DualSimplex.solve ⟨c, none⟩ p j).result = .ok relaxation ∧
      ((relaxation.status = .optimal ∧ ∃ l, Loop.Reached c p j l ∧
          (l.search.halt = none → l.stack = []) ∧
          solve c p j = conclude c (goal p).1 l.search) ∨
        (relaxation.status ≠ .optimal ∧ sol.steps = relaxation.steps)) := by
  by_cases hopt : ∃ relaxation, (DualSimplex.solve ⟨c, none⟩ p j).result = .ok relaxation ∧
      relaxation.status = .optimal
  · obtain ⟨relaxation, hroot, hopt⟩ := hopt
    exact ⟨relaxation, hroot, .inl ⟨hopt, solve_eq_conclude hroot hopt⟩⟩
  · have hnot : ∀ relaxation, (DualSimplex.solve ⟨c, none⟩ p j).result = .ok relaxation →
        relaxation.status ≠ .optimal := fun relaxation hroot h => hopt ⟨relaxation, hroot, h⟩
    obtain ⟨relaxation, hroot, hsteps⟩ := (solve_of_not_optimal hnot).2 sol h
    exact ⟨relaxation, hroot, .inr ⟨hnot _ hroot, hsteps⟩⟩

end LinOpt.BranchAndBound
