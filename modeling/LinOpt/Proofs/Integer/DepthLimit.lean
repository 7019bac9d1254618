import LinOpt.Proofs.Integer.NodeCount
import LinOpt.Proofs.Integer.Preorder
import LinOpt.Proofs.Runs

/-!
# The depth limit ends the search

A split need not make progress in numbers: with rounding or undefined values a child may have the
relaxation of its parent. What ends the search is the depth. Below a node only so many nodes lie
within the limit or one level beyond it (`Frame.room`), and a turn either closes a node or hands its
room, less one node, to its children. So the room of the stack is a potential of the loop
(`Loop.Turn.room_lt`), and with the nodes explored it never exceeds the room of the root
(`Loop.Reached.nodesExplored_add_room_le`).

Hence there are no more turns, and no more nodes explored, than a binary tree of the limited depth
has nodes, and from wherever the loop stands it goes on to the place from which the answer is
concluded (`solve_bounded`).
-/

namespace LinOpt.BranchAndBound

variable {α : Type} {c : Config α} {f top : Frame α} {rest : List (Frame α)}

/-! ## Room -/

/-- The number of nodes from a node on down for which the depth limit leaves room, one level beyond
it included. -/
def Frame.room (c : Config α) (f : Frame α) : ℕ := fullTree (c.maxBranchDepth + 1 - f.depth)

/-- The number of nodes for which there is room from the open nodes on; none once the search is
halted. -/
def Loop.room (c : Config α) (l : Loop α) : ℕ :=
  if l.search.halt.isSome then 0 else (l.stack.map (Frame.room c)).sum

/-- An open node has room for itself. -/
theorem Frame.room_pos (c : Config α) (f : Frame α) : 0 < f.room c := fullTree_pos _

/-- The room of a node within the limit is for the node itself and for its two children. -/
theorem Frame.room_eq (hdepth : f.depth ≤ c.maxBranchDepth) (node : Node α) :
    f.room c = 2 * Frame.room c ⟨node, f.depth + 1⟩ + 1 := by
  have hleft : c.maxBranchDepth + 1 - f.depth = c.maxBranchDepth + 1 - (f.depth + 1) + 1 := by omega
  rw [room, hleft]
  exact fullTree_succ _

/-- A search that is not halted has the room of its open nodes. -/
theorem Loop.room_of_halt {l : Loop α} (h : l.search.halt = none) :
    l.room c = (l.stack.map (Frame.room c)).sum := by
  rw [room, h]
  rfl

/-- A search has at most the room of its open nodes. -/
theorem Loop.room_le (c : Config α) (l : Loop α) :
    l.room c ≤ (l.stack.map (Frame.room c)).sum := by
  rw [room]
  split_ifs
  · exact Nat.zero_le _
  · exact le_rfl

/-! ## Turns -/

variable [Scalar α] {g : Goal} {p : Problem α} {j : Journal α} {node : Node α} {s : Search α}
  {l l' : Loop α}

/-- A visit does not count its node as explored again. -/
theorem Fate.nodesExplored_eq {out : Search α × Option (Node α × Node α)}
    (h : Fate c g node s out) : out.1.stats.nodesExplored = s.stats.nodesExplored := by
  cases h with
  | integral value better => exact (s.ends_takeIntegral c node value better).nodesExplored_eq
  | infeasible | abandoned | pruned | failed | branched => rfl

/-- A turn explores a node at most, and uses up the room for it. -/
theorem Loop.Turn.nodesExplored_add_room (h : Turn c g l l') :
    l'.search.stats.nodesExplored + l'.room c ≤ l.search.stats.nodesExplored + l.room c ∧
      l'.room c < l.room c := by
  rw [l.room_of_halt h.halt_eq_none]
  cases h with
  | @interrupted top rest s hhalt hask =>
    have hroom : room c ⟨top :: rest, (s.asked c).interrupt c (rest.length + 1)⟩ = 0 := rfl
    have hpos := top.room_pos c
    rw [hroom, List.map_cons, List.sum_cons]
    exact ⟨Nat.add_le_add_left (Nat.zero_le _) _, by omega⟩
  | @tooDeep top rest s hhalt hask hdepth =>
    have hexplored : ((s.takenUp c).abandonDeep c top.node.path).stats.nodesExplored =
        s.stats.nodesExplored + 1 := rfl
    have hroom := room_le c ⟨rest, (s.takenUp c).abandonDeep c top.node.path⟩
    have hpos := top.room_pos c
    dsimp only at hroom ⊢
    rw [hexplored, List.map_cons, List.sum_cons]
    omega
  | @closed top rest s s' hhalt hask hdepth hvisit =>
    have hexplored : s'.stats.nodesExplored = s.stats.nodesExplored + 1 :=
      (visit_fate hvisit).nodesExplored_eq
    have hroom := room_le c ⟨rest, s'⟩
    have hpos := top.room_pos c
    dsimp only at hroom ⊢
    rw [hexplored, List.map_cons, List.sum_cons]
    omega
  | @branched top rest s s' down up hhalt hask hdepth hvisit =>
    have hexplored : s'.stats.nodesExplored = s.stats.nodesExplored + 1 :=
      (visit_fate hvisit).nodesExplored_eq
    have hroom := room_le c ⟨⟨down, top.depth + 1⟩ :: ⟨up, top.depth + 1⟩ :: rest, s'⟩
    have hdown := Frame.room_eq hdepth down
    have hup := Frame.room_eq hdepth up
    simp only [List.map_cons, List.sum_cons] at hroom ⊢
    rw [hexplored]
    omega

/-- A turn leaves less room. -/
theorem Loop.Turn.room_lt (h : Turn c g l l') : l'.room c < l.room c := h.nodesExplored_add_room.2

/-- From every place the loop takes one turn at most. -/
theorem Loop.Turn.rightUnique : Relator.RightUnique (Turn c g) := by
  intro l l₁ l₂ h₁ h₂
  cases h₁ with
  | interrupted hhalt hask =>
    cases h₂ with
    | interrupted => rfl
    | tooDeep _ hask' | closed _ hask' | branched _ hask' => cases hask.symm.trans hask'
  | tooDeep hhalt hask hdepth =>
    cases h₂ with
    | interrupted _ hask' => cases hask.symm.trans hask'
    | tooDeep => rfl
    | closed _ _ hdepth' | branched _ _ hdepth' => exact absurd hdepth' hdepth.not_ge
  | closed hhalt hask hdepth hvisit =>
    cases h₂ with
    | interrupted _ hask' => cases hask.symm.trans hask'
    | tooDeep _ _ hdepth' => exact absurd hdepth hdepth'.not_ge
    | closed _ _ _ hvisit' => cases hvisit.symm.trans hvisit'; rfl
    | branched _ _ _ hvisit' => cases hvisit.symm.trans hvisit'
  | branched hhalt hask hdepth hvisit =>
    cases h₂ with
    | interrupted _ hask' => cases hask.symm.trans hask'
    | tooDeep _ _ hdepth' => exact absurd hdepth hdepth'.not_ge
    | closed _ _ _ hvisit' => cases hvisit.symm.trans hvisit'
    | branched _ _ _ hvisit' => cases hvisit.symm.trans hvisit'; rfl

/-! ## Runs -/

/-- The loop starts at one place only. -/
theorem Loop.Reached.exists_root (h : Reached c p j l) :
    ∃ root, ∀ {l'}, Reached c p j l' → Relation.ReflTransGen (Turn c (goal p).1) root l' := by
  induction h with
  | @root session relaxation hresult hsession hopt =>
    refine ⟨⟨[⟨⟨session, relaxation, .root⟩, 0⟩],
      { remarks := (goal p).2, journal := (DualSimplex.solve ⟨c, none⟩ p j).journal }⟩,
      fun h' => ?_⟩
    induction h' with
    | root hresult' hsession' hopt' =>
      obtain rfl := Except.ok.inj (hresult.symm.trans hresult')
      obtain rfl := Option.some.inj (hsession.symm.trans hsession')
      exact .refl
    | turn _ hturn ih => exact ih.tail hturn
  | turn _ _ ih => exact ih

/-- The loop is entered from an optimum of the relaxation only. -/
theorem Loop.Reached.optimal (h : Reached c p j l) : ∃ relaxation,
    (DualSimplex.solve ⟨c, none⟩ p j).result = .ok relaxation ∧ relaxation.status = .optimal := by
  induction h with
  | root hresult _ hopt => exact ⟨_, hresult, hopt⟩
  | turn _ _ ih => exact ih

/-- The nodes explored so far and the room that is left are those of the whole tree at most. -/
theorem Loop.Reached.nodesExplored_add_room_le (h : Reached c p j l) :
    l.search.stats.nodesExplored + l.room c ≤ 2 ^ (c.maxBranchDepth + 2) - 1 := by
  induction h with
  | root hresult hsession hopt => exact (Nat.zero_add _).le.trans (room_le c _)
  | turn hreached hturn ih => exact hturn.nodesExplored_add_room.1.trans ih

/-- No open node lies more than one level beyond the limit. -/
theorem Loop.Reached.depth_le (h : Reached c p j l) :
    ∀ f ∈ l.stack, f.depth ≤ c.maxBranchDepth + 1 := by
  induction h with
  | root hresult hsession hopt => exact List.forall_mem_singleton.2 (Nat.zero_le _)
  | turn hreached hturn ih =>
    cases hturn with
    | interrupted => exact ih
    | tooDeep | closed => exact (List.forall_mem_cons.1 ih).2
    | branched hhalt hask hdepth =>
      have hchild := Nat.succ_le_succ hdepth
      exact List.forall_mem_cons.2 ⟨hchild, List.forall_mem_cons.2
        ⟨hchild, (List.forall_mem_cons.1 ih).2⟩⟩

/-! ## Answers -/

/-- The search ends, in any arithmetic. The loop takes no more turns than a binary tree has nodes
that goes one level beyond the depth limit, and from wherever it stands, it goes on to the place
from which the answer is concluded. No node lies deeper than that level, and no more nodes are
explored than such a tree has. -/
theorem solve_bounded (c : Config α) (p : Problem α) (j : Journal α) :
    (∀ (n : ℕ) (run : ℕ → Loop α), (run 0).Reached c p j →
        (∀ k < n, (run k).Turn c (goal p).1 (run (k + 1))) → n ≤ 2 ^ (c.maxBranchDepth + 2) - 1) ∧
      (∀ l : Loop α, l.Reached c p j → ∃ last : Loop α,
        Relation.ReflTransGen (Loop.Turn c (goal p).1) l last ∧
          (∀ l', ¬last.Turn c (goal p).1 l') ∧ solve c p j = conclude c (goal p).1 last.search) ∧
      (∀ f : Frame α, f.OnTop c p j →
        f.depth = f.node.path.depth ∧ f.depth ≤ c.maxBranchDepth + 1) ∧
      (solve c p j).state.nodesExplored ≤ 2 ^ (c.maxBranchDepth + 2) - 1 := by
  refine ⟨fun n run hstart hrun => ?_, fun l hl => ?_, ?_, ?_⟩
  · have hroom := hstart.nodesExplored_add_room_le
    have hlength := length_le_of_potential (fun _ _ hturn => hturn.room_lt) hrun
    omega
  · obtain ⟨relaxation, hroot, hopt⟩ := hl.optimal
    obtain ⟨last, hreached, hclosed, hsolve⟩ := solve_eq_conclude hroot hopt
    have hend : ∀ l', ¬last.Turn c (goal p).1 l' := fun l' hturn =>
      hturn.stack_ne_nil (hclosed hturn.halt_eq_none)
    obtain ⟨root, hruns⟩ := hl.exists_root
    exact ⟨last, reaches_end Loop.Turn.rightUnique (hruns hl) (hruns hreached) hend, hend, hsolve⟩
  · rintro f ⟨l, rest, hl, hstack⟩
    have hmem : f ∈ l.stack := hstack ▸ List.mem_cons_self
    exact ⟨(hl.ordered.placed f hmem).depth_eq, hl.depth_le f hmem⟩
  · by_cases hopt : ∃ relaxation, (DualSimplex.solve ⟨c, none⟩ p j).result = .ok relaxation ∧
        relaxation.status = .optimal
    · obtain ⟨relaxation, hroot, hopt⟩ := hopt
      obtain ⟨last, hreached, -, hsolve⟩ := solve_eq_conclude hroot hopt
      rw [hsolve, state_conclude]
      exact (Nat.le_add_right _ _).trans hreached.nodesExplored_add_room_le
    · have hnone := (solve_of_not_optimal fun relaxation hroot h => hopt ⟨relaxation, hroot, h⟩).1
      rw [hnone]
      exact Nat.zero_le _

/-- With the children of the root too deep to be dealt with, the search for the best integral point
of `2 x₁ + 3 x₂` with `2 x₁ + 4 x₂ ≤ 7` and `4 x₁ + 2 x₂ ≤ 9` explores as many nodes as the bound
allows. -/
theorem solve_bounded_attained :
    let products : Problem ℚ :=
      { Problem.ofObjective .maximize [2, 3] with
        constraints := [⟨[2, 4], .le, 7⟩, ⟨[4, 2], .le, 9⟩] }
    let c : Config ℚ := { Config.exact with maxBranchDepth := 0 }
    (∃ l last : Loop ℚ, l.Reached c products {} ∧
        Relation.ReflTransGen (Loop.Turn c (goal products).1) l last ∧
        (∀ l', ¬last.Turn c (goal products).1 l') ∧
        solve c products {} = conclude c (goal products).1 last.search) ∧
      (∀ f : Frame ℚ, f.OnTop c products {} → f.depth = f.node.path.depth ∧ f.depth ≤ 1) ∧
      (solve c products {}).state.nodesExplored = 3 ∧ 3 ≤ 2 ^ (c.maxBranchDepth + 2) - 1 := by
  intro products c
  have hrelaxed : (DualSimplex.solve ⟨c, none⟩ products {}).result.toOption.map (·.status) =
      some .optimal := by decide +kernel
  have hcounted : (solve c products {}).state =
      { nodesExplored := 3, branches := 1, abandoned := 2 } := by decide +kernel
  obtain ⟨relaxation, hroot, hopt⟩ := exists_ok_of_map hrelaxed
  obtain ⟨l, hl, -, -⟩ := solve_eq_conclude hroot hopt
  obtain ⟨-, hends, hdepth, hexplored⟩ := solve_bounded c products {}
  obtain ⟨last, hrun, hlast, hsolve⟩ := hends l hl
  rw [hcounted] at hexplored ⊢
  exact ⟨⟨l, last, hl, hrun, hlast, hsolve⟩, hdepth, rfl, hexplored⟩

end LinOpt.BranchAndBound
