import LinOpt.Proofs.Integer.NodeSteps
import LinOpt.Proofs.Simplex.Dual.Session

/-!
# The search goes through its tree in preorder

In depth-first preorder a node comes before those below it, and the subtree of its first child
before that of its second (`BranchPath.Precedes`). The open nodes on the stack lie side by side from
left to right, and all nodes noted so far precede them (`Loop.Ordered`). So the topmost node may be
noted next, and its children take its place on the stack: whatever is searched below it is noted
before the rest of the stack is.

Hence the order of the recorded nodes is that of the tree, and every recorded node but the root is a
child of a branching recorded before it, by the bound of its branch (`solve_preorder`).
-/

namespace LinOpt

/-! ## Preorder -/

namespace BranchPath

variable {p p' q q' r t : BranchPath}

/-- A node lies in the subtree of another, which may be the node itself. -/
def InSubtree (p q : BranchPath) : Prop := q.branches <+: p.branches

/-- A node lies in the subtree of some first child and another in that of the second. -/
def LeftOf (p q : BranchPath) : Prop :=
  ∃ t : BranchPath, p.InSubtree (t.child .first) ∧ q.InSubtree (t.child .second)

/-- Depth-first preorder: a node precedes those below it, and what lies to the left precedes what
lies to the right. -/
def Precedes (p q : BranchPath) : Prop := (q.InSubtree p ∧ p ≠ q) ∨ p.LeftOf q

@[simp] theorem depth_child (p : BranchPath) (b : Branch) : (p.child b).depth = p.depth + 1 :=
  List.length_append

/-- Every node lies in its own subtree. -/
theorem inSubtree_refl (p : BranchPath) : p.InSubtree p := List.prefix_refl _

/-- A child lies in the subtree of its parent. -/
theorem inSubtree_child (p : BranchPath) (b : Branch) : (p.child b).InSubtree p :=
  List.prefix_append _ _

namespace InSubtree

/-- What lies in the subtree of a node lies in every subtree that the node lies in. -/
theorem trans (h : p.InSubtree q) (h' : q.InSubtree r) : p.InSubtree r := List.IsPrefix.trans h' h

/-- In a subtree only its root is as deep as the root. -/
theorem eq_of_depth (h : p.InSubtree q) (hdepth : q.depth = p.depth) : p = q := by
  have := List.IsPrefix.eq_of_length h hdepth
  exact congrArg BranchPath.mk this.symm

/-- What lies in a subtree is at least as deep as its root. -/
theorem depth_le (h : p.InSubtree q) : q.depth ≤ p.depth := List.IsPrefix.length_le h

/-- Of two subtrees that meet, the one that starts further down is part of the other. -/
theorem of_depth_le (hp : r.InSubtree p) (hq : r.InSubtree q) (h : q.depth ≤ p.depth) :
    p.InSubtree q := List.prefix_of_prefix_length_le hq hp h

/-- The subtrees of two children do not meet. -/
theorem not_second (h : p.InSubtree (t.child .first)) : ¬p.InSubtree (t.child .second) := by
  intro h'
  have hchild := (h.of_depth_le h' (by simp)).eq_of_depth (by simp)
  have := List.append_cancel_left (congrArg branches hchild)
  cases this

end InSubtree

namespace LeftOf

/-- What lies below keeps to its side. -/
theorem of_inSubtree (h : p.LeftOf q) (hp : p'.InSubtree p) (hq : q'.InSubtree q) : p'.LeftOf q' :=
  let ⟨t, hfirst, hsecond⟩ := h
  ⟨t, hp.trans hfirst, hq.trans hsecond⟩

/-- No node lies to the left of itself. -/
theorem irrefl (p : BranchPath) : ¬p.LeftOf p :=
  fun ⟨_, hfirst, hsecond⟩ => hfirst.not_second hsecond

/-- The nodes at which two sides part are the same or one above the other; in each case the subtrees
of two children would meet. -/
theorem asymm (h : p.LeftOf q) : ¬q.LeftOf p := by
  obtain ⟨t, hp, hq⟩ := h
  rintro ⟨u, hq', hp'⟩
  rcases lt_trichotomy t.depth u.depth with hlt | heq | hgt
  · -- `u` lies below the first child of `t`, and `q` with it
    have hu := ((hp'.trans (inSubtree_child u _)).of_depth_le hp (by rw [depth_child]; exact hlt))
    exact ((hq'.trans (inSubtree_child u _)).trans hu).not_second hq
  · have hchild := (hp.of_depth_le hp' (by simp [heq])).eq_of_depth (by simp [heq])
    have := (List.append_inj' (congrArg branches hchild) rfl).2
    cases this
  · have ht := ((hq.trans (inSubtree_child t _)).of_depth_le hq' (by rw [depth_child]; exact hgt))
    exact ((hp.trans (inSubtree_child t _)).trans ht).not_second hp'

end LeftOf

/-- The first child lies to the left of the second. -/
theorem leftOf_children (p : BranchPath) : (p.child .first).LeftOf (p.child .second) :=
  ⟨p, inSubtree_refl _, inSubtree_refl _⟩

/-- A node precedes its children. -/
theorem precedes_child (p : BranchPath) (b : Branch) : p.Precedes (p.child b) :=
  .inl ⟨inSubtree_child p b, fun h => by simpa using congrArg depth h⟩

namespace Precedes

/-- What precedes a node precedes all below it. -/
theorem of_inSubtree (h : p.Precedes q) (hq : q'.InSubtree q) : p.Precedes q' := by
  obtain ⟨hbelow, hne⟩ | hleft := h
  · refine .inl ⟨hq.trans hbelow, ?_⟩
    rintro rfl
    exact hne (hq.eq_of_depth (le_antisymm hq.depth_le hbelow.depth_le))
  · exact .inr (hleft.of_inSubtree (inSubtree_refl p) hq)

/-- Of two nodes at most one precedes the other. -/
theorem asymm (h : p.Precedes q) : ¬q.Precedes p := by
  rintro (⟨hpq, -⟩ | hleft')
  · obtain ⟨hqp, hne⟩ | hleft := h
    · exact hne (hpq.eq_of_depth (le_antisymm hpq.depth_le hqp.depth_le))
    · exact LeftOf.irrefl p (hleft.of_inSubtree (inSubtree_refl p) hpq)
  · obtain ⟨hqp, hne⟩ | hleft := h
    · exact LeftOf.irrefl q (hleft'.of_inSubtree (inSubtree_refl q) hqp)
    · exact hleft.asymm hleft'

/-- No node precedes itself. -/
theorem irrefl (p : BranchPath) : ¬p.Precedes p := fun h => h.asymm h

end Precedes
end BranchPath

namespace BranchAndBound

variable {α : Type} [Scalar α] {c : Config α} {g : Goal} {p : Problem α} {j : Journal α}
  {node : Node α} {s s' : Search α} {l l' : Loop α} {f top : Frame α} {rest : List (Frame α)}

/-! ## Places in the tree -/

/-- A node that is the topmost one somewhere in the search. -/
def Frame.OnTop (c : Config α) (p : Problem α) (j : Journal α) (f : Frame α) : Prop :=
  ∃ l rest, Loop.Reached c p j l ∧ l.stack = f :: rest

/-- The place of a node is accounted for by the notes that were taken before: it is as deep as its
path says, and unless it is the root, it is a child of a node that was noted as branching. -/
structure Frame.Placed (c : Config α) (p : Problem α) (j : Journal α)
    (before : List (BranchPath × StepText α)) (f : Frame α) : Prop where
  depth_eq : f.depth = f.node.path.depth
  parent : f.node.path = .root ∨ ∃ (parent : Frame α) (value : α)
    (at_ : Fractional.Candidate α) (b : Branch), parent.OnTop c p j ∧
      (parent.node.path, .branching value at_.index at_.value) ∈ before ∧
      parent.node.IsChild c (goal p).1 at_ b f.node

/-- A place stays accounted for when more is noted. -/
theorem Frame.Placed.mono {before after : List (BranchPath × StepText α)}
    (h : f.Placed c p j before) (hsub : before ⊆ after) : f.Placed c p j after :=
  ⟨h.depth_eq, h.parent.imp id fun ⟨parent, value, at_, b, htop, hmem, hchild⟩ =>
    ⟨parent, value, at_, b, htop, hsub hmem, hchild⟩⟩

/-- A child is as deep as its path says if its parent is. -/
theorem Frame.Placed.child {before : List (BranchPath × StepText α)} (h : f.Placed c p j before)
    (htop : f.OnTop c p j) {value : α} {at_ : Fractional.Candidate α}
    (hmem : (f.node.path, .branching value at_.index at_.value) ∈ before) {b : Branch}
    {child : Node α} (hchild : f.node.IsChild c (goal p).1 at_ b child) :
    Frame.Placed c p j before ⟨child, f.depth + 1⟩ :=
  ⟨by rw [hchild.path_eq, BranchPath.depth_child, h.depth_eq],
    .inr ⟨f, value, at_, b, htop, hmem, hchild⟩⟩

/-! ## Notes -/

/-- A visit without children takes at most one note, about its node. -/
theorem Fate.nodes_of_none (h : Fate c g node s (s', none)) :
    s'.nodes = s.nodes ∨ ∃ text, s'.nodes = s.nodes ++ [(node.path, text)] := by
  cases h with
  | abandoned status => exact .inl rfl
  | infeasible | pruned | failed => exact .inr ⟨_, rfl⟩
  | integral value better =>
    refine .inr ⟨.integral value better, ?_⟩
    unfold Search.takeIntegral
    dsimp only
    split_ifs <;> rfl

/-- A visit with children notes the branching. -/
theorem Fate.nodes_of_some {down up : Node α} (h : Fate c g node s (s', some (down, up))) :
    ∃ (value : α) (at_ : Fractional.Candidate α),
      s'.nodes = s.nodes ++ [(node.path, .branching value at_.index at_.value)] ∧
      node.IsChild c g at_ .first down ∧ node.IsChild c g at_ .second up := by
  cases h with
  | branched value at_ j hdown hup => exact ⟨value, at_, rfl, hdown, hup⟩

/-! ## Turns -/

/-- The open nodes lie side by side from left to right, the notes are in preorder and precede all
open nodes, and every place is accounted for. -/
structure Loop.Ordered (c : Config α) (p : Problem α) (j : Journal α) (l : Loop α) : Prop where
  stack : l.stack.Pairwise fun f f' => f.node.path.LeftOf f'.node.path
  nodes : l.search.nodes.Pairwise fun e e' => e.1.Precedes e'.1
  ahead : ∀ e ∈ l.search.nodes, ∀ f ∈ l.stack, e.1.Precedes f.node.path
  placed : ∀ f ∈ l.stack, f.Placed c p j l.search.nodes
  noted : ∀ before e after, l.search.nodes = before ++ e :: after →
    ∃ f : Frame α, f.OnTop c p j ∧ f.node.path = e.1 ∧ f.Placed c p j before

namespace Loop.Ordered

/-- A node may leave the stack without a note. -/
theorem pop (h : Ordered c p j ⟨top :: rest, s⟩) (hnodes : s'.nodes = s.nodes) :
    Ordered c p j ⟨rest, s'⟩ := by
  obtain ⟨hstack, hordered, hahead, hplaced, hnoted⟩ := h
  dsimp only at *
  refine ⟨hstack.tail, ?_, ?_, ?_, ?_⟩
  all_goals dsimp only; rw [hnodes]
  · exact hordered
  · exact fun e he f hf => hahead e he f (List.mem_cons_of_mem _ hf)
  · exact fun f hf => hplaced f (List.mem_cons_of_mem _ hf)
  · exact hnoted

/-- The topmost node may be noted next: it lies to the left of all others. -/
theorem note (h : Ordered c p j ⟨top :: rest, s⟩) (htop : top.OnTop c p j) {text : StepText α}
    (hnodes : s'.nodes = s.nodes ++ [(top.node.path, text)]) : Ordered c p j ⟨rest, s'⟩ := by
  obtain ⟨hstack, hordered, hahead, hplaced, hnoted⟩ := h
  dsimp only at *
  have hsub : s.nodes ⊆ s'.nodes := hnodes ▸ List.subset_append_left _ _
  have hleft := (List.pairwise_cons.1 hstack).1
  refine ⟨hstack.tail, ?_, ?_, fun f hf => (hplaced f (List.mem_cons_of_mem _ hf)).mono hsub, ?_⟩
  · dsimp only
    rw [hnodes]
    refine List.pairwise_append.2 ⟨hordered, List.pairwise_singleton _ _, fun e he e' he' => ?_⟩
    rw [List.mem_singleton.1 he']
    exact hahead e he top List.mem_cons_self
  · intro e he f hf
    dsimp only at he
    rw [hnodes] at he
    rcases List.mem_append.1 he with he | he
    · exact hahead e he f (List.mem_cons_of_mem _ hf)
    · rw [List.mem_singleton.1 he]
      exact .inr (hleft f hf)
  · intro before e after heq
    dsimp only at heq
    rw [hnodes] at heq
    rcases List.eq_nil_or_concat' after with rfl | ⟨after, last, rfl⟩
    · obtain ⟨rfl, hlast⟩ := List.append_inj' heq rfl
      obtain rfl := List.singleton_inj.1 hlast
      exact ⟨top, htop, rfl, hplaced top List.mem_cons_self⟩
    · rw [← List.cons_append, ← List.append_assoc] at heq
      exact hnoted before e after (List.append_inj' heq rfl).1

/-- The children of a node that was noted as branching may take its place on the stack. -/
theorem push {down up : Node α} {value : α} {at_ : Fractional.Candidate α}
    (h : Ordered c p j ⟨top :: rest, s⟩) (htop : top.OnTop c p j)
    (hnodes : s'.nodes = s.nodes ++ [(top.node.path, .branching value at_.index at_.value)])
    (hdown : top.node.IsChild c (goal p).1 at_ .first down)
    (hup : top.node.IsChild c (goal p).1 at_ .second up) :
    Ordered c p j ⟨⟨down, top.depth + 1⟩ :: ⟨up, top.depth + 1⟩ :: rest, s'⟩ := by
  obtain ⟨hstack, hordered, hahead, hplaced, hnoted⟩ := h.note htop hnodes
  have hleft := (List.pairwise_cons.1 h.stack).1
  have hmem : (top.node.path, .branching value at_.index at_.value) ∈ s'.nodes :=
    hnodes ▸ List.mem_append_right _ (List.mem_singleton_self _)
  have htopPlaced : top.Placed c p j s'.nodes :=
    (h.placed top List.mem_cons_self).mono (hnodes ▸ List.subset_append_left _ _)
  have hchild : ∀ b, ∀ e ∈ s'.nodes, e.1.Precedes (top.node.path.child b) := by
    intro b e he
    rw [hnodes] at he
    rcases List.mem_append.1 he with he | he
    · exact (h.ahead e he top List.mem_cons_self).of_inSubtree (BranchPath.inSubtree_child _ b)
    · rw [List.mem_singleton.1 he]
      exact BranchPath.precedes_child _ b
  have hside : ∀ b, ∀ f ∈ rest, (top.node.path.child b).LeftOf f.node.path := fun b f hf =>
    (hleft f hf).of_inSubtree (BranchPath.inSubtree_child _ b) (BranchPath.inSubtree_refl _)
  refine ⟨?_, hordered, fun e he => ?_, ?_, hnoted⟩
  · refine List.pairwise_cons.2 ⟨?_, List.pairwise_cons.2 ⟨?_, hstack⟩⟩
    · rw [hdown.path_eq]
      refine List.forall_mem_cons.2 ⟨?_, hside .first⟩
      rw [hup.path_eq]
      exact BranchPath.leftOf_children _
    · rw [hup.path_eq]
      exact hside .second
  · refine List.forall_mem_cons.2 ⟨?_, List.forall_mem_cons.2 ⟨?_, hahead e he⟩⟩
    · rw [hdown.path_eq]
      exact hchild .first e he
    · rw [hup.path_eq]
      exact hchild .second e he
  · exact List.forall_mem_cons.2 ⟨htopPlaced.child htop hmem hdown,
      List.forall_mem_cons.2 ⟨htopPlaced.child htop hmem hup, hplaced⟩⟩

end Loop.Ordered

/-- Wherever the loop stands, its stack and the notes are in order. -/
theorem Loop.Reached.ordered (h : Reached c p j l) : l.Ordered c p j := by
  induction h with
  | root hresult hsession hopt =>
    exact ⟨List.pairwise_singleton _ _, .nil, nofun,
      List.forall_mem_singleton.2 ⟨rfl, .inl rfl⟩, fun before e after h => by simp at h⟩
  | turn hreached hturn ih =>
    cases hturn with
    | interrupted hhalt hask => exact ⟨ih.stack, ih.nodes, ih.ahead, ih.placed, ih.noted⟩
    | tooDeep hhalt hask hdepth => exact ih.pop rfl
    | closed hhalt hask hdepth hvisit =>
      obtain hnodes | ⟨text, hnodes⟩ := (visit_fate hvisit).nodes_of_none
      · exact ih.pop hnodes
      · exact ih.note ⟨_, _, hreached, rfl⟩ hnodes
    | branched hhalt hask hdepth hvisit =>
      obtain ⟨value, at_, hnodes, hdown, hup⟩ := (visit_fate hvisit).nodes_of_some
      exact ih.push ⟨_, _, hreached, rfl⟩ hnodes hdown hup

/-! ## Answers -/

/-- The nodes that a solution records are those that were noted, or none. -/
theorem nodes_eq_of_solve {sol : Solution α} (h : (solve c p j).result = .ok sol) :
    sol.steps.filterMap Step.node? = [] ∨ ∃ l : Loop α, l.Reached c p j ∧
      sol.steps.filterMap Step.node? = l.search.nodes := by
  obtain ⟨relaxation, -, ⟨-, l, hl⟩ | ⟨-, hnone⟩⟩ := solve_concludes h
  · obtain ⟨before, hbefore, hsteps⟩ := hl.steps_eq
    rw [hsteps, List.filterMap_append, hbefore]
    split_ifs
    · refine .inr ⟨l, hl.reached, ?_⟩
      rw [List.nil_append, List.filterMap_map]
      exact List.filterMap_some
    · exact .inl rfl
  · exact .inl hnone

/-- The nodes that a solution records are distinct, and their order is that of the tree: a node
comes before those below it, and the subtree of its first child before that of the second. Each of
them was dealt with at the depth that its path says, and unless it is the root, it is a child, by
the bound of its branch, of a node that is recorded earlier as branching. -/
theorem solve_preorder {sol : Solution α} (h : (solve c p j).result = .ok sol) :
    let nodes := sol.steps.filterMap Step.node?
    let paths := nodes.map (·.1)
    paths.Nodup ∧
      (∀ i k (hi : i < paths.length) (hk : k < paths.length),
        paths[i].Precedes paths[k] ↔ i < k) ∧
      ∀ before e after, nodes = before ++ e :: after →
        ∃ f : Frame α, f.OnTop c p j ∧ f.node.path = e.1 ∧ f.depth = e.1.branches.length ∧
          (e.1 = .root ∨ ∃ (parent : Frame α) (value : α) (at_ : Fractional.Candidate α)
            (b : Branch), parent.OnTop c p j ∧ e.1 = parent.node.path.child b ∧
              (parent.node.path, .branching value at_.index at_.value) ∈ before ∧
              parent.node.IsChild c (goal p).1 at_ b f.node) := by
  intro nodes paths
  obtain ⟨hordered, hnoted⟩ : nodes.Pairwise (fun e e' => e.1.Precedes e'.1) ∧
      ∀ before e after, nodes = before ++ e :: after →
        ∃ f : Frame α, f.OnTop c p j ∧ f.node.path = e.1 ∧ f.Placed c p j before := by
    rcases nodes_eq_of_solve h with hnil | ⟨l, hl, heq⟩
    · rw [show nodes = [] from hnil]
      exact ⟨.nil, fun before e after h => by simp at h⟩
    · rw [show nodes = l.search.nodes from heq]
      exact ⟨hl.ordered.nodes, hl.ordered.noted⟩
  have hpaths : paths.Pairwise BranchPath.Precedes := List.pairwise_map.2 hordered
  have hlater := List.pairwise_iff_getElem.1 hpaths
  refine ⟨hpaths.imp ?_, fun i k hi hk => ⟨fun hik => ?_, hlater i k hi hk⟩,
    fun before e after hsplit => ?_⟩
  · rintro q _ hq rfl
    exact BranchPath.Precedes.irrefl q hq
  · rcases lt_trichotomy i k with hlt | rfl | hgt
    · exact hlt
    · exact absurd hik (BranchPath.Precedes.irrefl _)
    · exact absurd hik (hlater k i hk hi hgt).asymm
  · obtain ⟨f, htop, hpath, hplaced⟩ := hnoted before e after hsplit
    refine ⟨f, htop, hpath, by rw [hplaced.depth_eq, hpath]; rfl, ?_⟩
    rw [← hpath]
    refine hplaced.parent.imp id ?_
    rintro ⟨parent, value, at_, b, hparent, hmem, hchild⟩
    exact ⟨parent, value, at_, b, hparent, hchild.path_eq, hmem, hchild⟩

/-- The search for the best integral point of `2 x₁ + 3 x₂` with `2 x₁ + 4 x₂ ≤ 7` and
`4 x₁ + 2 x₂ ≤ 9` branches at the root and at both of its children. -/
theorem solve_preorder_products :
    let products : Problem ℚ :=
      { Problem.ofObjective .maximize [2, 3] with
        constraints := [⟨[2, 4], .le, 7⟩, ⟨[4, 2], .le, 9⟩] }
    ∃ sol : Solution ℚ, (solve .exact products {}).result = .ok sol ∧
      let paths := (sol.steps.filterMap Step.node?).map (·.1)
      paths.map BranchPath.text = ["", "1", "1.1", "1.2", "2", "2.1", "2.2"] ∧ paths.Nodup ∧
      ∀ i k (hi : i < paths.length) (hk : k < paths.length),
        paths[i].Precedes paths[k] ↔ i < k := by
  intro products
  have hsolved : (solve .exact products {}).result.toOption.map (fun sol =>
      (sol.steps.filterMap Step.node?).map (·.1.text)) =
        some ["", "1", "1.1", "1.2", "2", "2.1", "2.2"] := by decide +kernel
  obtain ⟨sol, hsol, hpaths⟩ := exists_ok_of_map hsolved
  obtain ⟨hnodup, horder, -⟩ := solve_preorder hsol
  exact ⟨sol, hsol, (List.map_map ..).trans hpaths, hnodup, horder⟩

end BranchAndBound
end LinOpt
