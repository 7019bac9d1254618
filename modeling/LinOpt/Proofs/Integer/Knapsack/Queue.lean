import LinOpt.Proofs.Integer.Knapsack.Search
import LinOpt.Proofs.Runs

/-!
# The queue of a packing search

The search goes level by level. It is also a loop over a queue: the node at the front is taken out
and visited, and the children it leaves go to the back with a depth that is one greater
(`Knapsack.Loop.Turn`). All the levels do is go where the loop goes (`Knapsack.exists_reaches_run`).

The depth of a queued node is the number of items it decides about (`Knapsack.Queued.Placed`). So a
node that splits an item, which it left open, is less deep than there are items
(`Knapsack.Queued.Placed.depth_lt`), and there is always a level below it: the warning that a node
lies too deep is never given (`Knapsack.Loop.Reached.tooDeep_eq`). The items left undecided also
bound the search, because a visit spends a node of a tree of that height
(`Knapsack.Loop.Turn.room_lt`).
-/

namespace LinOpt

/-- A node of a packing search that lies too deep. -/
def Event.packingTooDeep? {α : Type} : Event α → Option BranchPath
  | .packingTooDeep path => some path
  | _ => none

/-- The nodes of packing searches that a journal calls too deep, in order. -/
def Journal.tooDeep {α : Type} (j : Journal α) : List BranchPath :=
  j.events.filterMap Event.packingTooDeep?

@[simp] theorem Journal.tooDeep_emit {α : Type} (j : Journal α) (c : Config α) (e : Event α) :
    (c.emit j e).tooDeep = j.tooDeep ++ e.packingTooDeep?.toList :=
  j.filterMap_emit c e Event.packingTooDeep?

namespace Knapsack

variable {α : Type} [Scalar α] {c : Config α} {t : Task α} {deeper : Bool} {j : Journal α}
  {n : Node} {s : Search α}

/-! ## Turns of the loop -/

/-- A node in the queue and its depth. -/
structure Queued where
  node : Node
  depth : ℕ

/-- Nodes of one depth, queued. -/
def queued (depth : ℕ) (nodes : List Node) : List Queued := nodes.map (⟨·, depth⟩)

/-- Nodes are queued one after another. -/
theorem queued_append (depth : ℕ) (nodes nodes' : List Node) :
    queued depth (nodes ++ nodes') = queued depth nodes ++ queued depth nodes' := List.map_append

/-- Every node is queued once. -/
theorem length_queued (depth : ℕ) (nodes : List Node) :
    (queued depth nodes).length = nodes.length := List.length_map _

/-- Where the loop stands: the queue, its front first, and the search so far. -/
structure Loop (α : Type) where
  queue : List Queued
  search : Search α

/-- One turn of the loop. A node that is not visited because of an interrupt is still open. -/
inductive Loop.Turn (c : Config α) (t : Task α) : Loop α → Loop α → Prop
  | interrupted {front : Queued} {rest : List Queued} {s : Search α}
      (hopen : s.interrupted = false) (hask : (c.ask s.journal).1 = true) :
      Turn c t ⟨front :: rest, s⟩ ⟨front :: rest, (s.asked c).interrupt c (rest.length + 1)⟩
  | visited {front : Queued} {rest : List Queued} {s s' : Search α} {children : List Node}
      (hopen : s.interrupted = false) (hask : (c.ask s.journal).1 = false)
      (hvisit : (s.asked c).visit c t (decide (front.depth < t.items.length)) front.node =
        (s', children)) :
      Turn c t ⟨front :: rest, s⟩ ⟨rest ++ queued (front.depth + 1) children, s'⟩

/-- Where the loop starts: the node above all others is in the queue. -/
def Loop.start (t : Task α) (j : Journal α) : Loop α :=
  ⟨[⟨t.root, 0⟩],
    { solution := ({ counts := { decision := t.items.length } } : Solution α).log
        (.itemRanking (t.items.map (·.index)))
      journal := j }⟩

/-- Where the loop can stand in the search that a task leads to. -/
def Loop.Reached (c : Config α) (t : Task α) (j : Journal α) : Loop α → Prop :=
  Relation.ReflTransGen (Loop.Turn c t) (Loop.start t j)

/-- From every place the loop takes one turn at most. -/
theorem Loop.Turn.rightUnique : Relator.RightUnique (Loop.Turn c t) := by
  intro l l₁ l₂ h₁ h₂
  cases h₁ with
  | interrupted hopen hask =>
    cases h₂ with
    | interrupted => rfl
    | visited _ hask' => cases hask.symm.trans hask'
  | visited hopen hask hvisit =>
    cases h₂ with
    | interrupted _ hask' => cases hask.symm.trans hask'
    | visited _ _ hvisit' => cases hvisit.symm.trans hvisit'; rfl

/-- A visit does what the node has to offer and does not interrupt the search. -/
theorem Visited.of_visit {s' : Search α} {children : List Node}
    (h : s.visit c t deeper n = (s', children)) : Visited c t deeper n s s' children := by
  have hspec := visit_spec c t deeper n s
  rwa [h] at hspec

/-- A visit to a node is not what interrupts a search. -/
theorem interrupted_of_visit {s' : Search α} {children : List Node}
    (h : s.visit c t deeper n = (s', children)) : s'.interrupted = s.interrupted := by
  have hframe := (visit_frame c t deeper n s).1
  rwa [h] at hframe

/-! ## Levels as turns -/

open Search (level levels)

/-- A level takes the nodes of its depth out of the queue, unless it is interrupted. -/
theorem exists_reaches_level {depth : ℕ} (hdeeper : deeper = decide (depth < t.items.length))
    (nodes next : List Node) (hopen : s.interrupted = false) : ∃ queue,
      let out := level c t deeper nodes next s
      Relation.ReflTransGen (Loop.Turn c t) ⟨queued depth nodes ++ queued (depth + 1) next, s⟩
          ⟨queue, out.1⟩ ∧
        (out.1.interrupted = false → queue = queued (depth + 1) out.2) ∧
        (out.1.interrupted = true → out.2 = []) := by
  induction nodes generalizing next s with
  | nil => exact ⟨_, .refl, fun _ => rfl, fun h => nomatch hopen.symm.trans h⟩
  | cons n rest ih =>
    rw [level_cons]
    dsimp only
    split_ifs with hask
    · have hturn : Loop.Turn c t
          ⟨⟨n, depth⟩ :: (queued depth rest ++ queued (depth + 1) next), s⟩
          ⟨⟨n, depth⟩ :: (queued depth rest ++ queued (depth + 1) next), _⟩ :=
        .interrupted hopen hask
      rw [List.length_append, length_queued, length_queued] at hturn
      exact ⟨_, .single hturn, fun h => (nomatch h), fun _ => rfl⟩
    · cases hvisit : (s.asked c).visit c t deeper n with
      | mk s' children =>
      have hturn : Loop.Turn c t
          ⟨⟨n, depth⟩ :: (queued depth rest ++ queued (depth + 1) next), s⟩
          ⟨queued depth rest ++ queued (depth + 1) next ++ queued (depth + 1) children, s'⟩ :=
        .visited hopen (Bool.eq_false_iff.2 hask) (hdeeper ▸ hvisit)
      rw [List.append_assoc, ← queued_append] at hturn
      obtain ⟨queue, hrun, hend⟩ :=
        ih (next ++ children) ((interrupted_of_visit hvisit).trans hopen)
      exact ⟨queue, .head hturn hrun, hend⟩

/-- No level without nodes leaves a trace. -/
theorem levels_nil (left : ℕ) (s : Search α) : levels c t left [] s = s := by
  induction left with
  | zero => rfl
  | succ left ih => exact ih

/-- The levels from one on take everything out of the queue, unless they are interrupted: by
induction on the items left, which with the depth make up all items. -/
theorem exists_reaches_levels (left depth : ℕ) (hleft : depth + left = t.items.length)
    (nodes : List Node) (hopen : s.interrupted = false) : ∃ queue,
      let s' := levels c t left nodes s
      Relation.ReflTransGen (Loop.Turn c t) ⟨queued depth nodes, s⟩ ⟨queue, s'⟩ ∧
        (s'.interrupted = false → queue = []) := by
  induction left generalizing depth nodes s with
  | zero =>
    have hdeeper : false = decide (depth < t.items.length) := (decide_eq_false (by omega)).symm
    obtain ⟨queue, hrun, hqueue, -⟩ := exists_reaches_level (c := c) hdeeper nodes [] hopen
    have hlast : (level c t false nodes [] s).2 = [] := by
      refine List.eq_nil_iff_forall_not_mem.2 fun m hm => ?_
      obtain ⟨n, -, hchild⟩ := List.mem_flatMap.1 ((level_sublist c t false nodes [] s).2.mem hm)
      cases (Task.mem_children hchild).1
    rw [hlast] at hqueue
    rw [queued, queued, List.map_nil, List.append_nil] at hrun
    exact ⟨queue, hrun, hqueue⟩
  | succ left ih =>
    have hdeeper : true = decide (depth < t.items.length) := (decide_eq_true (by omega)).symm
    obtain ⟨queue, hrun, hqueue, hcut⟩ := exists_reaches_level (c := c) hdeeper nodes [] hopen
    rw [queued, queued, List.map_nil, List.append_nil] at hrun
    rw [levels]
    dsimp only
    cases hinterrupted : (level c t true nodes [] s).1.interrupted with
    | true =>
      rw [hcut hinterrupted, levels_nil]
      exact ⟨queue, hrun, fun h => nomatch hinterrupted.symm.trans h⟩
    | false =>
      rw [hqueue hinterrupted] at hrun
      obtain ⟨queue, hrest, hend⟩ := ih (depth + 1) (by omega) _ hinterrupted
      exact ⟨queue, hrun.trans hrest, hend⟩

/-- The search of a task is where the loop ends. -/
theorem exists_reaches_run (c : Config α) (t : Task α) (j : Journal α) : ∃ last : Loop α,
    last.Reached c t j ∧ (∀ l, ¬last.Turn c t l) ∧ last.search = run c t j := by
  obtain ⟨queue, hrun, hend⟩ := exists_reaches_levels (c := c) (t := t)
    (s := (Loop.start t j).search) t.items.length 0 (Nat.zero_add _) [t.root] rfl
  refine ⟨⟨queue, run c t j⟩, hrun, fun l hturn => ?_, rfl⟩
  cases hturn with
  | interrupted hopen | visited hopen => cases hend hopen

/-! ## Room -/

/-- The number of nodes from a node on down for which there are items left. -/
def Queued.room (t : Task α) (q : Queued) : ℕ := fullTree (t.items.length - q.depth)

/-- The number of nodes for which there is room from the queue on; none once the search is
interrupted. -/
def Loop.room (t : Task α) (l : Loop α) : ℕ :=
  if l.search.interrupted then 0 else (l.queue.map (Queued.room t)).sum

/-- A node that is not the last one of its branch has two children at most. -/
theorem length_visit_le (c : Config α) (t : Task α) (deeper : Bool) (n : Node) (s : Search α) :
    (s.visit c t deeper n).2.length ≤ if deeper then 2 else 0 := by
  refine (visit_spec c t deeper n s).sublist.2.length_le.trans ?_
  unfold Task.children
  split
  · cases deeper <;> exact le_rfl
  · exact Nat.zero_le _

omit [Scalar α] in
/-- Queued nodes of one depth all have the same room. -/
theorem sum_room_queued (t : Task α) (depth : ℕ) (nodes : List Node) :
    ((queued depth nodes).map (Queued.room t)).sum =
      nodes.length * fullTree (t.items.length - depth) := by
  rw [queued, List.map_map, ← List.sum_replicate_nat, ← List.map_const']
  rfl

/-- The room of a node is for the node itself and for the children it leaves. -/
theorem sum_room_children_lt {front : Queued} {s' : Search α} {children : List Node}
    (hvisit : s.visit c t (decide (front.depth < t.items.length)) front.node = (s', children)) :
    ((queued (front.depth + 1) children).map (Queued.room t)).sum < front.room t := by
  have hlength := length_visit_le c t (decide (front.depth < t.items.length)) front.node s
  rw [hvisit] at hlength
  rw [sum_room_queued, Queued.room]
  by_cases hdepth : front.depth < t.items.length
  · rw [decide_eq_true hdepth] at hlength
    have hleft : t.items.length - front.depth = t.items.length - (front.depth + 1) + 1 := by omega
    rw [hleft, fullTree_succ]
    exact Nat.lt_succ_of_le (Nat.mul_le_mul_right _ hlength)
  · rw [decide_eq_false hdepth] at hlength
    rw [Nat.le_zero.1 hlength, Nat.zero_mul]
    exact fullTree_pos _

omit [Scalar α] in
/-- A loop that is not interrupted has the room of its open nodes. -/
theorem Loop.room_eq {l : Loop α} (h : l.search.interrupted = false) :
    l.room t = (l.queue.map (Queued.room t)).sum := by
  rw [room, h]
  rfl

/-- A turn leaves less room. -/
theorem Loop.Turn.room_lt {l l' : Loop α} (h : l.Turn c t l') : l'.room t < l.room t := by
  cases h with
  | @interrupted front rest s hopen hask =>
    rw [room_eq (l := ⟨front :: rest, s⟩) hopen]
    exact Nat.add_pos_left (fullTree_pos _) _
  | @visited front rest s s' children hopen hask hvisit =>
    have hchildren := sum_room_children_lt hvisit
    have hopen' : s'.interrupted = false := (interrupted_of_visit hvisit).trans hopen
    rw [room_eq (l := ⟨front :: rest, s⟩) hopen, room_eq (l := ⟨_, s'⟩) hopen']
    dsimp only
    rw [List.map_append, List.sum_append, List.map_cons, List.sum_cons]
    omega

/-- The room of all places is that of a tree as high as there are items, at most. -/
theorem Loop.Reached.room_le {l : Loop α} (h : l.Reached c t j) :
    l.room t ≤ 2 ^ (t.items.length + 1) - 1 := by
  induction h with
  | refl => exact (room_eq (l := Loop.start t j) rfl).le
  | tail _ hturn ih => exact hturn.room_lt.le.trans ih

/-! ## Depths -/

/-- A queued node decides about all items, and its depth is the number of those that it does not
leave open. -/
structure Queued.Placed (t : Task α) (q : Queued) : Prop where
  length_eq : q.node.decisions.length = t.items.length
  depth_eq : q.depth = q.node.decisions.countP Option.isSome

omit [Scalar α] in
/-- The children of a queued node go one level deeper. -/
theorem Queued.Placed.child {t : Task α} {q : Queued} (h : q.Placed t) {r : ℕ}
    (hr : q.node.decisions[r]? = some none) (b : Branch) :
    Placed t ⟨q.node.child r b, q.depth + 1⟩ := by
  obtain ⟨hlt, hnone⟩ := List.getElem?_eq_some_iff.1 hr
  refine ⟨List.length_set.trans h.length_eq, ?_⟩
  show q.depth + 1 = (q.node.decisions.set r _).countP Option.isSome
  rw [List.countP_set hlt, hnone, h.depth_eq]
  simp

/-- A queued node that splits an item is less deep than there are items. -/
theorem Queued.Placed.depth_lt {q : Queued} (h : q.Placed t) {tolerance : α} {r : Relaxation α}
    (hr : t.relaxed tolerance q.node = some r) {k : ℕ} (hsplit : r.split = some k) :
    q.depth < t.items.length := by
  have hopen : none ∈ q.node.decisions := List.mem_of_getElem? (relax_split hr hsplit).2
  rw [h.depth_eq, ← h.length_eq, List.countP_lt_length_iff]
  exact ⟨none, hopen, rfl⟩

/-- The nodes of a queue that the search comes to are as deep as it says. -/
theorem Loop.Reached.placed {l : Loop α} (h : l.Reached c t j) : ∀ q ∈ l.queue, q.Placed t := by
  induction h with
  | refl =>
    refine List.forall_mem_singleton.2 ⟨List.length_replicate, ?_⟩
    exact (List.countP_eq_zero.2 fun d hd => by simp [List.eq_of_mem_replicate hd]).symm
  | tail _ hturn ih =>
    cases hturn with
    | interrupted => exact ih
    | @visited front rest s s' children hopen hask hvisit =>
      obtain ⟨hfront, hrest⟩ := List.forall_mem_cons.1 ih
      refine List.forall_mem_append.2 ⟨hrest, List.forall_mem_map.2 fun m hm => ?_⟩
      obtain ⟨-, r, b, hr, rfl⟩ := Task.mem_children ((Visited.of_visit hvisit).sublist.2.mem hm)
      exact hfront.child hr b

/-! ## Warnings -/

/-- A visit with a level below for the children that may be left does not call its node too deep. -/
theorem tooDeep_visit (h : ∀ r k, t.relaxed c.tolerance n = some r → r.split = some k →
    deeper = true) : (s.visit c t deeper n).1.journal.tooDeep = s.journal.tooDeep := by
  have hemit : ∀ e : Event α, e.packingTooDeep? = none →
      (c.emit s.journal e).tooDeep = s.journal.tooDeep := by
    intro e he
    rw [Journal.tooDeep_emit, he]
    exact List.append_nil _
  unfold Search.visit
  split
  · exact hemit _ rfl
  · rename_i r hr
    split_ifs with hskip hdeeper
    · exact hemit _ rfl
    · split
      · exact hemit _ rfl
      · rfl
    · split
      · exact hemit _ rfl
      · rename_i k hsplit
        exact absurd (h r k hr hsplit) hdeeper

/-- No node is called too deep. -/
theorem Loop.Reached.tooDeep_eq {l : Loop α} (h : l.Reached c t j) :
    l.search.journal.tooDeep = j.tooDeep := by
  induction h with
  | refl => rfl
  | tail hreached hturn ih =>
    cases hturn with
    | interrupted => exact (Journal.tooDeep_emit _ c _).trans ((List.append_nil _).trans ih)
    | @visited front rest s s' children hopen hask hvisit =>
      have hplaced := Reached.placed hreached front List.mem_cons_self
      have hsame := tooDeep_visit (c := c) (s := s.asked c)
        fun r k hr hsplit => decide_eq_true (hplaced.depth_lt hr hsplit)
      rw [hvisit] at hsame
      exact hsame.trans ih

end Knapsack
end LinOpt
