import LinOpt.Proofs.Integer.Knapsack.Queue
import LinOpt.Proofs.Simplex.Dual.Session

/-!
# The candidates of a packing search

A packing takes the items that its node settled, and open ones besides (`Knapsack.Task.Takes`). So
its items are those of distinct slots, it agrees with every decision of its node
(`Knapsack.Node.Agrees`), and with exact arithmetic its value and weight are sums over its items.

No set of items agrees with two nodes of the queue, because siblings disagree about the item that
their parent split; nor does a packing agree with any node that is still queued. This holds of every
place of the loop (`Knapsack.Loop.Reached.distinct`), and with it no packing is found twice.
-/

namespace LinOpt.Knapsack

variable {α : Type} [Scalar α] {c : Config α} {t : Task α} {deeper : Bool} {j : Journal α}
  {tolerance : α} {n m : Node} {a : Packing α} {s s' : Search α}

/-! ## What a packing takes -/

/-- The packing takes these slots of the node: each once, and of those that the node decided about,
those that it settled. -/
structure Task.Takes (t : Task α) (n : Node) (taken : List (Slot α)) (a : Packing α) : Prop where
  among : ∀ s ∈ taken, s ∈ slots t.items n.decisions
  nodup : (taken.map (·.rank)).Nodup
  decided : ∀ s ∈ slots t.items n.decisions, ∀ b, s.decision = some b →
    (s ∈ taken ↔ b = true)
  packing_eq : a = t.packing n.path (taken.foldl Load.take ⟨[], 0, 0⟩)

/-- A packing that a node gives is what the node takes. -/
theorem Task.exists_takes (h : a ∈ t.packs tolerance n) : ∃ taken, t.Takes n taken a := by
  unfold packs at h
  split at h
  · rename_i bound load hr
    obtain ⟨taken, hslots, hnodup, hdecided, rfl⟩ := relax_taken hr
    exact ⟨taken, hslots, hnodup, hdecided, List.mem_singleton.1 h⟩
  · cases h

/-- Slots are loaded by their ranks. -/
theorem taken_foldl_take (ss : List (Slot α)) (l : Load α) :
    (ss.foldl Load.take l).taken = l.taken ++ ss.map (·.rank) := by
  induction ss generalizing l with
  | nil => exact (List.append_nil _).symm
  | cons s ss ih =>
    rw [List.foldl_cons, ih]
    exact List.append_assoc _ _ _

omit [Scalar α] in
/-- Where no two items have the same index, slots are told apart by the indices of their items. -/
theorem slot_eq {items : List (Item α)} {decisions : List (Option Bool)}
    (hitems : (items.map (·.index)).Nodup) {s s' : Slot α} (hs : s ∈ slots items decisions)
    (hs' : s' ∈ slots items decisions) (heq : s.item.index = s'.item.index) : s = s' := by
  obtain ⟨hitem, -⟩ := mem_slots.1 hs
  obtain ⟨hitem', -⟩ := mem_slots.1 hs'
  have hrank : (items.map (·.index))[s.rank]? = (items.map (·.index))[s'.rank]? := by
    rw [List.getElem?_map, List.getElem?_map, hitem, hitem']
    exact congrArg some heq
  have hlt : s.rank < (items.map (·.index)).length := by
    rw [List.length_map]
    exact (List.getElem?_eq_some_iff.1 hitem).1
  exact List.inj_on_of_nodup_map (nodup_rank_slots items decisions) hs hs'
    ((List.getElem?_inj hlt hitems).1 hrank)

namespace Task.Takes

variable {taken : List (Slot α)}

/-- The items of a packing are those of its slots. -/
theorem items_perm (h : t.Takes n taken a) : a.items.Perm (taken.map (·.item.index)) := by
  rw [h.packing_eq]
  refine (Selection.sortStable_perm _ _).trans (.of_eq ?_)
  rw [taken_foldl_take, List.nil_append, List.filterMap_map]
  rw [← List.filterMap_eq_map]
  exact List.filterMap_congr fun s hs => congrArg (Option.map _) (mem_slots.1 (h.among s hs)).1

/-- Where no two items have the same index, a packing has no item twice. -/
theorem nodup_items (h : t.Takes n taken a) (ht : (t.items.map (·.index)).Nodup) :
    a.items.Nodup :=
  h.items_perm.nodup_iff.2 (List.Nodup.map_on
    (fun s hs s' hs' => slot_eq ht (h.among s hs) (h.among s' hs')) (List.Nodup.of_map _ h.nodup))

/-- The items of a packing are in ascending order. -/
theorem ascending (h : t.Takes n taken a) (ht : (t.items.map (·.index)).Nodup) :
    a.items.Pairwise (· < ·) := by
  have hsorted : a.items.Pairwise (· ≤ ·) := by
    rw [h.packing_eq]
    exact Selection.sortStable_pairwise (R := (· ≤ ·)) (fun _ _ _ => Nat.le_trans)
      (fun i k hik => Nat.le_of_lt (of_decide_eq_true hik))
      (fun i k hik => Nat.le_of_not_lt (of_decide_eq_false hik)) _
  exact (hsorted.and (h.nodup_items ht)).imp fun h => Nat.lt_of_le_of_ne h.1 h.2

end Task.Takes

/-! ## Which node a packing belongs to -/

/-- The items agree with what the node decided about them. -/
def Node.Agrees (t : Task α) (n : Node) (items : List ℕ) : Prop :=
  ∀ (r : ℕ) (b : Bool) (i : Item α), n.decisions[r]? = some (some b) → t.items[r]? = some i →
    (i.index ∈ items ↔ b = true)

omit [Scalar α] in
/-- Agreement is about which items there are. -/
theorem Node.Agrees.congr {items items' : List ℕ} (h : n.Agrees t items)
    (heq : ∀ i, i ∈ items' ↔ i ∈ items) : n.Agrees t items' :=
  fun r b i hr hi => (heq _).trans (h r b i hr hi)

/-- What agrees with a child agrees with its parent. -/
theorem Node.Agrees.of_child {items : List ℕ} (hm : m ∈ t.children tolerance n deeper)
    (h : m.Agrees t items) : n.Agrees t items := by
  obtain ⟨-, r, b, hr, rfl⟩ := Task.mem_children hm
  refine fun r' b' i hr' hi => h r' b' i ?_ hi
  show (n.decisions.set r _)[r']? = _
  rw [List.getElem?_set_ne, hr']
  rintro rfl
  cases hr.symm.trans hr'

/-- The packing of a node agrees with it. -/
theorem Task.Takes.agrees {taken : List (Slot α)} (h : t.Takes n taken a)
    (ht : (t.items.map (·.index)).Nodup) : n.Agrees t a.items := by
  intro r b i hr hi
  have hslot : (⟨r, i, some b⟩ : Slot α) ∈ slots t.items n.decisions := mem_slots.2 ⟨hi, hr⟩
  rw [h.items_perm.mem_iff, ← h.decided _ hslot b rfl, List.mem_map]
  constructor
  · rintro ⟨s, hs, heq⟩
    rwa [← slot_eq ht (h.among s hs) hslot heq]
  · exact fun hs => ⟨_, hs, rfl⟩

/-- Nothing agrees with both nodes. -/
def Node.Apart (t : Task α) (n m : Node) : Prop :=
  ∀ items, n.Agrees t items → ¬m.Agrees t items

/-- The children of a node disagree about the item that it splits. -/
theorem Task.children_pairwise (t : Task α) (tolerance : α) (n : Node) (deeper : Bool) :
    (t.children tolerance n deeper).Pairwise (Node.Apart t) := by
  unfold children
  split
  · rename_i k hr
    obtain ⟨hk, hopen⟩ := relax_split hr rfl
    have hlt : k < n.decisions.length := (List.getElem?_eq_some_iff.1 hopen).1
    have hdecision : ∀ b, (n.child k b).decisions[k]? = some (some (decide (b = .second))) :=
      fun b => List.getElem?_set_self hlt
    cases deeper with
    | false => exact .nil
    | true =>
      refine List.pairwise_pair.2 fun items hfirst hsecond => ?_
      have hitem := List.getElem?_eq_getElem hk
      have hout := hfirst k _ _ (hdecision .first) hitem
      have hin := hsecond k _ _ (hdecision .second) hitem
      exact absurd (hout.1 (hin.2 rfl)) (by decide)
  · exact .nil

/-- A node comes to one packing at most. -/
theorem Task.packs_pairwise (t : Task α) (tolerance : α) (n : Node)
    (R : Packing α → Packing α → Prop) : (t.packs tolerance n).Pairwise R := by
  unfold packs
  split
  · exact List.pairwise_singleton _ _
  · exact .nil

/-- A node that comes to a packing leaves no children. -/
theorem Task.children_eq_nil (h : a ∈ t.packs tolerance n) :
    t.children tolerance n deeper = [] := by
  unfold packs at h
  split at h
  · rename_i bound load hr
    rw [children, hr]
  · cases h

/-! ## The loop -/

/-- Nothing agrees with two nodes of the queue, no packing found agrees with any of them, and no two
packings have the same items. -/
structure Loop.Distinct (t : Task α) (l : Loop α) : Prop where
  queue : l.queue.Pairwise fun q q' => q.node.Apart t q'.node
  found : ∀ a ∈ l.search.found, ∀ q ∈ l.queue, ¬q.node.Agrees t a.items
  items : l.search.found.Pairwise fun a b => ¬∀ i, i ∈ a.items ↔ i ∈ b.items

/-- A visit of the node at the front keeps everything distinct. -/
theorem Loop.Distinct.visit (ht : (t.items.map (·.index)).Nodup) {front : Queued}
    {rest : List Queued} {children : List Node} (h : Distinct t ⟨front :: rest, s⟩)
    (hvisited : Visited c t deeper front.node s s' children) :
    Distinct t ⟨rest ++ queued (front.depth + 1) children, s'⟩ := by
  obtain ⟨⟨ks, hfound, hks⟩, hchildren⟩ := hvisited.sublist
  obtain ⟨hfront, hrest⟩ := List.pairwise_cons.1 h.queue
  have hparent : ∀ q ∈ queued (front.depth + 1) children, ∀ items, q.node.Agrees t items →
      front.node.Agrees t items := by
    intro q hq items hagrees
    obtain ⟨m, hm, rfl⟩ := List.mem_map.1 hq
    exact hagrees.of_child (hchildren.mem hm)
  have hagrees : ∀ a ∈ ks, front.node.Agrees t a.items := by
    intro a ha
    obtain ⟨taken, htaken⟩ := Task.exists_takes (hks.mem ha)
    exact htaken.agrees ht
  refine ⟨?_, ?_, ?_⟩
  · refine List.pairwise_append.2 ⟨hrest, ?_, fun q hq q' hq' items hagrees hagrees' => ?_⟩
    · exact List.pairwise_map.2 ((t.children_pairwise _ _ _).sublist hchildren)
    · exact hfront q hq items (hparent q' hq' items hagrees') hagrees
  · rw [hfound]
    intro a ha q hq hsame
    rcases List.mem_append.1 ha with ha | ha
    · rcases List.mem_append.1 hq with hq | hq
      · exact h.found a ha q (List.mem_cons_of_mem _ hq) hsame
      · exact h.found a ha front List.mem_cons_self (hparent q hq _ hsame)
    · rcases List.mem_append.1 hq with hq | hq
      · exact hfront q hq _ (hagrees a ha) hsame
      · -- a node does not both pack and branch
        rw [Task.children_eq_nil (hks.mem ha), List.sublist_nil] at hchildren
        rw [hchildren] at hq
        cases hq
  · rw [hfound]
    refine List.pairwise_append.2 ⟨h.items, (Task.packs_pairwise _ _ _ _).sublist hks,
      fun a ha b hb heq => ?_⟩
    exact h.found a ha front List.mem_cons_self ((hagrees b hb).congr heq)

/-- Where no two items have the same index, no place of the loop has a packing or a choice twice. -/
theorem Loop.Reached.distinct (ht : (t.items.map (·.index)).Nodup) {l : Loop α}
    (h : l.Reached c t j) : l.Distinct t := by
  induction h with
  | refl => exact ⟨List.pairwise_singleton _ _, List.forall_mem_nil _, .nil⟩
  | tail _ hturn ih =>
    cases hturn with
    | interrupted => exact ⟨ih.queue, ih.found, ih.items⟩
    | visited hopen hask hvisit =>
      exact Distinct.visit ht (s := Search.asked _ c) ⟨ih.queue, ih.found, ih.items⟩
        (Visited.of_visit hvisit)

/-- Every packing found is one that a node comes to. -/
theorem Loop.Reached.exists_packs {l : Loop α} (h : l.Reached c t j) :
    ∀ a ∈ l.search.found, ∃ n, a ∈ t.packs c.tolerance n := by
  induction h with
  | refl => exact List.forall_mem_nil _
  | tail _ hturn ih =>
    cases hturn with
    | interrupted => exact ih
    | @visited front rest s s' children hopen hask hvisit =>
      obtain ⟨⟨ks, hfound, hks⟩, -⟩ := (Visited.of_visit hvisit).sublist
      dsimp only
      rw [hfound]
      exact List.forall_mem_append.2 ⟨ih, fun a ha => ⟨front.node, hks.mem ha⟩⟩

/-- Where no two items have the same index, every packing found has indices of items in ascending
order. -/
theorem Loop.Reached.ascending (ht : (t.items.map (·.index)).Nodup) {l : Loop α}
    (h : l.Reached c t j) : ∀ a ∈ l.search.found,
      a.items.Pairwise (· < ·) ∧ ∀ i ∈ a.items, i ∈ t.items.map (·.index) := by
  intro a ha
  obtain ⟨n, hpacks⟩ := h.exists_packs a ha
  obtain ⟨taken, htaken⟩ := Task.exists_takes hpacks
  refine ⟨htaken.ascending ht, fun i hi => ?_⟩
  obtain ⟨s, hs, rfl⟩ := List.mem_map.1 (htaken.items_perm.mem_iff.1 hi)
  exact List.mem_map_of_mem (List.mem_of_getElem? (mem_slots.1 (htaken.among s hs)).1)

/-! ## Amounts -/

/-- A packing has the value and the weight of its slots. -/
theorem Task.Takes.amounts {t : Task ℚ} {taken : List (Slot ℚ)} {a : Packing ℚ}
    (h : t.Takes n taken a) : a.value = (taken.map (·.item.value)).sum ∧
      a.weight = (taken.map (·.item.weight)).sum := by
  rw [h.packing_eq, foldl_take]
  exact ⟨zero_add _, zero_add _⟩

/-- A packing exceeds the capacity by the tolerance at most. -/
theorem Task.weight_le {t : Task ℚ} {tolerance : ℚ} {a : Packing ℚ} (h : a ∈ t.packs tolerance n) :
    a.weight ≤ t.capacity + tolerance := by
  unfold packs at h
  split at h
  · rename_i load hr
    rw [List.mem_singleton.1 h]
    exact relax_weight hr
  · cases h

/-- Amounts of slots that are those of variables sum up to what the items of the packing do. -/
theorem Task.Takes.sum_eq {t : Task ℚ} {taken : List (Slot ℚ)} {a : Packing ℚ}
    (h : t.Takes n taken a) {amount : Item ℚ → ℚ} {as : List ℚ}
    (hamount : ∀ i ∈ t.items, amount i = as.getD i.index 0) :
    (taken.map fun s => amount s.item).sum = (a.items.map fun i => as.getD i 0).sum := by
  rw [(h.items_perm.map _).sum_eq, List.map_map]
  refine congrArg List.sum (List.map_congr_left fun s hs => ?_)
  exact hamount _ (List.mem_of_getElem? (mem_slots.1 (h.among s hs)).1)

/-! ## Answers -/

/-- An answer does not call nodes too deep. -/
theorem tooDeep_conclude (c : Config α) (p : Problem α) (t : Task α) (s : Search α) :
    (conclude c p t s).2.tooDeep = s.journal.tooDeep := by
  unfold conclude
  split
  · rfl
  · exact (Journal.tooDeep_emit _ c _).trans (List.append_nil _)

/-- What holds of the search for the best packing, whether it is interrupted or not and whether it
skips nodes or not. In any arithmetic, its loop takes no more turns than a binary tree has nodes
that is as high as there are items, and from wherever it stands it goes on to the place from which
the answer is concluded. The depth of a queued node is the number of items that it decides about, so
none that splits an item lies too deep, and no warning of that is given. Every candidate has indices
of variables in ascending order, and no two candidates have the same ones. With exact arithmetic,
the value and the weight of a candidate are the sums over its items, and the weight exceeds the
capacity by the tolerance at most. -/
theorem solve_candidates :
    (∀ {α : Type} [Scalar α] (c : Config α) (prune : Bool) (p : Problem α) (k : Constraint α)
      (j : Journal α), p.Indexed → IsKnapsack p k →
      let t : Task α := ⟨ranking p k, k.rhs, prune⟩
      (∀ (n : ℕ) (run : ℕ → Loop α), (run 0).Reached c t j →
          (∀ i < n, (run i).Turn c t (run (i + 1))) → n ≤ 2 ^ (t.items.length + 1) - 1) ∧
        (∀ l : Loop α, l.Reached c t j →
          (∀ q ∈ l.queue, q.depth = q.node.decisions.countP Option.isSome ∧
            ∀ r i, t.relaxed c.tolerance q.node = some r → r.split = some i →
              q.depth < t.items.length) ∧
          ∃ last : Loop α, Relation.ReflTransGen (Loop.Turn c t) l last ∧
            (∀ l', ¬last.Turn c t l') ∧
            (solve c prune p j).result = .ok (conclude c p t last.search).1 ∧
            (solve c prune p j).state = last.search.candidates) ∧
        (solve c prune p j).journal.tooDeep = j.tooDeep ∧
        (∀ a ∈ (solve c prune p j).state,
          a.items.Pairwise (· < ·) ∧ ∀ i ∈ a.items, i < p.numVariables) ∧
        (solve c prune p j).state.Pairwise fun a b => a.items.toFinset ≠ b.items.toFinset) ∧
    ∀ (c : Config ℚ) (prune : Bool) (p : Problem ℚ) (k : Constraint ℚ) (j : Journal ℚ),
      p.Indexed → IsKnapsack p k → ∀ a ∈ (solve c prune p j).state,
        a.value = (a.items.map fun i => p.objective.getD i 0).sum ∧
        a.weight = (a.items.map fun i => k.coefficients.getD i 0).sum ∧
        a.weight ≤ k.rhs + c.tolerance := by
  constructor
  · intro α _ c prune p k j hp hk t
    have hperm := map_index_ranking_perm hp k
    have hnodup : (t.items.map (·.index)).Nodup := hperm.nodup_iff.2 List.nodup_range
    obtain ⟨last, hlast, hend, hrun⟩ := exists_reaches_run c t j
    obtain ⟨hresult, hstate⟩ := solve_of_isKnapsack hk c prune j
    rw [← hrun] at hresult hstate
    refine ⟨fun n run hstart hturns => ?_, fun l hl => ⟨fun q hq => ?_, ?_⟩, ?_, ?_, ?_⟩
    · exact (length_le_of_potential (fun _ _ h => h.room_lt) hturns).trans hstart.room_le
    · exact ⟨(hl.placed q hq).depth_eq, fun r i hr hi => (hl.placed q hq).depth_lt hr hi⟩
    · exact ⟨last, reaches_end Loop.Turn.rightUnique hl hlast hend, hend, hresult, hstate⟩
    · rw [journal_solve hk, tooDeep_conclude, ← hrun]
      exact hlast.tooDeep_eq
    · rw [hstate]
      intro a ha
      obtain ⟨hascending, hitems⟩ := hlast.ascending hnodup _ (List.mem_map_of_mem ha)
      refine ⟨hascending, fun i hi => ?_⟩
      have hmin := List.mem_range.1 (hperm.mem_iff.1 (hitems i hi))
      exact hmin.trans_le (Nat.min_le_left _ _)
    · rw [hstate]
      refine (List.pairwise_map.1 (hlast.distinct hnodup).items).imp fun h heq => h fun i => ?_
      rw [← List.mem_toFinset, ← List.mem_toFinset]
      exact iff_of_eq (congrArg (i ∈ ·) heq)
  · intro c prune p k j hp hk a ha
    obtain ⟨-, hstate⟩ := solve_of_isKnapsack hk c prune j
    obtain ⟨last, hlast, -, hrun⟩ := exists_reaches_run c ⟨ranking p k, k.rhs, prune⟩ j
    rw [hstate, ← hrun] at ha
    obtain ⟨n, hpacks⟩ := hlast.exists_packs _ (List.mem_map_of_mem ha)
    obtain ⟨taken, htaken⟩ := Task.exists_takes hpacks
    obtain ⟨hvalue, hweight⟩ := htaken.amounts
    refine ⟨hvalue.trans ?_, hweight.trans ?_, Task.weight_le hpacks⟩
    · exact htaken.sum_eq fun i hi => (mem_ranking hp hi).1
    · exact htaken.sum_eq fun i hi => (mem_ranking hp hi).2

/-- At tolerance one half a second packing is found that exceeds the capacity by just that. -/
theorem solve_candidates_tolerated :
    let k : Constraint ℚ := ⟨[3, 2, 4], .le, 13 / 2⟩
    let p : Problem ℚ := { Problem.ofObjective .maximize [6, 3, 5] with constraints := [k] }
    let c : Config ℚ := { Config.exact with tolerance := 1 / 2 }
    let found := (solve c true p {}).state
    found.map (fun a => (a.items, a.value, a.weight)) = [([0, 1], 9, 5), ([0, 2], 11, 7)] ∧
      (∀ a ∈ found, (a.items.Pairwise (· < ·) ∧ ∀ i ∈ a.items, i < 3) ∧
        a.value = (a.items.map fun i => [6, 3, 5].getD i 0).sum ∧
        a.weight = (a.items.map fun i => [3, 2, 4].getD i 0).sum ∧ a.weight ≤ 13 / 2 + 1 / 2) ∧
      found.Pairwise (fun a b => a.items.toFinset ≠ b.items.toFinset) ∧
      (solve c true p {}).journal.tooDeep = [] ∧
      ∃ last : Loop ℚ, last.Reached c ⟨ranking p k, 13 / 2, true⟩ {} ∧
        (∀ l', ¬last.Turn c ⟨ranking p k, 13 / 2, true⟩ l') ∧ found = last.search.candidates := by
  intro k p c found
  have hp : p.Indexed := Problem.Indexed.ofObjective .maximize [6, 3, 5]
  have hk : IsKnapsack p k := ⟨rfl, rfl, rfl, by decide +kernel⟩
  obtain ⟨hgeneral, hexact⟩ := solve_candidates
  obtain ⟨-, hends, hdeep, hitems, hdistinct⟩ := hgeneral c true p k {} hp hk
  obtain ⟨-, last, hlast, hend, -, hstate⟩ := hends _ .refl
  exact ⟨by decide +kernel, fun a ha => ⟨hitems a ha, hexact c true p k {} hp hk a ha⟩, hdistinct,
    hdeep, last, hlast, hend, hstate⟩

end LinOpt.Knapsack
