import Mathlib.Data.List.Basic
import Mathlib.Data.List.Flatten
import LinOpt.Proofs.Integer.Knapsack.Relaxation
import LinOpt.Proofs.Problem.Feasible
import LinOpt.Proofs.Simplex.Pivots

/-!
# Visits of a packing search

What a node has to offer depends on the node alone: the packing it comes to, if it splits no item
(`Knapsack.Task.packs`), and its children otherwise (`Knapsack.Task.children`). A visit either takes
all of it or skips the node because its bound cannot beat the best packing so far
(`Knapsack.visit_spec`). So what holds of the open nodes and the packings found is carried through a
level (`Knapsack.level_spec`) and through all levels (`Knapsack.levels_spec`) by a single visit, as
long as the search is not interrupted. An interrupt leaves a message
(`Knapsack.says_levels`).
-/

namespace LinOpt.Knapsack

variable {α : Type}

/-- A packing that a search comes to, whenever it does. -/
structure Packing (α : Type) where
  path : BranchPath
  value : α
  weight : α
  items : List ℕ

/-- A candidate without its number. -/
def Candidate.packing (k : Candidate α) : Packing α := ⟨k.path, k.value, k.weight, k.items⟩

variable [Scalar α]

/-- The better of two packings, the earlier one if the later one does not exceed its value. -/
def Packing.better (tolerance : α) (earlier : Option (Packing α)) (later : Packing α) :
    Option (Packing α) :=
  match earlier with
  | none => some later
  | some k => if later.value > k.value + tolerance then some later else some k

/-- What was found so far. -/
def Search.found (s : Search α) : List (Packing α) := s.candidates.map Candidate.packing

/-- The best that was found so far. -/
def Search.leader (s : Search α) : Option (Packing α) := s.best.map Candidate.packing

namespace Task

variable (t : Task α) (tolerance : α) (n : Node)

/-- A load as a packing. -/
def packing (path : BranchPath) (load : Load α) : Packing α where
  path
  value := load.value
  weight := load.weight
  items := Selection.sortStable (fun i k => decide (i < k))
    (load.taken.filterMap fun k => (t.items[k]?).map (·.index))

/-- The relaxation of a node. -/
def relaxed : Option (Relaxation α) := relax tolerance t.items t.capacity n.decisions

/-- The packing that a node comes to, if there is one. -/
def packs : List (Packing α) :=
  match t.relaxed tolerance n with
  | some ⟨_, load, none⟩ => [t.packing n.path load]
  | _ => []

/-- The children of a node. -/
def children (deeper : Bool) : List Node :=
  match t.relaxed tolerance n with
  | some ⟨_, _, some k⟩ => if deeper then [n.child k .first, n.child k .second] else []
  | _ => []

/-- The children of a node settle an item that the node left open. -/
theorem mem_children {t : Task α} {tolerance : α} {n m : Node} {deeper : Bool}
    (h : m ∈ t.children tolerance n deeper) :
    deeper = true ∧ ∃ r b, n.decisions[r]? = some none ∧ m = n.child r b := by
  unfold children at h
  split at h
  · rename_i k hr
    have hnone := (relax_split hr rfl).2
    cases deeper with
    | false => cases h
    | true =>
      refine ⟨rfl, k, ?_⟩
      rcases List.mem_cons.1 h with rfl | h
      · exact ⟨.first, hnone, rfl⟩
      · exact ⟨.second, hnone, List.mem_singleton.1 h⟩
  · cases h

end Task

/-! ## A visit -/

variable {c : Config α} {t : Task α} {deeper : Bool}

/-- How a visit to a node changes what was found, and the children it leaves: it takes all that the
node has to offer, or skips the node. -/
inductive Visited (c : Config α) (t : Task α) (deeper : Bool) (n : Node) (s s' : Search α) :
    List Node → Prop
  | full (found : s'.found = s.found ++ t.packs c.tolerance n)
      (leader : s'.leader = (t.packs c.tolerance n).foldl (Packing.better c.tolerance) s.leader) :
      Visited c t deeper n s s' (t.children c.tolerance n deeper)
  | skipped (prune : t.prune = true) (r : Relaxation α) (relaxed : t.relaxed c.tolerance n = some r)
      (k : Packing α) (best : s.leader = some k) (low : r.bound ≤ k.value + c.tolerance)
      (found : s'.found = s.found) (leader : s'.leader = s.leader) : Visited c t deeper n s s' []

namespace Search

/-- Taking a packing adds it and leaves the better one in the lead. -/
theorem found_take (s : Search α) (path : BranchPath) (load : Load α) :
    (s.take c t path load).found = s.found ++ [t.packing path load] := by
  rw [found, found, take, List.map_append]
  rfl

/-- After a packing was taken the better one leads. -/
theorem leader_take (s : Search α) (path : BranchPath) (load : Load α) :
    (s.take c t path load).leader =
      Packing.better c.tolerance s.leader (t.packing path load) := by
  obtain ⟨solution, candidates, best, interrupted, journal⟩ := s
  cases best with
  | none => rfl
  | some b =>
    refine (apply_ite (Option.map Candidate.packing) _ _ _).trans ?_
    exact if_congr decide_eq_true_iff rfl rfl

/-- A bound that cannot beat the best packing does not exceed its value. -/
theorem cannotBeat_iff (s : Search α) (c : Config α) (bound : α) : s.cannotBeat c bound = true ↔
    ∃ k, s.leader = some k ∧ bound ≤ k.value + c.tolerance := by
  unfold cannotBeat leader
  cases s.best with
  | none => simp
  | some b => simp [Candidate.packing]

end Search

/-- A node that comes to no packing can only leave children. -/
theorem Visited.of_packs_eq_nil {n : Node} {s s' : Search α} {children : List Node}
    (hpacks : t.packs c.tolerance n = []) (hchildren : t.children c.tolerance n deeper = children)
    (hfound : s'.found = s.found) (hleader : s'.leader = s.leader) :
    Visited c t deeper n s s' children := by
  subst hchildren
  refine .full ?_ ?_
  · rw [hpacks, List.append_nil, hfound]
  · rw [hpacks, hleader]
    rfl

/-- A visit takes all that a node has to offer, or skips the node. -/
theorem visit_spec (c : Config α) (t : Task α) (deeper : Bool) (n : Node) (s : Search α) :
    Visited c t deeper n s (s.visit c t deeper n).1 (s.visit c t deeper n).2 := by
  unfold Search.visit
  cases hr : relax c.tolerance t.items t.capacity n.decisions with
  | none =>
    exact .of_packs_eq_nil (by simp [Task.packs, Task.relaxed, hr])
      (by simp [Task.children, Task.relaxed, hr]) rfl rfl
  | some r =>
    obtain ⟨bound, load, split⟩ := r
    dsimp only
    by_cases hskip : (t.prune && s.cannotBeat c bound) = true
    · rw [if_pos hskip]
      obtain ⟨hprune, hlow⟩ := Bool.and_eq_true_iff.1 hskip
      obtain ⟨k, hbest, hlow⟩ := (s.cannotBeat_iff c bound).1 hlow
      exact .skipped hprune _ hr k hbest hlow rfl rfl
    · rw [if_neg hskip]
      cases split with
      | none =>
        have hpacks : t.packs c.tolerance n = [t.packing n.path load] := by
          simp [Task.packs, Task.relaxed, hr]
        have hchildren : t.children c.tolerance n deeper = [] := by
          simp [Task.children, Task.relaxed, hr]
        refine hchildren ▸ .full ?_ ?_
        · rw [hpacks, s.found_take]
        · rw [hpacks, s.leader_take]
          rfl
      | some k =>
        have hpacks : t.packs c.tolerance n = [] := by simp [Task.packs, Task.relaxed, hr]
        have hchildren : t.children c.tolerance n deeper =
            if deeper then [n.child k .first, n.child k .second] else [] := by
          simp [Task.children, Task.relaxed, hr]
        cases deeper with
        | true => exact .of_packs_eq_nil hpacks hchildren rfl rfl
        | false => exact .of_packs_eq_nil hpacks hchildren rfl rfl

/-- A visit takes what the node has to offer or nothing. -/
theorem Visited.sublist {n : Node} {s s' : Search α} {children : List Node}
    (h : Visited c t deeper n s s' children) :
    (∃ ks, s'.found = s.found ++ ks ∧ ks.Sublist (t.packs c.tolerance n)) ∧
      children.Sublist (t.children c.tolerance n deeper) := by
  cases h with
  | full hfound => exact ⟨⟨_, hfound, .refl _⟩, .refl _⟩
  | skipped _ _ _ _ _ _ hfound =>
    exact ⟨⟨[], hfound.trans (List.append_nil _).symm, List.nil_sublist _⟩, List.nil_sublist _⟩

/-- A visit neither interrupts the search nor leaves a message or a value. -/
theorem visit_frame (c : Config α) (t : Task α) (deeper : Bool) (n : Node) (s : Search α) :
    (s.visit c t deeper n).1.interrupted = s.interrupted ∧
      (s.visit c t deeper n).1.solution.messages = s.solution.messages ∧
      (s.visit c t deeper n).1.solution.values = s.solution.values := by
  have hrecord : ∀ (label : StepLabel α) (content : StepContent α) (sol : Solution α),
      (c.record label content sol).messages = sol.messages := by
    intro label content sol
    unfold Config.record
    split_ifs <;> rfl
  unfold Search.visit
  split
  · exact ⟨rfl, hrecord _ _ _, c.values_record _ _ _⟩
  · dsimp only
    split_ifs
    · exact ⟨rfl, hrecord _ _ _, c.values_record _ _ _⟩
    · split
      · exact ⟨rfl, hrecord _ _ _, c.values_record _ _ _⟩
      · exact ⟨rfl, hrecord _ _ _, c.values_record _ _ _⟩
    · split
      · exact ⟨rfl, hrecord _ _ _, c.values_record _ _ _⟩
      · exact ⟨rfl, rfl, rfl⟩

/-! ## Levels -/

open Search (level levels)

/-- The search after the question whether to stop. -/
def Search.asked (s : Search α) (c : Config α) : Search α :=
  { s with journal := (c.ask s.journal).2 }

/-- The search once it is stopped with so many nodes open. -/
def Search.interrupt (s : Search α) (c : Config α) (openNodes : ℕ) : Search α :=
  { s with
    journal := c.emit s.journal (.packingInterrupted openNodes)
    solution := s.solution.log .interrupted
    interrupted := true }

/-- A level asks for the interrupt at every node before dealing with it. -/
theorem level_cons (n : Node) (rest next : List Node) (s : Search α) :
    level c t deeper (n :: rest) next s =
      if (c.ask s.journal).1 then
        ((s.asked c).interrupt c (rest.length + next.length + 1), [])
      else
        let visit := (s.asked c).visit c t deeper n
        level c t deeper rest (next ++ visit.2) visit.1 := by
  rw [level]
  rfl

/-- A level that is not interrupted visits its first node. -/
theorem level_cons_of_open {n : Node} {rest next : List Node} {s : Search α}
    (h : (level c t deeper (n :: rest) next s).1.interrupted = false) :
    level c t deeper (n :: rest) next s = level c t deeper rest
      (next ++ ((s.asked c).visit c t deeper n).2) ((s.asked c).visit c t deeper n).1 := by
  rw [level_cons] at h ⊢
  split_ifs at h ⊢
  · cases h
  · rfl

/-- A level takes a part of what its nodes have to offer, in order, and leaves some of their
children. -/
theorem level_sublist (c : Config α) (t : Task α) (deeper : Bool) (nodes next : List Node)
    (s : Search α) :
    (∃ ks, (level c t deeper nodes next s).1.found = s.found ++ ks ∧
        ks.Sublist (nodes.flatMap (t.packs c.tolerance))) ∧
      (level c t deeper nodes next s).2.Sublist
        (next ++ nodes.flatMap (t.children c.tolerance · deeper)) := by
  induction nodes generalizing next s with
  | nil => exact ⟨⟨[], (List.append_nil _).symm, .refl _⟩, List.sublist_append_left _ _⟩
  | cons n rest ih =>
    rw [level_cons]
    split_ifs
    · exact ⟨⟨[], (List.append_nil _).symm, List.nil_sublist _⟩, List.nil_sublist _⟩
    · obtain ⟨⟨ks, hfound, hks⟩, hchildren⟩ :=
        (visit_spec c t deeper n (s.asked c)).sublist
      obtain ⟨⟨ks', hfound', hks'⟩, hnext⟩ := ih _ _
      refine ⟨⟨ks ++ ks', ?_, ?_⟩, hnext.trans ?_⟩
      · exact hfound'.trans ((congrArg (· ++ ks') hfound).trans (List.append_assoc _ _ _))
      · exact hks.append hks'
      · rw [List.flatMap_cons, List.append_assoc]
        exact (List.Sublist.refl next).append (hchildren.append (.refl _))

/-- A level that ends uninterrupted was begun so. -/
theorem interrupted_level {nodes next : List Node} {s : Search α}
    (h : (level c t deeper nodes next s).1.interrupted = false) : s.interrupted = false := by
  induction nodes generalizing next s with
  | nil => exact h
  | cons n rest ih =>
    have hvisit := ih (level_cons_of_open h ▸ h)
    rwa [(visit_frame c t deeper n _).1] at hvisit

/-- Levels that are not interrupted began without an interrupt. -/
theorem interrupted_levels {left : ℕ} {nodes : List Node} {s : Search α}
    (h : (levels c t left nodes s).interrupted = false) : s.interrupted = false := by
  induction left generalizing nodes s with
  | zero => exact interrupted_level h
  | succ left ih => exact interrupted_level (ih h)

/-- What every visit of a level carries on, holds at its end: `I` of the open nodes and the search,
`P` of the nodes of the level and `Q` of those of the next. -/
theorem level_spec {I : List Node → Search α → Prop} {P Q : Node → Prop}
    (hjournal : ∀ nodes s j, I nodes s → I nodes { s with journal := j })
    (hvisit : ∀ n rest s s' children, P n → I (n :: rest) s →
      Visited c t deeper n s s' children → I (rest ++ children) s' ∧ ∀ m ∈ children, Q m)
    {nodes next : List Node} {s : Search α} (hnodes : ∀ n ∈ nodes, P n) (hnext : ∀ n ∈ next, Q n)
    (h : I (nodes ++ next) s) (hend : (level c t deeper nodes next s).1.interrupted = false) :
    I (level c t deeper nodes next s).2 (level c t deeper nodes next s).1 ∧
      ∀ n ∈ (level c t deeper nodes next s).2, Q n := by
  induction nodes generalizing next s with
  | nil => exact ⟨h, hnext⟩
  | cons n rest ih =>
    obtain ⟨hn, hrest⟩ := List.forall_mem_cons.1 hnodes
    have hstep := level_cons_of_open hend
    rw [hstep] at hend ⊢
    obtain ⟨hvisited, hchildren⟩ :=
      hvisit n _ _ _ _ hn (hjournal _ s (c.ask s.journal).2 h) (visit_spec c t deeper n _)
    refine ih hrest (List.forall_mem_append.2 ⟨hnext, hchildren⟩) ?_ hend
    rw [← List.append_assoc]
    exact hvisited

/-- What every visit carries on, holds of no open nodes at the end of a search that is not
interrupted: `I` of the open nodes and the search, `P left` of the nodes below which `left` more
items may be fixed. -/
theorem levels_spec {I : List Node → Search α → Prop} {P : ℕ → Node → Prop}
    (hjournal : ∀ nodes s j, I nodes s → I nodes { s with journal := j })
    (hvisit : ∀ left n rest s s' children, P left n → I (n :: rest) s →
      Visited c t (decide (0 < left)) n s s' children →
      I (rest ++ children) s' ∧ ∀ m ∈ children, 0 < left ∧ P (left - 1) m)
    {left : ℕ} {nodes : List Node} {s : Search α} (hnodes : ∀ n ∈ nodes, P left n)
    (h : I nodes s) (hend : (levels c t left nodes s).interrupted = false) :
    I [] (levels c t left nodes s) := by
  induction left generalizing nodes s with
  | zero =>
    obtain ⟨hI, hlast⟩ := level_spec (Q := fun m => 0 < 0 ∧ P (0 - 1) m) hjournal
      (hvisit 0) hnodes (List.forall_mem_nil _) (by rwa [List.append_nil]) hend
    have hnil : (level c t false nodes [] s).2 = [] :=
      List.eq_nil_iff_forall_not_mem.2 fun m hm => Nat.lt_irrefl 0 (hlast m hm).1
    rw [← hnil]
    exact hI
  | succ left ih =>
    obtain ⟨hI, hnext⟩ := level_spec (Q := fun m => 0 < left + 1 ∧ P (left + 1 - 1) m) hjournal
      (hvisit (left + 1)) hnodes (List.forall_mem_nil _) (by rwa [List.append_nil])
      (interrupted_levels hend)
    exact ih (fun n hn => (hnext n hn).2) hI hend

/-! ## Interrupts -/

/-- A search says that it was interrupted, and only then. -/
def Search.Says (s : Search α) : Prop :=
  .interrupted ∈ s.solution.messages ↔ s.interrupted = true

/-- A search goes on saying whether it was interrupted through a level. -/
theorem says_level {nodes next : List Node} {s : Search α} (h : s.Says) :
    (level c t deeper nodes next s).1.Says := by
  induction nodes generalizing next s with
  | nil => exact h
  | cons n rest ih =>
    rw [level_cons]
    split_ifs
    · exact iff_of_true (List.mem_append_right _ (List.mem_singleton.2 rfl)) rfl
    · refine ih ?_
      obtain ⟨hinterrupted, hmessages, -⟩ :=
        visit_frame c t deeper n (s.asked c)
      rw [Search.Says, hinterrupted, hmessages]
      exact h

/-- So it does through all levels. -/
theorem says_levels {left : ℕ} {nodes : List Node} {s : Search α} (h : s.Says) :
    (levels c t left nodes s).Says := by
  induction left generalizing nodes s with
  | zero => exact says_level h
  | succ left ih => exact ih (says_level h)

/-- A search gives no values. -/
theorem values_levels {left : ℕ} {nodes : List Node} {s : Search α} :
    (levels c t left nodes s).solution.values = s.solution.values := by
  have hlevel : ∀ (deeper : Bool) (nodes next : List Node) (s : Search α),
      (level c t deeper nodes next s).1.solution.values = s.solution.values := by
    intro deeper nodes
    induction nodes with
    | nil => exact fun next s => rfl
    | cons n rest ih =>
      intro next s
      rw [level_cons]
      split_ifs
      · rfl
      · exact (ih _ _).trans (visit_frame c t deeper n _).2.2
  induction left generalizing nodes s with
  | zero => exact hlevel _ _ _ _
  | succ left ih => exact ih.trans (hlevel _ _ _ _)

/-- A signal that never stops a run interrupts no search. -/
theorem not_interrupted_levels (hc : c.Uninterrupted) {left : ℕ} {nodes : List Node}
    {s : Search α} (h : s.interrupted = false) : (levels c t left nodes s).interrupted = false := by
  have hlevel : ∀ (deeper : Bool) (nodes next : List Node) (s : Search α), s.interrupted = false →
      (level c t deeper nodes next s).1.interrupted = false := by
    intro deeper nodes
    induction nodes with
    | nil => exact fun next s h => h
    | cons n rest ih =>
      intro next s h
      rw [level_cons, hc.ask]
      exact ih _ _ ((visit_frame c t deeper n _).1.trans h)
  induction left generalizing nodes s with
  | zero => exact hlevel _ _ _ _ h
  | succ left ih => exact ih (hlevel _ _ _ _ h)

/-! ## Answers -/

/-- The node above all others. -/
def Task.root (t : Task α) : Node := ⟨List.replicate t.items.length none, .root⟩

/-- The search that a task leads to. -/
def run (c : Config α) (t : Task α) (j : Journal α) : Search α :=
  levels c t t.items.length [t.root]
    { solution := ({ counts := { decision := t.items.length } } : Solution α).log
        (.itemRanking (t.items.map (·.index)))
      journal := j }

/-- The problem packs items under one capacity, none of them of a negative value or weight. -/
structure IsKnapsack (p : Problem α) (k : Constraint α) : Prop where
  sense : p.sense = .maximize
  constraints : p.constraints = [k]
  relation : k.relation = .le
  amounts : ∀ e ∈ p.vars.zip k.coefficients, ¬e.2 < 0 ∧ ¬e.1.objective < 0

/-- The items of a problem in order of their rank. -/
def ranking (p : Problem α) (k : Constraint α) : List (Item α) :=
  rank (p.vars.zipWith (fun v w => ⟨v.index, v.objective, w⟩) k.coefficients)

variable {p : Problem α} {k : Constraint α} {s : Search α}

/-- A ranked item has the value and the weight of the variable that it stands for. -/
theorem mem_ranking (hp : p.Indexed) {item : Item α} (h : item ∈ ranking p k) :
    item.value = p.objective.getD item.index 0 ∧
      item.weight = k.coefficients.getD item.index 0 := by
  have hmem := (Selection.sortStable_perm _ _).mem_iff.1 h
  obtain ⟨i, hi, rfl⟩ := List.mem_iff_getElem.1 hmem
  rw [List.length_zipWith, Nat.lt_min] at hi
  rw [List.getElem_zipWith]
  simp [Problem.objective, hp i _ (List.getElem?_eq_getElem hi.1), hi]

/-- The ranked items are those of the variables that have a weight. -/
theorem map_index_ranking_perm (hp : p.Indexed) (k : Constraint α) :
    ((ranking p k).map (·.index)).Perm
      (List.range (min p.numVariables k.coefficients.length)) := by
  refine ((Selection.sortStable_perm _ _).map _).trans (.of_eq (List.ext_getElem ?_ ?_))
  · simp [Problem.numVariables]
  · intro i h₁ h₂
    have hi : i < p.vars.length := by
      rw [List.length_range, Nat.lt_min] at h₂
      exact h₂.1
    simp [hp i _ (List.getElem?_eq_getElem hi)]

/-- The items of a packing problem are its variables, ranked. -/
theorem items_of_isKnapsack (h : IsKnapsack p k) : items p = .ok (ranking p k, k.rhs) := by
  have hnone : (p.vars.zipWith (fun v w => (⟨v.index, v.objective, w⟩ : Item α))
      k.coefficients).find? (fun i => decide (i.weight < 0) || decide (i.value < 0)) = none := by
    rw [List.find?_eq_none, ← List.map_uncurry_zip_eq_zipWith]
    intro item hitem
    obtain ⟨e, he, rfl⟩ := List.mem_map.1 hitem
    obtain ⟨hweight, hvalue⟩ := h.amounts e he
    simp [Function.uncurry, hweight, hvalue]
  unfold items
  simp only [h.sense, h.constraints, h.relation, hnone]
  rfl

/-- The answer to a packing problem concludes the search of its task. -/
theorem solve_of_isKnapsack (h : IsKnapsack p k) (c : Config α) (prune : Bool) (j : Journal α) :
    (solve c prune p j).result =
        .ok (conclude c p ⟨ranking p k, k.rhs, prune⟩ (run c ⟨ranking p k, k.rhs, prune⟩ j)).1 ∧
      (solve c prune p j).state = (run c ⟨ranking p k, k.rhs, prune⟩ j).candidates := by
  unfold solve solveFrom
  rw [items_of_isKnapsack h]
  exact ⟨rfl, rfl⟩

/-- The journal of an answer is that of the search and its end. -/
theorem journal_solve (h : IsKnapsack p k) (c : Config α) (prune : Bool) (j : Journal α) :
    (solve c prune p j).journal =
      (conclude c p ⟨ranking p k, k.rhs, prune⟩ (run c ⟨ranking p k, k.rhs, prune⟩ j)).2 := by
  unfold solve solveFrom
  rw [items_of_isKnapsack h]
  rfl

/-- Nothing else is called an interrupt in the answer. -/
theorem mem_messages_conclude (c : Config α) (p : Problem α) (t : Task α) (j : Journal α) :
    .interrupted ∈ (conclude c p t (run c t j)).1.messages ↔ (run c t j).interrupted = true := by
  have hsays : .interrupted ∈ (run c t j).solution.messages ↔ (run c t j).interrupted = true :=
    says_levels (iff_of_false (by simp [Solution.log]) (by simp))
  rw [← hsays]
  unfold conclude
  cases (run c t j).best with
  | none =>
    dsimp only
    split_ifs <;> simp [Solution.terminate, Solution.log, Solution.logAll]
  | some b => simp [Solution.settle, Solution.log, Solution.logAll]

/-- A signal that never stops a run is not in the answer. -/
theorem notMem_messages_conclude (hc : c.Uninterrupted) (p : Problem α) (t : Task α)
    (j : Journal α) : .interrupted ∉ (conclude c p t (run c t j)).1.messages := by
  rw [mem_messages_conclude, run, not_interrupted_levels hc rfl]
  exact Bool.false_ne_true

/-- Without a packing there is no optimum. -/
theorem conclude_of_none {j : Journal α} (h : (run c t j).leader = none) (p : Problem α) :
    (conclude c p t (run c t j)).1.status =
        (if (run c t j).interrupted then .limitReached else .infeasible) ∧
      (conclude c p t (run c t j)).1.optimalValue = none ∧
      (conclude c p t (run c t j)).1.values = {} := by
  have hvalues : (run c t j).solution.values = {} := values_levels
  have hbest : (run c t j).best = none := Option.map_eq_none_iff.1 h
  unfold conclude
  rw [hbest]
  dsimp only
  split_ifs
  · exact ⟨rfl, rfl, hvalues⟩
  · exact ⟨rfl, rfl, hvalues⟩

/-- The best packing is the answer: its value, its items and what it leaves of the capacity. -/
theorem conclude_of_some {k : Packing α} (h : s.leader = some k) (c : Config α) (p : Problem α)
    (t : Task α) : (conclude c p t s).1.status = .optimal ∧
      (conclude c p t s).1.optimalValue = some k.value ∧
      (conclude c p t s).1.values = ({} : Valuation α).insertAll
        ((List.range p.numVariables).map (fun i =>
          (ColumnName.decision i, if k.items.contains i then (1 : α) else 0)) ++
            [(ColumnName.auxiliary .slack 1, t.capacity - k.weight)]) := by
  obtain ⟨b, hb, rfl⟩ := Option.map_eq_some_iff.1 h
  unfold conclude
  rw [hb]
  exact ⟨rfl, rfl, rfl⟩

end LinOpt.Knapsack
