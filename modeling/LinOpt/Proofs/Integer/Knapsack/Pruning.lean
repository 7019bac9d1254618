import Mathlib.Data.List.Flatten
import LinOpt.Proofs.Integer.Knapsack.Optimum

/-!
# Skipping nodes

A search that skips nodes goes through the tree of one that does not, without some of its subtrees.
What either finds on the way depends on the nodes alone, so it finds a part of what the other finds
(`Knapsack.levels_sublist`), in any arithmetic. With exact arithmetic the lead is the same after
every level (`Knapsack.levels_trims`), not only the best value: a node is skipped when none of its
choices beats the lead, which the other search has as well; its subtree never takes the lead there,
as a packing that is worth the same comes too late. So both give the same answer
(`Knapsack.solve_prune`).
-/

namespace LinOpt.Knapsack

variable {α : Type} [Scalar α] {c : Config α} {t : Task α} {deeper : Bool}

/-! ## What is found -/

/-- What the nodes of a level come to, and those of `left` levels below, if none is skipped. -/
def Task.finds (t : Task α) (tolerance : α) : (left : ℕ) → List Node → List (Packing α)
  | 0, nodes => nodes.flatMap (t.packs tolerance)
  | left + 1, nodes => nodes.flatMap (t.packs tolerance) ++
      t.finds tolerance left (nodes.flatMap (t.children tolerance · true))

/-- Fewer nodes find fewer packings, in the same order. -/
theorem Task.finds_sublist (t : Task α) (tolerance : α) (left : ℕ) {nodes' nodes : List Node}
    (h : nodes'.Sublist nodes) : (t.finds tolerance left nodes').Sublist
      (t.finds tolerance left nodes) := by
  induction left generalizing nodes' nodes with
  | zero => exact h.flatMap _
  | succ left ih => exact (h.flatMap _).append (ih (h.flatMap _))

open Search (level levels)

/-- A search that does not skip nodes takes all that each of them has to offer. -/
theorem Visited.eq (ht : t.prune = false) {n : Node} {s s' : Search α} {children : List Node}
    (h : Visited c t deeper n s s' children) :
    s'.found = s.found ++ t.packs c.tolerance n ∧
      s'.leader = (t.packs c.tolerance n).foldl (Packing.better c.tolerance) s.leader ∧
      children = t.children c.tolerance n deeper := by
  cases h with
  | full hfound hleader => exact ⟨hfound, hleader, rfl⟩
  | skipped hprune => cases ht.symm.trans hprune

/-- A level without pruning that is not interrupted deals with every node. -/
theorem level_eq (ht : t.prune = false) {nodes next : List Node} {s : Search α}
    (hend : (level c t deeper nodes next s).1.interrupted = false) :
    (level c t deeper nodes next s).1.found =
        s.found ++ nodes.flatMap (t.packs c.tolerance) ∧
      (level c t deeper nodes next s).2 =
        next ++ nodes.flatMap (t.children c.tolerance · deeper) := by
  induction nodes generalizing next s with
  | nil => exact ⟨(List.append_nil _).symm, (List.append_nil _).symm⟩
  | cons n rest ih =>
    have hstep := level_cons_of_open hend
    rw [hstep] at hend ⊢
    obtain ⟨hfound, -, hchildren⟩ :=
      (visit_spec c t deeper n (s.asked c)).eq ht
    obtain ⟨hfound', hnext⟩ := ih hend
    refine ⟨hfound'.trans ?_, hnext.trans ?_⟩
    · rw [hfound, List.append_assoc]
      rfl
    · rw [hchildren, List.append_assoc]
      rfl

/-- Whether nodes are skipped or not, nothing else is found, and all in the same order. -/
theorem levels_sublist (prune : Bool) (left : ℕ) (nodes : List Node) (s : Search α) :
    ∃ ks, (levels c { t with prune } left nodes s).found = s.found ++ ks ∧
      ks.Sublist (t.finds c.tolerance left nodes) := by
  induction left generalizing nodes s with
  | zero => exact (level_sublist c { t with prune } false nodes [] s).1
  | succ left ih =>
    obtain ⟨⟨ks, hfound, hks⟩, hnext⟩ :=
      level_sublist c { t with prune } true nodes [] s
    obtain ⟨ks', hfound', hks'⟩ := ih _ (level c { t with prune } true nodes [] s).1
    refine ⟨ks ++ ks', ?_, hks.append (hks'.trans (t.finds_sublist _ left hnext))⟩
    exact hfound'.trans ((congrArg (· ++ ks') hfound).trans (List.append_assoc _ _ _))

/-- If none is skipped, everything is found. -/
theorem levels_eq (ht : t.prune = false) {left : ℕ} {nodes : List Node} {s : Search α}
    (hend : (levels c t left nodes s).interrupted = false) :
    (levels c t left nodes s).found = s.found ++ t.finds c.tolerance left nodes := by
  induction left generalizing nodes s with
  | zero => exact (level_eq ht hend).1
  | succ left ih =>
    obtain ⟨hfound, hnext⟩ := level_eq ht (interrupted_levels hend)
    refine (ih hend).trans ?_
    rw [hfound, hnext, List.append_assoc]
    rfl

/-- A search that skips nodes finds a part of what one finds that does not. -/
theorem run_sublist (ht : t.prune = false) {j' j : Journal α} (prune : Bool)
    (hend : (run c t j).interrupted = false) :
    (run c { t with prune } j').found.Sublist (run c t j).found := by
  obtain ⟨ks, hfound, hks⟩ := levels_sublist (c := c) (t := t) prune _ _ _
  rw [run, run, hfound, levels_eq ht hend]
  exact hks

/-! ## The lead -/

section
variable {c : Config ℚ} {t : Task ℚ} {n m : Node} {best best' : Option (Packing ℚ)}

/-- No choice of the node that fits beats the best packing. -/
def Node.Low (t : Task ℚ) (best : Option (Packing ℚ)) (n : Node) : Prop :=
  ∀ S, n.Admits t S → t.Fits S →
    ∃ k, best = some k ∧ packed t.items S Item.value ≤ k.value

/-- A list of open nodes without some that cannot beat the best packing. -/
inductive Trims (t : Task ℚ) (best : Option (Packing ℚ)) : List Node → List Node → Prop
  | nil : Trims t best [] []
  | keep {n : Node} {nodes' nodes : List Node} (length : n.decisions.length = t.items.length)
      (rest : Trims t best nodes' nodes) : Trims t best (n :: nodes') (n :: nodes)
  | drop {n : Node} {nodes' nodes : List Node} (length : n.decisions.length = t.items.length)
      (low : n.Low t best) (rest : Trims t best nodes' nodes) : Trims t best nodes' (n :: nodes)

/-- The lead went to a packing that is worth no less. -/
def Grows (best best' : Option (Packing ℚ)) : Prop :=
  ∀ k, best = some k → ∃ k', best' = some k' ∧ k.value ≤ k'.value

/-- Nodes that may be left out may be so when the best packing has become better. -/
theorem Trims.mono {nodes' nodes : List Node} (h : Trims t best nodes' nodes)
    (hgrows : Grows best best') : Trims t best' nodes' nodes := by
  induction h with
  | nil => exact .nil
  | keep hlength _ ih => exact .keep hlength ih
  | drop hlength hlow _ ih =>
    refine .drop hlength (fun S hS hfits => ?_) ih
    obtain ⟨k, hk, hle⟩ := hlow S hS hfits
    obtain ⟨k', hk', hle'⟩ := hgrows k hk
    exact ⟨k', hk', hle.trans hle'⟩

/-- Two lists of nodes may be trimmed separately. -/
theorem Trims.append {nodes₁' nodes₁ nodes₂' nodes₂ : List Node}
    (h₁ : Trims t best nodes₁' nodes₁) (h₂ : Trims t best nodes₂' nodes₂) :
    Trims t best (nodes₁' ++ nodes₂') (nodes₁ ++ nodes₂) := by
  induction h₁ with
  | nil => exact h₂
  | keep hlength _ ih => exact .keep hlength ih
  | drop hlength hlow _ ih => exact .drop hlength hlow ih

/-- Nothing need be left out. -/
theorem Trims.refl {nodes : List Node} (h : ∀ n ∈ nodes, n.decisions.length = t.items.length) :
    Trims t best nodes nodes := by
  induction nodes with
  | nil => exact .nil
  | cons n nodes ih =>
    obtain ⟨hn, hnodes⟩ := List.forall_mem_cons.1 h
    exact .keep hn (ih hnodes)

/-- All nodes may be left out that cannot beat the best packing. -/
theorem Trims.dropped {nodes : List Node} (h : ∀ n ∈ nodes, n.decisions.length = t.items.length)
    (hlow : ∀ n ∈ nodes, n.Low t best) : Trims t best [] nodes := by
  induction nodes with
  | nil => exact .nil
  | cons n nodes ih =>
    obtain ⟨hn, hnodes⟩ := List.forall_mem_cons.1 h
    obtain ⟨hlow, hlows⟩ := List.forall_mem_cons.1 hlow
    exact .drop hn hlow (ih hnodes hlows)

/-- Children decide on the same items. -/
theorem Task.length_of_mem_children (h : n.decisions.length = t.items.length) :
    ∀ m ∈ t.children 0 n deeper, m.decisions.length = t.items.length := by
  intro m hm
  obtain ⟨-, r, b, -, rfl⟩ := Task.mem_children hm
  exact List.length_set.trans h

/-- What a node below the lead comes to does not take it. -/
theorem Node.Low.leader (hlow : n.Low t best) (h : n.decisions.length = t.items.length) :
    (t.packs 0 n).foldl (Packing.better 0) best = best := by
  have hbetter : ∀ k ∈ t.packs 0 n, Packing.better 0 best k = best := by
    intro k hk
    obtain ⟨-, S, hS, hfits, hvalue⟩ := Task.counts_of_mem_packs h hk
    obtain ⟨k₀, rfl, hle⟩ := hlow S hS hfits
    exact if_neg (by rw [add_zero]; exact (hvalue.trans_le hle).not_gt)
  generalize t.packs 0 n = ks at hbetter
  induction ks with
  | nil => rfl
  | cons k ks ih =>
    obtain ⟨hk, hks⟩ := List.forall_mem_cons.1 hbetter
    rw [List.foldl_cons, hk, ih hks]

/-- The children of a node below the lead are below it. -/
theorem Node.Low.children (hlow : n.Low t best) (h : n.decisions.length = t.items.length) :
    Trims t best [] (t.children 0 n deeper) :=
  .dropped (Task.length_of_mem_children h) fun _ hm S hS => hlow S (hS.of_child h hm)

/-- A node is visited by both searches, one of which may skip it. -/
theorem Visited.trims (ht : t.Ranked) (hc : c.tolerance = 0) (hprune : t.prune = false)
    (hlength : n.decisions.length = t.items.length) {s u s' u' : Search ℚ}
    {children children' : List Node} (h : Visited c t deeper n s u children)
    (h' : Visited c { t with prune := true } deeper n s' u' children')
    (hleader : s'.leader = s.leader) :
    u'.leader = u.leader ∧ Grows s.leader u.leader ∧ Trims t u.leader children' children := by
  obtain ⟨-, hu, rfl⟩ := h.eq hprune
  rw [hc] at hu ⊢
  have hgrows : Grows s.leader u.leader := fun k hk => hu ▸ (foldl_better _ _).2 k (.inl hk)
  cases h' with
  | full _ hu' =>
    rw [hc] at hu' ⊢
    exact ⟨hu'.trans (hleader ▸ hu.symm), hgrows, .refl (Task.length_of_mem_children hlength)⟩
  | skipped _ r hr k hbest hbound _ hu' =>
    rw [hc] at hr hbound
    rw [add_zero] at hbound
    have hlow : n.Low t s.leader := fun S hS hfits =>
      ⟨k, hleader ▸ hbest,
        (relax_bound ht.nonneg hlength ht.ranked hr hS hfits).trans hbound⟩
    have hsame : u.leader = s.leader := hu.trans (hlow.leader hlength)
    exact ⟨hu'.trans (hleader.trans hsame.symm), hgrows, hsame ▸ hlow.children hlength⟩

/-- A level of a search that skips nodes ends with the lead of one that does not. -/
theorem level_trims (ht : t.Ranked) (hc : c.tolerance = 0) (hprune : t.prune = false)
    {nodes' nodes next' next : List Node} {s' s : Search ℚ} (hleader : s'.leader = s.leader)
    (hnodes : Trims t s.leader nodes' nodes) (hnext : Trims t s.leader next' next)
    (hend' : (level c { t with prune := true } deeper nodes' next' s').1.interrupted = false)
    (hend : (level c t deeper nodes next s).1.interrupted = false) :
    (level c { t with prune := true } deeper nodes' next' s').1.leader =
        (level c t deeper nodes next s).1.leader ∧
      Trims t (level c t deeper nodes next s).1.leader
        (level c { t with prune := true } deeper nodes' next' s').2
        (level c t deeper nodes next s).2 := by
  induction nodes generalizing nodes' next' next s' s with
  | nil =>
    cases hnodes
    exact ⟨hleader, hnext⟩
  | cons n nodes ih =>
    have hstep := level_cons_of_open hend
    rw [hstep] at hend ⊢
    have hvisit := visit_spec c t deeper n (s.asked c)
    cases hnodes with
    | keep hlength hrest =>
      have hstep' := level_cons_of_open hend'
      rw [hstep'] at hend' ⊢
      obtain ⟨hsame, hgrows, hchildren⟩ := hvisit.trims ht hc hprune hlength
        (visit_spec c { t with prune := true } deeper n (s'.asked c))
        hleader
      exact ih hsame (hrest.mono hgrows) ((hnext.mono hgrows).append hchildren) hend' hend
    | drop hlength hlow hrest =>
      -- only the search that skips no node visits it
      obtain ⟨-, hu, hchildren⟩ := hvisit.eq hprune
      rw [hc] at hu hchildren
      have hsame := hu.trans (hlow.leader hlength)
      refine ih (hleader.trans hsame.symm) (hsame.symm ▸ hrest) (hsame.symm ▸ ?_) hend' hend
      rw [← List.append_nil next', hchildren]
      exact hnext.append (hlow.children hlength)

/-- A search that skips nodes ends with the lead of one that does not. -/
theorem levels_trims (ht : t.Ranked) (hc : c.tolerance = 0) (hprune : t.prune = false) {left : ℕ}
    {nodes' nodes : List Node} {s' s : Search ℚ} (hleader : s'.leader = s.leader)
    (hnodes : Trims t s.leader nodes' nodes)
    (hend' : (levels c { t with prune := true } left nodes' s').interrupted = false)
    (hend : (levels c t left nodes s).interrupted = false) :
    (levels c { t with prune := true } left nodes' s').leader =
      (levels c t left nodes s).leader := by
  induction left generalizing nodes' nodes s' s with
  | zero => exact (level_trims ht hc hprune hleader hnodes .nil hend' hend).1
  | succ left ih =>
    obtain ⟨hlead, htrims⟩ := level_trims ht hc hprune hleader hnodes .nil
      (interrupted_levels hend') (interrupted_levels hend)
    exact ih hlead htrims hend' hend

/-- Pruning does not change which packing is best in the end. -/
theorem run_trims (ht : t.Ranked) (hc : c.tolerance = 0) (hprune : t.prune = false)
    {j' j : Journal ℚ} (hend' : (run c { t with prune := true } j').interrupted = false)
    (hend : (run c t j).interrupted = false) :
    (run c { t with prune := true } j').leader = (run c t j).leader := by
  refine levels_trims ht hc hprune rfl ?_ hend' hend
  exact .keep List.length_replicate .nil

end

/-! ## Answers -/

/-- Without an interrupt the answer depends on the lead. -/
theorem conclude_congr (t' t : Task α) (hcap : t'.capacity = t.capacity) (p : Problem α)
    {j' j : Journal α} (hend' : (run c t' j').interrupted = false)
    (hend : (run c t j).interrupted = false) (h : (run c t' j').leader = (run c t j).leader) :
    (conclude c p t' (run c t' j')).1.status = (conclude c p t (run c t j)).1.status ∧
      (conclude c p t' (run c t' j')).1.optimalValue =
        (conclude c p t (run c t j)).1.optimalValue ∧
      (conclude c p t' (run c t' j')).1.values = (conclude c p t (run c t j)).1.values := by
  cases hl : (run c t j).leader with
  | none =>
    obtain ⟨hstatus, hvalue, hvalues⟩ := conclude_of_none hl p
    obtain ⟨hstatus', hvalue', hvalues'⟩ := conclude_of_none (h.trans hl) p
    rw [hend] at hstatus
    rw [hend'] at hstatus'
    exact ⟨hstatus'.trans hstatus.symm, hvalue'.trans hvalue.symm, hvalues'.trans hvalues.symm⟩
  | some k =>
    obtain ⟨hstatus, hvalue, hvalues⟩ := conclude_of_some hl c p t
    obtain ⟨hstatus', hvalue', hvalues'⟩ := conclude_of_some (h.trans hl) c p t'
    rw [hcap] at hvalues'
    exact ⟨hstatus'.trans hstatus.symm, hvalue'.trans hvalue.symm, hvalues'.trans hvalues.symm⟩

/-- Skipping nodes leaves the answer as it is. In any arithmetic, what is found is part of what is
found without it, in the same order; in exact arithmetic the status, the optimal value and the
values of the variables are the same. -/
theorem solve_prune :
    (∀ {α : Type} [Scalar α] (c : Config α) (p : Problem α) (k : Constraint α) (j' j : Journal α),
      IsKnapsack p k → ∃ sol' sol, (solve c true p j').result = .ok sol' ∧
        (solve c false p j).result = .ok sol ∧
        (c.Uninterrupted → .interrupted ∉ sol'.messages ∧ .interrupted ∉ sol.messages) ∧
        (.interrupted ∉ sol.messages →
          ((solve c true p j').state.map Candidate.packing).Sublist
            ((solve c false p j).state.map Candidate.packing))) ∧
      ∀ (c : Config ℚ) (p : Problem ℚ) (k : Constraint ℚ) (j' j : Journal ℚ)
        (sol' sol : Solution ℚ),
        c.tolerance = 0 → IsKnapsack p k → (solve c true p j').result = .ok sol' →
          (solve c false p j).result = .ok sol → .interrupted ∉ sol'.messages →
          .interrupted ∉ sol.messages → sol'.status = sol.status ∧
            sol'.optimalValue = sol.optimalValue ∧ sol'.values = sol.values := by
  constructor
  · intro α _ c p k j' j hk
    obtain ⟨hsol', hstate'⟩ := solve_of_isKnapsack hk c true j'
    obtain ⟨hsol, hstate⟩ := solve_of_isKnapsack hk c false j
    refine ⟨_, _, hsol', hsol, fun hc => ⟨notMem_messages_conclude hc p _ j',
      notMem_messages_conclude hc p _ j⟩, fun hend => ?_⟩
    rw [mem_messages_conclude, Bool.not_eq_true] at hend
    rw [hstate', hstate]
    exact run_sublist (t := ⟨ranking p k, k.rhs, false⟩) rfl true hend
  · intro c p k j' j sol' sol hc hk hsol' hsol hend' hend
    obtain rfl := Except.ok.inj (hsol'.symm.trans (solve_of_isKnapsack hk c true j').1)
    obtain rfl := Except.ok.inj (hsol.symm.trans (solve_of_isKnapsack hk c false j).1)
    rw [mem_messages_conclude, Bool.not_eq_true] at hend' hend
    have hleader := run_trims (hk.ranked false) hc rfl hend' hend
    exact conclude_congr ⟨ranking p k, k.rhs, true⟩ ⟨ranking p k, k.rhs, false⟩ rfl p hend' hend
      hleader

/-- Of three equally good packings, the first one is found and the others are skipped. -/
theorem solve_prune_ties :
    let k : Constraint ℚ := ⟨[2, 2, 2], .le, 5⟩
    let p : Problem ℚ := { Problem.ofObjective .maximize [6, 6, 6] with constraints := [k] }
    ∃ sol' sol, (solve .exact true p {}).result = .ok sol' ∧
      (solve .exact false p {}).result = .ok sol ∧
      (solve .exact true p {}).state.map (·.items) = [[0, 1]] ∧
      (solve .exact false p {}).state.map (·.items) = [[0, 1], [0, 2], [1, 2]] ∧
      ((solve .exact true p {}).state.map Candidate.packing).Sublist
        ((solve .exact false p {}).state.map Candidate.packing) ∧
      sol'.status = sol.status ∧ sol'.optimalValue = sol.optimalValue ∧
      sol'.values = sol.values := by
  intro k p
  have hk : IsKnapsack p k := ⟨rfl, rfl, rfl, by decide +kernel⟩
  obtain ⟨hfound, hanswer⟩ := solve_prune
  obtain ⟨sol', sol, hsol', hsol, hend, hsublist⟩ := hfound .exact p k {} {} hk
  obtain ⟨hend', hend⟩ := hend fun _ _ => rfl
  exact ⟨sol', sol, hsol', hsol, by decide +kernel, by decide +kernel, hsublist hend,
    hanswer .exact p k {} {} sol' sol rfl hk hsol' hsol hend' hend⟩

end LinOpt.Knapsack
