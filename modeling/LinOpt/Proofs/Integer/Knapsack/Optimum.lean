import Mathlib.Algebra.BigOperators.Group.Finset.Basic
import Mathlib.Data.Finset.Range
import LinOpt.Proofs.Integer.Knapsack.Relaxation
import LinOpt.Proofs.Integer.Knapsack.Search
import LinOpt.Proofs.Simplex.Dual.Session
import LinOpt.Proofs.Solution.Valuation

/-!
# The best packing

Among the choices that fit, every one is either admitted by an open node or worth no more than the
best packing so far (`Knapsack.Covers`): a node that is branched on hands its choices to its
children, one that splits no item comes to a packing that is worth as much as any of them, and the
bound of one that is skipped has been reached already. The packings found are themselves choices
that fit. So a search that is not interrupted ends with the best choice (`Knapsack.run_covers`),
whether it skips nodes or not.

`Knapsack.solve_isGreatest` says this of the problem: choices of ranked items are sets of variables
there.
-/

namespace LinOpt.Knapsack

variable {S : Finset ℕ}

/-! ## What a node has to offer -/

/-- The choice agrees with what the node decided. -/
def Node.Admits (n : Node) (t : Task ℚ) (S : Finset ℕ) : Prop :=
  Knapsack.Admits (slots t.items n.decisions) S

/-- The choice does not exceed the capacity. -/
def Task.Fits (t : Task ℚ) (S : Finset ℕ) : Prop := packed t.items S Item.weight ≤ t.capacity

/-- Items of non-negative amounts in order of their rank. -/
structure Task.Ranked (t : Task ℚ) : Prop where
  nonneg : ∀ i ∈ t.items, 0 ≤ i.value ∧ 0 ≤ i.weight
  ranked : t.items.Pairwise Item.Outranks

/-- The packing is a choice that fits, with its value and weight and the indices of its items. -/
def Task.Counts (t : Task ℚ) (k : Packing ℚ) : Prop :=
  ∃ taken : List ℕ, k.value = packed t.items taken.toFinset Item.value ∧
    k.weight = packed t.items taken.toFinset Item.weight ∧ t.Fits taken.toFinset ∧
    ∀ i, i ∈ k.items ↔ ∃ r ∈ taken, (t.items[r]?).map (·.index) = some i

/-- The node decides about every item, and leaves `left` of them open. -/
structure Node.Leaves (n : Node) (t : Task ℚ) (left : ℕ) : Prop where
  length : n.decisions.length = t.items.length
  count : n.decisions.count none = left

variable {c : Config ℚ} {t : Task ℚ} {n m : Node} {deeper : Bool} {left : ℕ}

/-- A node admits the choices that agree with what it decided. -/
theorem Node.admits_iff (h : n.decisions.length = t.items.length) : n.Admits t S ↔
    ∀ (r : ℕ) (b : Bool), n.decisions[r]? = some (some b) → (r ∈ S ↔ b = true) := by
  constructor
  · intro hS r b hr
    have hlt : r < t.items.length := h ▸ (List.getElem?_eq_some_iff.1 hr).1
    exact hS ⟨r, t.items[r], some b⟩ (mem_slots.2 ⟨List.getElem?_eq_getElem hlt, hr⟩) b rfl
  · intro hS s hs b hb
    exact hS s.rank b (hb ▸ (mem_slots.1 hs).2)

/-- A child leaves one item less open. -/
theorem Node.Leaves.child (h : n.Leaves t left) {r : ℕ} (hr : n.decisions[r]? = some none)
    (b : Branch) : 0 < left ∧ (n.child r b).Leaves t (left - 1) := by
  obtain ⟨hlt, hnone⟩ := List.getElem?_eq_some_iff.1 hr
  have hpos : 0 < n.decisions.count none :=
    List.count_pos_iff.2 (hnone ▸ List.getElem_mem hlt)
  refine ⟨h.count ▸ hpos, ?_, ?_⟩
  · exact List.length_set.trans h.length
  · show (n.decisions.set r _).count none = _
    rw [List.count_set hlt, hnone, ← h.count]
    simp

/-- A child admits the choices of the node that choose the item, or those that do not. -/
theorem Node.child_admits_iff (h : n.decisions.length = t.items.length) {r : ℕ}
    (hr : n.decisions[r]? = some none) (b : Branch) :
    (n.child r b).Admits t S ↔ n.Admits t S ∧ (r ∈ S ↔ b = .second) := by
  have hlt : r < n.decisions.length := (List.getElem?_eq_some_iff.1 hr).1
  rw [admits_iff h, admits_iff (n := n.child r b) (List.length_set.trans h)]
  simp only [child, List.getElem?_set]
  constructor
  · intro hS
    refine ⟨fun r' b' hb' => hS r' b' ?_, ?_⟩
    · rw [if_neg, hb']
      rintro rfl
      cases hr.symm.trans hb'
    · simpa using hS r (decide (b = .second)) (by rw [if_pos rfl, if_pos hlt])
  · rintro ⟨hS, hmem⟩ r' b' hb'
    split_ifs at hb' with heq
    · subst heq
      rw [hmem, ← Option.some.inj (Option.some.inj hb'), decide_eq_true_eq]
    · exact hS r' b' hb'

/-- What a child admits its parent admits. -/
theorem Node.Admits.of_child (h : n.decisions.length = t.items.length)
    (hm : m ∈ t.children 0 n deeper) (hS : m.Admits t S) : n.Admits t S := by
  obtain ⟨-, r, b, hr, rfl⟩ := Task.mem_children hm
  exact ((Node.child_admits_iff h hr b).1 hS).1

/-- What a node packs is one of the choices that it admits. -/
theorem Task.counts_of_mem_packs (h : n.decisions.length = t.items.length) {k : Packing ℚ}
    (hk : k ∈ t.packs 0 n) : t.Counts k ∧
      ∃ S, n.Admits t S ∧ t.Fits S ∧ k.value = packed t.items S Item.value := by
  unfold Task.packs at hk
  split at hk
  · rename_i load hr
    obtain rfl := List.mem_singleton.1 hk
    obtain ⟨hadmits, hvalue, hweight, hfits⟩ := relax_load h hr
    refine ⟨⟨load.taken, hvalue, hweight, hfits, fun i => ?_⟩, _, hadmits, hfits, hvalue⟩
    exact (Selection.sortStable_perm _ _).mem_iff.trans List.mem_filterMap
  · cases hk

/-- A choice that a node admits and that fits is not worth more than what the node packs, or it is
one of the choices of a child. -/
theorem Node.Admits.offer (hS : n.Admits t S) (ht : t.Ranked) (hn : n.Leaves t left)
    (hfits : t.Fits S) : (∃ k ∈ t.packs 0 n, packed t.items S Item.value ≤ k.value) ∨
      ∃ m ∈ t.children 0 n (decide (0 < left)), m.Admits t S := by
  cases hr : t.relaxed 0 n with
  | none => exact absurd hfits (relax_none ht.nonneg hn.length hr hS).not_ge
  | some r =>
    have hbound := relax_bound ht.nonneg hn.length ht.ranked hr hS hfits
    obtain ⟨-, hfill⟩ := relax_eq_some hr
    obtain ⟨bound, load, split⟩ := r
    cases split with
    | none =>
      have heq : bound = load.value := by
        have h := fill_bound 0 (slots t.items n.decisions) rfl
          (congrArg Relaxation.split hfill).symm
        rwa [← hfill] at h
      have hpacks : t.packs 0 n = [t.packing n.path load] := by rw [Task.packs, hr]
      exact .inl ⟨_, hpacks ▸ List.mem_singleton_self _, hbound.trans_eq heq⟩
    | some k =>
      have hnone := (relax_split hr rfl).2
      have hpos : 0 < left := (hn.child hnone .first).1
      have hchildren : t.children 0 n (decide (0 < left)) =
          [n.child k .first, n.child k .second] := by
        rw [Task.children, hr, decide_eq_true hpos]
        rfl
      rw [hchildren]
      by_cases hmem : k ∈ S
      · exact .inr ⟨n.child k .second, by simp,
          (Node.child_admits_iff hn.length hnone _).2 ⟨hS, iff_of_true hmem rfl⟩⟩
      · exact .inr ⟨n.child k .first, by simp,
          (Node.child_admits_iff hn.length hnone _).2 ⟨hS, iff_of_false hmem (by decide)⟩⟩

/-! ## The lead -/

/-- The better of two packings is one of them and worth as much as either. -/
theorem exists_better (first : Option (Packing ℚ)) (k : Packing ℚ) :
    ∃ k₀, Packing.better 0 first k = some k₀ ∧ (first = some k₀ ∨ k₀ = k) ∧
      k.value ≤ k₀.value ∧ ∀ k', first = some k' → k'.value ≤ k₀.value := by
  unfold Packing.better
  cases first with
  | none => exact ⟨k, rfl, .inr rfl, le_refl _, fun _ h => nomatch h⟩
  | some k₁ =>
    dsimp only
    rw [add_zero]
    split_ifs with h
    · exact ⟨k, rfl, .inr rfl, le_refl _, fun k' hk' => Option.some.inj hk' ▸ h.le⟩
    · exact ⟨k₁, rfl, .inl rfl, not_lt.1 h, fun k' hk' => Option.some.inj hk' ▸ le_refl _⟩

/-- The better of several packings is one of them and worth as much as any. -/
theorem foldl_better (ks : List (Packing ℚ)) (first : Option (Packing ℚ)) :
    (∀ k, ks.foldl (Packing.better 0) first = some k → first = some k ∨ k ∈ ks) ∧
      ∀ k, (first = some k ∨ k ∈ ks) →
        ∃ k', ks.foldl (Packing.better 0) first = some k' ∧ k.value ≤ k'.value := by
  induction ks generalizing first with
  | nil => exact ⟨fun k h => .inl h, fun k h => ⟨k, h.resolve_right List.not_mem_nil, le_refl _⟩⟩
  | cons k ks ih =>
    obtain ⟨hfrom, hleast⟩ := ih (Packing.better 0 first k)
    -- the lead before the others
    obtain ⟨k₀, heq, hone, hk, hfirst⟩ := exists_better first k
    obtain ⟨k₂, hk₂, hle⟩ := hleast k₀ (.inl heq)
    rw [List.foldl_cons]
    constructor
    · intro k' hk'
      rcases hfrom k' hk' with h | h
      · obtain rfl := Option.some.inj (heq.symm.trans h)
        rcases hone with h | rfl
        · exact .inl h
        · exact .inr List.mem_cons_self
      · exact .inr (List.mem_cons_of_mem k h)
    · rintro k' (h | h)
      · exact ⟨k₂, hk₂, (hfirst k' h).trans hle⟩
      · rcases List.mem_cons.1 h with rfl | h
        · exact ⟨k₂, hk₂, hk.trans hle⟩
        · exact hleast k' (.inr h)

/-- The best packing so far is a choice that fits, and every choice that fits is admitted by an open
node or not worth more. -/
structure Covers (t : Task ℚ) (nodes : List Node) (s : Search ℚ) : Prop where
  counts : ∀ k, s.leader = some k → t.Counts k
  covers : ∀ S, t.Fits S → (∃ n ∈ nodes, n.Admits t S) ∨
    ∃ k, s.leader = some k ∧ packed t.items S Item.value ≤ k.value

/-- A visit of the first open node keeps all choices covered. -/
theorem Covers.visit (ht : t.Ranked) (hc : c.tolerance = 0) {rest children : List Node}
    {s s' : Search ℚ} (hn : n.Leaves t left) (h : Covers t (n :: rest) s)
    (hvisited : Visited c t (decide (0 < left)) n s s' children) :
    Covers t (rest ++ children) s' := by
  cases hvisited with
  | full hfound hleader =>
    rw [hc] at hleader ⊢
    obtain ⟨hfrom, hleast⟩ := foldl_better (t.packs 0 n) s.leader
    rw [← hleader] at hfrom hleast
    refine ⟨fun k hk => ?_, fun S hS => ?_⟩
    · rcases hfrom k hk with hk | hk
      · exact h.counts k hk
      · exact (Task.counts_of_mem_packs hn.length hk).1
    · rcases h.covers S hS with ⟨n', hn', hadmits⟩ | ⟨k, hk, hle⟩
      · rcases List.mem_cons.1 hn' with rfl | hn'
        · rcases hadmits.offer ht hn hS with ⟨k, hk, hle⟩ | ⟨m, hm, hadmits⟩
          · obtain ⟨k', hk', hle'⟩ := hleast k (.inr hk)
            exact .inr ⟨k', hk', hle.trans hle'⟩
          · exact .inl ⟨m, List.mem_append_right rest hm, hadmits⟩
        · exact .inl ⟨n', List.mem_append_left _ hn', hadmits⟩
      · obtain ⟨k', hk', hle'⟩ := hleast k (.inl hk)
        exact .inr ⟨k', hk', hle.trans hle'⟩
  | skipped _ r hr k hbest hlow hfound hleader =>
    rw [hc] at hr hlow
    rw [add_zero] at hlow
    refine ⟨fun k hk => h.counts k (hleader ▸ hk), fun S hS => ?_⟩
    rw [hleader, List.append_nil]
    rcases h.covers S hS with ⟨n', hn', hadmits⟩ | hbetter
    · rcases List.mem_cons.1 hn' with rfl | hn'
      · have hbound := relax_bound ht.nonneg hn.length ht.ranked hr hadmits hS
        exact .inr ⟨k, hbest, hbound.trans hlow⟩
      · exact .inl ⟨n', hn', hadmits⟩
    · exact .inr hbetter

/-- A search that is not interrupted ends with the best choice of all that fit. -/
theorem run_covers (ht : t.Ranked) (hc : c.tolerance = 0) {j : Journal ℚ}
    (hend : (run c t j).interrupted = false) : Covers t [] (run c t j) := by
  have hlength : t.root.decisions.length = t.items.length := List.length_replicate
  refine levels_spec (P := fun left n => n.Leaves t left) (fun _ _ _ h => ⟨h.counts, h.covers⟩)
    (fun left n rest s s' children hn h hvisited => ⟨h.visit ht hc hn hvisited, ?_⟩)
    (List.forall_mem_singleton.2 ⟨hlength, List.count_replicate_self⟩)
    ⟨fun k hk => ?_, fun S _ => .inl ?_⟩ hend
  · intro m hm
    cases hvisited with
    | full =>
      obtain ⟨-, r, b, hr, rfl⟩ := Task.mem_children hm
      exact hn.child hr b
    | skipped => cases hm
  · cases hk
  · refine ⟨t.root, List.mem_singleton_self _, (Node.admits_iff hlength).2 fun r b hr => ?_⟩
    cases List.eq_of_mem_replicate (List.mem_of_getElem? hr)

/-! ## The problem -/

/-- The problem packs items of non-negative values under one capacity. -/
structure IsPacking (p : Problem ℚ) (k : Constraint ℚ) : Prop where
  sense : p.sense = .maximize
  constraints : p.constraints = [k]
  relation : k.relation = .le
  length : k.coefficients.length = p.numVariables
  values : ∀ a ∈ p.objective, 0 ≤ a
  weights : ∀ a ∈ k.coefficients, 0 ≤ a

/-- The sets of variables whose total weight is at most the capacity. -/
def packings (p : Problem ℚ) (k : Constraint ℚ) : Set (Finset ℕ) :=
  {S | S ⊆ Finset.range p.numVariables ∧ ∑ i ∈ S, k.coefficients.getD i 0 ≤ k.rhs}

/-- The total value of a set of variables. -/
def worth (p : Problem ℚ) (S : Finset ℕ) : ℚ := ∑ i ∈ S, p.objective.getD i 0

/-- The item that a variable stands for. -/
def itemOf (p : Problem ℚ) (k : Constraint ℚ) (i : ℕ) : Item ℚ :=
  ⟨i, p.objective.getD i 0, k.coefficients.getD i 0⟩

variable {p : Problem ℚ} {k : Constraint ℚ}

/-- The items of a packing problem have no negative values or weights. -/
theorem IsPacking.nonneg (hk : IsPacking p k) (i : ℕ) :
    0 ≤ (itemOf p k i).value ∧ 0 ≤ (itemOf p k i).weight := by
  have hgetD : ∀ as : List ℚ, (∀ a ∈ as, 0 ≤ a) → 0 ≤ as.getD i 0 := by
    intro as has
    rw [List.getD_eq_getElem?_getD]
    cases hi : as[i]? with
    | none => exact le_refl 0
    | some a => exact has a (List.mem_of_getElem? hi)
  exact ⟨hgetD _ hk.values, hgetD _ hk.weights⟩

/-- A packing problem is a knapsack problem. -/
theorem IsPacking.isKnapsack (hk : IsPacking p k) : IsKnapsack p k := by
  refine ⟨hk.sense, hk.constraints, hk.relation, fun ⟨v, w⟩ he => ?_⟩
  obtain ⟨hv, hw⟩ := List.of_mem_zip he
  exact ⟨(hk.weights w hw).not_gt, (hk.values _ (List.mem_map.2 ⟨v, hv, rfl⟩)).not_gt⟩

/-- The ranked items are of non-negative amounts. -/
theorem IsKnapsack.ranked (h : IsKnapsack p k) (prune : Bool) :
    (⟨ranking p k, k.rhs, prune⟩ : Task ℚ).Ranked := by
  refine ⟨fun item hitem => ?_, rank_pairwise _⟩
  have hmem := (Selection.sortStable_perm _ _).mem_iff.1 hitem
  rw [← List.map_uncurry_zip_eq_zipWith] at hmem
  obtain ⟨e, he, rfl⟩ := List.mem_map.1 hmem
  obtain ⟨hweight, hvalue⟩ := h.amounts e he
  exact ⟨not_lt.1 hvalue, not_lt.1 hweight⟩

/-- The ranked items are those of the variables. -/
theorem ranking_perm (hp : p.Indexed) (hk : IsPacking p k) :
    (ranking p k).Perm ((List.range p.numVariables).map (itemOf p k)) := by
  refine (Selection.sortStable_perm _ _).trans (.of_eq (List.ext_getElem ?_ fun i h₁ h₂ => ?_))
  · rw [List.length_zipWith, hk.length, List.length_map, List.length_range]
    exact Nat.min_self _
  · have hi : i < p.vars.length := by simpa [Problem.numVariables] using h₂
    have hi' : i < k.coefficients.length := hk.length ▸ hi
    simp [itemOf, Problem.objective, hi, hi', hp i _ (List.getElem?_eq_getElem hi)]

/-- A choice of ranks amounts to what the variables do that are chosen. -/
theorem packed_ranking (hp : p.Indexed) (hk : IsPacking p k) {R S : Finset ℕ}
    (hS : S ⊆ Finset.range p.numVariables)
    (hRS : ∀ r i, (ranking p k)[r]? = some i → (r ∈ R ↔ i.index ∈ S)) (amount : Item ℚ → ℚ) :
    packed (ranking p k) R amount = ∑ i ∈ S, amount (itemOf p k i) := by
  have hindex : packed (ranking p k) R amount =
      ((ranking p k).map fun i => if i.index ∈ S then amount i else 0).sum := by
    refine congrArg List.sum (List.ext_getElem (by simp) fun r h₁ h₂ => ?_)
    have hr : r < (ranking p k).length := by simpa using h₂
    rw [List.getElem_mapIdx, List.getElem_map]
    exact if_congr (hRS r _ (List.getElem?_eq_getElem hr)) rfl rfl
  refine hindex.trans (((ranking_perm hp hk).map _).sum_eq.trans ?_)
  rw [List.map_map]
  show ∑ i ∈ Finset.range p.numVariables, (if i ∈ S then amount (itemOf p k i) else 0) = _
  rw [Finset.sum_ite_mem, Finset.inter_eq_right.2 hS]

/-- The variables of the ranks that are taken. -/
theorem exists_variables (hp : p.Indexed) (hk : IsPacking p k) {t : Task ℚ}
    (ht : t.items = ranking p k) (hcap : t.capacity = k.rhs) {l : Packing ℚ} (h : t.Counts l) :
    ∃ S ∈ packings p k, l.value = worth p S ∧
      l.weight = ∑ i ∈ S, k.coefficients.getD i 0 ∧ ∀ i, i ∈ l.items ↔ i ∈ S := by
  obtain ⟨taken, hvalue, hweight, hfits, hitems⟩ := h
  rw [Task.Fits, hcap, ht] at hfits
  rw [ht] at hvalue hweight hitems
  have hperm := map_index_ranking_perm hp k
  have hnodup : ((ranking p k).map (·.index)).Nodup := hperm.nodup_iff.2 List.nodup_range
  have hsub : l.items.toFinset ⊆ Finset.range p.numVariables := by
    intro i hi
    obtain ⟨r, -, hr⟩ := (hitems i).1 (List.mem_toFinset.1 hi)
    rw [← List.getElem?_map] at hr
    have hmin := List.mem_range.1 (hperm.mem_iff.1 (List.mem_of_getElem? hr))
    exact Finset.mem_range.2 (hmin.trans_le (Nat.min_le_left _ _))
  have hRS : ∀ r i, (ranking p k)[r]? = some i →
      (r ∈ taken.toFinset ↔ i.index ∈ l.items.toFinset) := by
    intro r i hr
    rw [List.mem_toFinset, List.mem_toFinset, hitems]
    constructor
    · exact fun hmem => ⟨r, hmem, by rw [hr]; rfl⟩
    · rintro ⟨r', hmem, hr'⟩
      have hr : ((ranking p k).map (·.index))[r]? = some i.index := by
        rw [List.getElem?_map, hr]
        rfl
      rw [← List.getElem?_map] at hr'
      have hlt : r' < ((ranking p k).map (·.index)).length := (List.getElem?_eq_some_iff.1 hr').1
      rwa [← (List.getElem?_inj hlt hnodup).1 (hr'.trans hr.symm)]
  have hpacked := packed_ranking hp hk hsub hRS
  refine ⟨l.items.toFinset, ⟨hsub, ?_⟩, ?_, ?_, fun i => List.mem_toFinset.symm⟩
  · exact (hpacked Item.weight).symm.trans_le hfits
  · exact hvalue.trans (hpacked Item.value)
  · exact hweight.trans (hpacked Item.weight)

/-- The ranks of a set of variables. -/
theorem exists_ranks (hp : p.Indexed) (hk : IsPacking p k) {t : Task ℚ}
    (ht : t.items = ranking p k) (hcap : t.capacity = k.rhs) {S : Finset ℕ}
    (hS : S ∈ packings p k) :
    ∃ R, t.Fits R ∧ packed t.items R Item.value = worth p S := by
  obtain ⟨hsub, hfits⟩ := hS
  rw [ht]
  have hRS : ∀ r i, (ranking p k)[r]? = some i →
      (r ∈ (Finset.range (ranking p k).length).filter
        (fun r => ((ranking p k)[r]?.any fun i => decide (i.index ∈ S)) = true) ↔
          i.index ∈ S) := by
    intro r i hr
    rw [Finset.mem_filter, Finset.mem_range, hr, Option.any_some, decide_eq_true_eq]
    exact and_iff_right (List.getElem?_eq_some_iff.1 hr).1
  refine ⟨_, ?_, packed_ranking hp hk hsub hRS Item.value⟩
  rw [Task.Fits, hcap, ht, packed_ranking hp hk hsub hRS]
  exact hfits

/-! ## The answer -/

/-- The variables that are 1 sum up to what those of the set do. -/
theorem dot_indicator {S : Finset ℕ} {n : ℕ} (hS : S ⊆ Finset.range n) (as : List ℚ) :
    Scalar.dot as ((List.range n).map fun i => if i ∈ S then 1 else 0) =
      ∑ i ∈ S, as.getD i 0 := by
  rw [Scalar.dot_range]
  simp only [mul_ite, mul_one, mul_zero]
  rw [Finset.sum_ite_mem, Finset.inter_eq_right.2 hS]

section Values
variable {t : Task ℚ} {s : Search ℚ} {l : Packing ℚ}

/-- No name stands twice in an answer. -/
theorem nodup_names (n : ℕ) (l : Packing ℚ) (slack : ℚ) :
    (((List.range n).map (fun i =>
      (ColumnName.decision i, if l.items.contains i then (1 : ℚ) else 0)) ++
        [(ColumnName.auxiliary .slack 1, slack)]).map (·.1)).Nodup := by
  rw [List.map_append, List.map_map]
  refine List.Nodup.append ?_ (List.nodup_singleton _) ?_
  · exact List.nodup_range.map fun i i' h => ColumnName.decision.inj h
  · intro name hname hslack
    obtain ⟨i, -, rfl⟩ := List.mem_map.1 hname
    cases List.mem_singleton.1 hslack

/-- A variable is 1 if its item is in the best packing. -/
theorem value?_decision_conclude (hl : s.leader = some l) (c : Config ℚ) (t : Task ℚ) {i : ℕ}
    (hi : i < p.numVariables) :
    (conclude c p t s).1.value? (.decision i) = some (if l.items.contains i then 1 else 0) := by
  obtain ⟨-, -, hvalues⟩ := conclude_of_some hl c p t
  rw [Solution.value?, hvalues]
  refine Valuation.get?_insertAll_of_mem (e := (_, _)) (nodup_names p.numVariables l _)
    (List.mem_append_left _ ?_) {}
  exact List.mem_map.2 ⟨i, List.mem_range.2 hi, rfl⟩

/-- The slack is what the best packing leaves of the capacity. -/
theorem value?_slack_conclude (hl : s.leader = some l) (c : Config ℚ) (p : Problem ℚ)
    (t : Task ℚ) :
    (conclude c p t s).1.value? (.auxiliary .slack 1) = some (t.capacity - l.weight) := by
  obtain ⟨-, -, hvalues⟩ := conclude_of_some hl c p t
  rw [Solution.value?, hvalues]
  exact Valuation.get?_insertAll_of_mem (e := (_, _)) (nodup_names p.numVariables l _)
    (List.mem_append_right _ (List.mem_singleton_self _)) {}

end Values

/-- An answer with the variables of a set packed: its value is their worth, and the slack is what
they leave of the capacity. -/
structure Packs (p : Problem ℚ) (k : Constraint ℚ) (S : Finset ℕ) (sol : Solution ℚ) : Prop where
  status : sol.status = .optimal
  value : sol.optimalValue = some (worth p S)
  chosen : ∀ i < p.numVariables, sol.value? (.decision i) = some (if i ∈ S then 1 else 0)
  objective : p.objectiveValue (sol.decisionValues p.numVariables) = worth p S
  slack : ∃ s₁, sol.value? (.auxiliary .slack 1) = some s₁ ∧
    k.lhs (sol.decisionValues p.numVariables) + s₁ = k.rhs ∧ 0 ≤ s₁

/-- The answer packs the items of the best packing. -/
theorem packs_conclude {t : Task ℚ} {s : Search ℚ} {l : Packing ℚ} (hl : s.leader = some l)
    (hcap : t.capacity = k.rhs) (hS : S ∈ packings p k) (hvalue : l.value = worth p S)
    (hweight : l.weight = ∑ i ∈ S, k.coefficients.getD i 0) (hitems : ∀ i, i ∈ l.items ↔ i ∈ S)
    (c : Config ℚ) : Packs p k S (conclude c p t s).1 := by
  obtain ⟨hstatus, hoptimal, -⟩ := conclude_of_some hl c p t
  obtain ⟨hsub, hfits⟩ := hS
  have hchosen : ∀ i < p.numVariables,
      (conclude c p t s).1.value? (.decision i) = some (if i ∈ S then 1 else 0) := by
    intro i hi
    rw [value?_decision_conclude hl c t hi]
    simp only [List.contains_iff_mem, hitems]
  have hdecisions : (conclude c p t s).1.decisionValues p.numVariables =
      (List.range p.numVariables).map fun i => if i ∈ S then 1 else 0 :=
    List.map_congr_left fun i hi => by rw [hchosen i (List.mem_range.1 hi), Option.getD_some]
  refine ⟨hstatus, hvalue ▸ hoptimal, hchosen, ?_, t.capacity - l.weight,
    value?_slack_conclude hl c p t, ?_, ?_⟩
  · rw [hdecisions]
    exact dot_indicator hsub p.objective
  · rw [hdecisions, Constraint.lhs, dot_indicator hsub, hweight, hcap]
    exact add_sub_cancel _ _
  · rw [hweight, hcap]
    exact sub_nonneg.2 hfits

/-- The search for the best packing answers, and it calls an answer that it gives early
interrupted. Otherwise a negative capacity is infeasible, and any other is packed with the variables
of a set that fits and has the greatest worth of all that do. -/
theorem solve_isGreatest {c : Config ℚ} (hc : c.tolerance = 0) (hp : p.Indexed)
    (hk : IsPacking p k) (prune : Bool) (j : Journal ℚ) :
    ∃ sol, (solve c prune p j).result = .ok sol ∧
      (c.Uninterrupted → .interrupted ∉ sol.messages) ∧
      (.interrupted ∉ sol.messages →
        (k.rhs < 0 → sol.status = .infeasible) ∧
        (0 ≤ k.rhs → ∃ S ∈ packings p k, Packs p k S sol ∧
          IsGreatest (worth p '' packings p k) (worth p S))) := by
  obtain ⟨hsolve, -⟩ := solve_of_isKnapsack hk.isKnapsack c prune j
  refine ⟨_, hsolve, fun hc => notMem_messages_conclude hc p _ j, fun hend => ?_⟩
  generalize ht : (⟨ranking p k, k.rhs, prune⟩ : Task ℚ) = t at hend ⊢
  have hitems : t.items = ranking p k := ht ▸ rfl
  have hcap : t.capacity = k.rhs := ht ▸ rfl
  rw [mem_messages_conclude, Bool.not_eq_true] at hend
  have hcovers := run_covers (ht ▸ hk.isKnapsack.ranked prune) hc hend
  have hbound : ∀ S ∈ packings p k, ∃ l, (run c t j).leader = some l ∧ worth p S ≤ l.value := by
    intro S hS
    obtain ⟨R, hfits, hvalue⟩ := exists_ranks hp hk hitems hcap hS
    rcases hcovers.covers R hfits with ⟨n, hn, -⟩ | hleader
    · cases hn
    · rwa [hvalue] at hleader
  cases hl : (run c t j).leader with
  | none =>
    have hneg : k.rhs < 0 := by
      by_contra hnonneg
      obtain ⟨l, hl', -⟩ := hbound ∅ ⟨Finset.empty_subset _, not_lt.1 hnonneg⟩
      cases hl.symm.trans hl'
    refine ⟨fun _ => ?_, fun hnonneg => absurd hnonneg hneg.not_ge⟩
    rw [(conclude_of_none hl p).1, hend]
    rfl
  | some l =>
    obtain ⟨S, hS, hvalue, hweight, hmem⟩ :=
      exists_variables hp hk hitems hcap (hcovers.counts l hl)
    have hnonneg : 0 ≤ k.rhs :=
      (Finset.sum_nonneg fun i _ => (hk.nonneg i).2).trans hS.2
    refine ⟨fun hneg => absurd hnonneg hneg.not_ge, fun _ =>
      ⟨S, hS, packs_conclude hl hcap hS hvalue hweight hmem c, ⟨S, hS, rfl⟩, ?_⟩⟩
    rintro w ⟨S', hS', rfl⟩
    obtain ⟨l', hl', hle⟩ := hbound S' hS'
    cases hl.symm.trans hl'
    exact hle.trans_eq hvalue

/-- Of three items, the best ratio is not packed. -/
theorem solve_isGreatest_three :
    let k : Constraint ℚ := ⟨[10, 20, 30], .le, 50⟩
    let p : Problem ℚ :=
      { Problem.ofObjective .maximize [60, 100, 120] with constraints := [k] }
    ∃ sol, (solve .exact false p {}).result = .ok sol ∧ .interrupted ∉ sol.messages ∧
      sol.optimalValue = some 220 ∧ ∃ S ∈ packings p k, Packs p k S sol ∧
        IsGreatest (worth p '' packings p k) (worth p S) := by
  intro k p
  have hk : IsPacking p k := ⟨rfl, rfl, rfl, rfl, by decide +kernel, by decide +kernel⟩
  have hp : p.Indexed := Problem.Indexed.ofObjective .maximize [60, 100, 120]
  have hrun : (solve .exact false p {}).result.toOption.map (·.optimalValue) =
      some (some 220) := by decide +kernel
  obtain ⟨sol, hsol, hvalue⟩ := exists_ok_of_map hrun
  obtain ⟨sol', hsol', hend, hanswer⟩ := solve_isGreatest (c := .exact) rfl hp hk false {}
  obtain rfl : sol = sol' := Except.ok.inj (hsol.symm.trans hsol')
  have hend := hend fun _ _ => rfl
  exact ⟨sol, hsol, hend, hvalue, (hanswer hend).2 (by decide +kernel)⟩

end LinOpt.Knapsack
