import Mathlib.Data.Finset.Basic
import Mathlib.Data.List.Nodup
import Mathlib.Algebra.Order.BigOperators.Group.List
import Mathlib.Algebra.Order.Field.Rat
import Mathlib.Tactic.FieldSimp
import Mathlib.Tactic.Linarith
import Mathlib.Tactic.Ring
import LinOpt.Integer.Knapsack
import LinOpt.Proofs.Selection
import LinOpt.Scalar.Rational

/-!
# The fractional relaxation of a packing

A choice of items is a set `S` of ranks; what it amounts to is a sum over the items
(`Knapsack.packed`). A node of the search admits the choices that agree with its decisions.

What `fill` answers is an upper bound on all of them, because there is a rate at which no open item
gives value for weight beyond what was filled in (`fill_rate`): the ratio of the first item that
does not fit, which the items in front of it attain and those behind it do not exceed. So the bound
of a relaxation is not less than the value of any choice that the node admits and that fits
(`relax_bound`). The load of a relaxation is itself such a choice (`relax_load`), and where no item
is split it attains the bound (`fill_bound`).
-/

namespace LinOpt.Knapsack

/-! ## The order of the items -/

/-- The item is worth at least as much for its weight as another; nothing exceeds an item without
weight. -/
def Item.Outranks (i k : Item ℚ) : Prop :=
  i.weight = 0 ∨ k.weight ≠ 0 ∧ k.value / k.weight ≤ i.value / i.weight

/-- Efficiencies are compared as values for their weights. -/
theorem Item.efficiency_le_iff (i k : Item ℚ) :
    k.efficiency.le i.efficiency = true ↔ i.Outranks k := by
  have hdefined : ∀ x : ℚ, Scalar.isDefined x = true := fun x => decide_eq_true (le_refl x)
  have heff : ∀ i : Item ℚ, i.efficiency =
      if i.weight = 0 then .unlimited else .ratio (i.value / i.weight) := by
    intro i
    unfold efficiency
    simp only [hdefined, beq_iff_eq]
    rfl
  rw [heff, heff, Outranks]
  by_cases hi : i.weight = 0
  · rw [if_pos hi]
    refine iff_of_true ?_ (.inl hi)
    split_ifs <;> rfl
  · rw [if_neg hi]
    split_ifs with hk
    · exact iff_of_false Bool.false_ne_true fun h => h.elim hi fun h => h.1 hk
    · refine decide_eq_true_iff.trans ⟨fun h => .inr ⟨hk, h⟩, fun h => ?_⟩
      exact (h.resolve_left hi).2

/-- Ranks are transitive. -/
theorem Item.Outranks.trans {i k l : Item ℚ} (h : i.Outranks k) (h' : k.Outranks l) :
    i.Outranks l := by
  rcases h with h | ⟨hk, h⟩
  · exact .inl h
  · obtain ⟨hl, h'⟩ := h'.resolve_left hk
    exact .inr ⟨hl, h'.trans h⟩

/-- Of two items one outranks the other. -/
theorem Item.Outranks.total (i k : Item ℚ) : i.Outranks k ∨ k.Outranks i := by
  by_cases hi : i.weight = 0
  · exact .inl (.inl hi)
  by_cases hk : k.weight = 0
  · exact .inr (.inl hk)
  rcases le_total (k.value / k.weight) (i.value / i.weight) with h | h
  · exact .inl (.inr ⟨hk, h⟩)
  · exact .inr (.inr ⟨hi, h⟩)

/-- An item is worth its weight at the ratio of every item that it outranks. -/
theorem Item.Outranks.mul_le {i k : Item ℚ} (h : i.Outranks k) (hvalue : 0 ≤ i.value)
    (hweight : 0 ≤ i.weight) : k.value / k.weight * i.weight ≤ i.value := by
  rcases h with h | ⟨-, h⟩
  · rwa [h, mul_zero]
  · rcases hweight.eq_or_lt with hzero | hpos
    · rwa [← hzero, mul_zero]
    · exact (le_div_iff₀ hpos).1 h

/-- An item is not worth more for its weight than an item with weight that outranks it. -/
theorem Item.Outranks.le_mul {i k : Item ℚ} (h : i.Outranks k) (hi : i.weight ≠ 0)
    (hweight : 0 ≤ k.weight) : k.value ≤ i.value / i.weight * k.weight := by
  obtain ⟨hk, h⟩ := h.resolve_left hi
  exact (div_le_iff₀ (hweight.lt_of_ne' hk)).1 h

/-- Every ranked item outranks all items behind it. -/
theorem rank_pairwise (items : List (Item ℚ)) : (rank items).Pairwise Item.Outranks := by
  refine Selection.sortStable_pairwise (R := Item.Outranks) (fun _ _ _ => Item.Outranks.trans)
    (fun i k h => ?_) (fun i k h => ?_) items
  · rw [Bool.not_eq_true', ← Bool.not_eq_true, Item.efficiency_le_iff] at h
    exact (Item.Outranks.total i k).resolve_right h
  · rw [Bool.not_eq_false', Item.efficiency_le_iff] at h
    exact h

/-! ## Choices -/

variable {S : Finset ℕ}

/-- What the slots whose ranks are chosen amount to. -/
def total (S : Finset ℕ) (amount : Item ℚ → ℚ) (ss : List (Slot ℚ)) : ℚ :=
  (ss.map fun s => if s.rank ∈ S then amount s.item else 0).sum

/-- What the items of the chosen ranks amount to. -/
def packed (items : List (Item ℚ)) (S : Finset ℕ) (amount : Item ℚ → ℚ) : ℚ :=
  (items.mapIdx fun k i => if k ∈ S then amount i else 0).sum

/-- The slots that are taken for certain. -/
def settled {α : Type} (ss : List (Slot α)) : List (Slot α) :=
  ss.filter (·.decision = some true)

/-- The slots that are still open. -/
def undecided {α : Type} (ss : List (Slot α)) : List (Slot α) :=
  ss.filter (·.decision.isNone)

/-- The choice agrees with what was decided. -/
def Admits (ss : List (Slot ℚ)) (S : Finset ℕ) : Prop :=
  ∀ s ∈ ss, ∀ b, s.decision = some b → (s.rank ∈ S ↔ b = true)

@[simp] theorem total_cons (S : Finset ℕ) (amount : Item ℚ → ℚ) (s : Slot ℚ)
    (ss : List (Slot ℚ)) : total S amount (s :: ss) =
      (if s.rank ∈ S then amount s.item else 0) + total S amount ss := List.sum_cons

@[simp] theorem total_append (S : Finset ℕ) (amount : Item ℚ → ℚ) (ss ss' : List (Slot ℚ)) :
    total S amount (ss ++ ss') = total S amount ss + total S amount ss' := by
  simp [total]

/-- Amounts that are not negative add up to one that is not. -/
theorem total_nonneg (S : Finset ℕ) {amount : Item ℚ → ℚ} {ss : List (Slot ℚ)}
    (h : ∀ s ∈ ss, 0 ≤ amount s.item) : 0 ≤ total S amount ss := by
  refine List.sum_nonneg fun a ha => ?_
  obtain ⟨s, hs, rfl⟩ := List.mem_map.1 ha
  split_ifs
  · exact h s hs
  · exact le_refl 0

/-- Slots that are all chosen count in full. -/
theorem total_of_chosen {amount : Item ℚ → ℚ} {ss : List (Slot ℚ)}
    (h : ∀ s ∈ ss, s.rank ∈ S) : total S amount ss = (ss.map fun s => amount s.item).sum :=
  congrArg List.sum (List.map_congr_left fun s hs => if_pos (h s hs))

/-- Slots none of which is chosen do not count. -/
theorem total_of_spared {amount : Item ℚ → ℚ} {ss : List (Slot ℚ)}
    (h : ∀ s ∈ ss, s.rank ∉ S) : total S amount ss = 0 := by
  refine List.sum_eq_zero fun a ha => ?_
  obtain ⟨s, hs, rfl⟩ := List.mem_map.1 ha
  exact if_neg (h s hs)

/-- A choice that agrees with the decisions counts the settled slots in full and may still choose
among the open ones. -/
theorem Admits.total_eq {ss : List (Slot ℚ)} (h : Admits ss S) (amount : Item ℚ → ℚ) :
    total S amount ss = ((settled ss).map fun s => amount s.item).sum +
      total S amount (undecided ss) := by
  induction ss with
  | nil => simp [total, settled, undecided]
  | cons s ss ih =>
    obtain ⟨hs, hss⟩ := List.forall_mem_cons.1 h
    rw [total_cons, ih hss]
    cases hd : s.decision with
    | none => simp [settled, undecided, hd]; ring
    | some b =>
      have hmem := hs b hd
      cases b with
      | true => simp [settled, undecided, hd, hmem.2 rfl]; ring
      | false => simp [settled, undecided, hd, hmem]

/-! ## Loads -/

/-- Taking slots one after another adds up their values and weights. -/
theorem foldl_take (ss : List (Slot ℚ)) (l : Load ℚ) : ss.foldl Load.take l =
    ⟨l.taken ++ ss.map (·.rank), l.value + (ss.map (·.item.value)).sum,
      l.weight + (ss.map (·.item.weight)).sum⟩ := by
  induction ss generalizing l with
  | nil => simp
  | cons s ss ih =>
    rw [List.foldl_cons, ih]
    simp [Load.take, add_assoc]

/-- The settled slots, loaded. -/
theorem fixedLoad_eq (ss : List (Slot ℚ)) : fixedLoad ss =
    ⟨(settled ss).map (·.rank), ((settled ss).map (·.item.value)).sum,
      ((settled ss).map (·.item.weight)).sum⟩ := by
  rw [fixedLoad, foldl_take, List.nil_append, zero_add, zero_add]
  rfl

/-! ## Filling up -/

variable {α : Type} [Scalar α] {ss : List (Slot ℚ)}

/-- The load is filled up with open slots from the front. -/
theorem fill_load (tolerance : α) (ss : List (Slot α)) (room bound : α) (load : Load α) :
    ∃ front, front <+: undecided ss ∧
      (fill tolerance ss room bound load).load = front.foldl Load.take load := by
  fun_induction fill tolerance ss room bound load with
  | case1 => exact ⟨[], List.nil_prefix, rfl⟩
  | case2 s rest room bound load hdecided ih =>
    obtain ⟨front, hfront, heq⟩ := ih
    refine ⟨front, ?_, heq⟩
    rwa [undecided, List.filter_cons_of_neg (by simp [Option.isSome_iff_ne_none.1 hdecided])]
  | case3 s rest room bound load hopen _ ih =>
    obtain ⟨front, hfront, heq⟩ := ih
    refine ⟨s :: front, ?_, heq⟩
    rw [undecided, List.filter_cons_of_pos (by simpa using hopen)]
    exact (List.prefix_cons_inj s).2 hfront
  | case4 | case5 => exact ⟨[], List.nil_prefix, rfl⟩

/-- Where no item is split, the bound is what the load is worth. -/
theorem fill_bound (tolerance : α) (ss : List (Slot α)) {room bound : α} {load : Load α}
    (h : load.value = bound) (hsplit : (fill tolerance ss room bound load).split = none) :
    (fill tolerance ss room bound load).bound =
      (fill tolerance ss room bound load).load.value := by
  fun_induction fill tolerance ss room bound load with
  | case1 | case5 => exact h.symm
  | case2 s rest room bound load _ ih => exact ih h hsplit
  | case3 s rest room bound load _ _ ih => exact ih (congrArg (· + s.item.value) h) hsplit
  | case4 => cases hsplit

/-- An item that is split is still open. -/
theorem fill_split {tolerance : α} {ss : List (Slot α)} {room bound : α} {load : Load α}
    {k : ℕ} (h : (fill tolerance ss room bound load).split = some k) :
    ∃ s ∈ ss, s.rank = k ∧ s.decision = none := by
  fun_induction fill tolerance ss room bound load with
  | case1 | case5 => cases h
  | case2 s rest room bound load _ ih | case3 s rest room bound load _ _ ih =>
    obtain ⟨s', hs', h'⟩ := ih h
    exact ⟨s', List.mem_cons_of_mem s hs', h'⟩
  | case4 s rest room bound load hopen =>
    exact ⟨s, List.mem_cons_self, Option.some.inj h, by simpa using hopen⟩

/-- The load grows by the room there is at most, within the tolerance. -/
theorem fill_weight {tolerance : ℚ} (ss : List (Slot ℚ)) {room : ℚ} (hroom : 0 ≤ room + tolerance)
    (bound : ℚ) (load : Load ℚ) : (fill tolerance ss room bound load).load.weight ≤
      load.weight + (room + tolerance) := by
  fun_induction fill tolerance ss room bound load with
  | case1 | case4 | case5 => exact le_add_of_nonneg_right hroom
  | case2 s rest room bound load _ ih => exact ih hroom
  | case3 s rest room bound load _ hfits ih =>
    have hleft : 0 ≤ room - s.item.weight + tolerance := by linarith
    refine (ih hleft).trans_eq ?_
    simp only [Load.take]
    ring

/-- Where no slot is worth more than its weight at some rate, no choice of slots is. -/
theorem total_le_mul {rate : ℚ}
    (h : ∀ s ∈ ss, s.item.value ≤ rate * s.item.weight) (S : Finset ℕ) :
    total S Item.value ss ≤ rate * total S Item.weight ss := by
  induction ss with
  | nil => simp [total]
  | cons s ss ih =>
    obtain ⟨hs, hss⟩ := List.forall_mem_cons.1 h
    have ih := ih hss
    rw [total_cons, total_cons, mul_add]
    split_ifs
    · exact add_le_add hs ih
    · rwa [mul_zero, zero_add, zero_add]

/-- The rates that the slots allow: an item that outranks all of them pays at least as much for its
weight. -/
def Allows (ss : List (Slot ℚ)) (rate : ℚ) : Prop :=
  0 ≤ rate ∧ ∀ i : Item ℚ, 0 ≤ i.value → 0 ≤ i.weight → (∀ s ∈ ss, i.Outranks s.item) →
    rate * i.weight ≤ i.value

/-- One slot more allows the same rates. -/
theorem Allows.cons {rate : ℚ} (h : Allows ss rate) (s : Slot ℚ) : Allows (s :: ss) rate :=
  ⟨h.1, fun i hv hw hi => h.2 i hv hw (List.forall_mem_cons.1 hi).2⟩

/-- The ratio of the first slot is allowed, and at this rate no choice of open slots is worth more
than its weight. -/
theorem allows_ratio {s : Slot ℚ} {rest : List (Slot ℚ)}
    (hpos : ∀ t ∈ s :: rest, 0 ≤ t.item.value ∧ 0 ≤ t.item.weight)
    (hrank : ∀ t ∈ rest, s.item.Outranks t.item) (hs : s.item.weight ≠ 0) :
    Allows (s :: rest) (s.item.value / s.item.weight) ∧
      ∀ S, total S Item.value (undecided (s :: rest)) ≤
        s.item.value / s.item.weight * total S Item.weight (undecided (s :: rest)) := by
  obtain ⟨⟨hvalue, hweight⟩, hrest⟩ := List.forall_mem_cons.1 hpos
  refine ⟨⟨div_nonneg hvalue hweight, fun i hv hw hi =>
    (hi s List.mem_cons_self).mul_le hv hw⟩, total_le_mul fun t ht => ?_⟩
  rcases List.mem_cons.1 (List.mem_of_mem_filter ht) with rfl | ht
  · rw [div_mul_cancel₀ _ hs]
  · exact (hrank t ht).le_mul hs (hrest t ht).2

/-- There is a rate at which no choice of open slots gains on the bound: what it exceeds the bound
by, it pays for with weight beyond the room. -/
theorem fill_rate (hpos : ∀ s ∈ ss, 0 ≤ s.item.value ∧ 0 ≤ s.item.weight)
    (hrank : ss.Pairwise fun s s' => s.item.Outranks s'.item) {room : ℚ} (hroom : 0 ≤ room)
    (bound : ℚ) (load : Load ℚ) :
    ∃ rate, Allows ss rate ∧ ∀ S, bound + total S Item.value (undecided ss) ≤
      (fill 0 ss room bound load).bound +
        rate * (total S Item.weight (undecided ss) - room) := by
  fun_induction fill 0 ss room bound load with
  | case1 room bound load =>
    refine ⟨0, ⟨le_refl 0, fun i hv _ _ => by rwa [zero_mul]⟩, fun S => ?_⟩
    simp [total, undecided]
  | case2 s rest room bound load hdecided ih =>
    obtain ⟨rate, hallows, hgain⟩ := ih (List.forall_mem_cons.1 hpos).2
      (List.pairwise_cons.1 hrank).2 hroom
    refine ⟨rate, hallows.cons s, fun S => ?_⟩
    rw [undecided, List.filter_cons_of_neg (by simp [Option.isSome_iff_ne_none.1 hdecided])]
    exact hgain S
  | case3 s rest room bound load hopen hfits ih =>
    obtain ⟨⟨hvalue, hweight⟩, hpos⟩ := List.forall_mem_cons.1 hpos
    obtain ⟨hfirst, hrank⟩ := List.pairwise_cons.1 hrank
    rw [add_zero] at hfits
    obtain ⟨rate, hallows, hgain⟩ := ih hpos hrank (sub_nonneg.2 hfits)
    refine ⟨rate, hallows.cons s, fun S => ?_⟩
    have hgain := hgain S
    have hopened : undecided (s :: rest) = s :: undecided rest :=
      List.filter_cons_of_pos (by simpa using hopen)
    -- an item that is left out would have paid for its weight
    have hpays := hallows.2 s.item hvalue hweight hfirst
    rw [hopened, total_cons, total_cons]
    split_ifs
    · linarith
    · linarith
  | case4 s rest room bound load hopen hfits hmore =>
    rw [add_zero, not_le] at hfits
    obtain ⟨hallows, htotal⟩ := allows_ratio hpos (List.pairwise_cons.1 hrank).1
      (hroom.trans_lt hfits).ne'
    refine ⟨_, hallows, fun S => ?_⟩
    have htotal := htotal S
    rw [mul_sub, mul_div_right_comm]
    linarith
  | case5 s rest room bound load hopen hfits hmore =>
    rw [add_zero, not_le] at hfits
    obtain ⟨hallows, htotal⟩ := allows_ratio hpos (List.pairwise_cons.1 hrank).1
      (hroom.trans_lt hfits).ne'
    refine ⟨_, hallows, fun S => ?_⟩
    rw [le_antisymm (not_lt.1 hmore) hroom, sub_zero]
    exact add_le_add_right (htotal S) bound

/-- The bound is not less than what the load is worth with any further choice of open slots for
which there is room. -/
theorem le_fill_bound (hpos : ∀ s ∈ ss, 0 ≤ s.item.value ∧ 0 ≤ s.item.weight)
    (hrank : ss.Pairwise fun s s' => s.item.Outranks s'.item) {room : ℚ} (hroom : 0 ≤ room)
    (bound : ℚ) (load : Load ℚ) (hS : total S Item.weight (undecided ss) ≤ room) :
    bound + total S Item.value (undecided ss) ≤ (fill 0 ss room bound load).bound := by
  obtain ⟨rate, hallows, hgain⟩ := fill_rate hpos hrank hroom bound load
  refine (hgain S).trans (add_le_of_nonpos_right ?_)
  exact mul_nonpos_of_nonneg_of_nonpos hallows.1 (sub_nonpos.2 hS)

/-! ## Nodes -/

section Slots

variable {α : Type} {items : List (Item α)} {decisions : List (Option Bool)}

/-- The slots of a node, by rank. -/
theorem mem_slots {s : Slot α} : s ∈ slots items decisions ↔
    items[s.rank]? = some s.item ∧ decisions[s.rank]? = some s.decision := by
  obtain ⟨k, i, d⟩ := s
  rw [slots, List.mem_iff_getElem?]
  simp only [List.getElem?_mapIdx, Option.map_eq_some_iff, List.getElem?_zip_eq_some,
    Slot.mk.injEq, Prod.exists]
  constructor
  · rintro ⟨n, i', d', h, rfl, rfl, rfl⟩
    exact h
  · exact fun h => ⟨k, i, d, h, rfl, rfl, rfl⟩

/-- The slots hold the ranked items. -/
theorem map_item_slots (h : decisions.length = items.length) :
    (slots items decisions).map (·.item) = items := by
  refine List.ext_getElem (by simp [slots, h]) fun k _ _ => ?_
  simp [slots]

/-- No two slots have one rank. -/
theorem nodup_rank_slots (items : List (Item α)) (decisions : List (Option Bool)) :
    ((slots items decisions).map (·.rank)).Nodup := by
  rw [show (slots items decisions).map (·.rank) = List.range (items.zip decisions).length from
    List.ext_getElem (by simp [slots]) fun k _ _ => by simp [slots]]
  exact List.nodup_range

end Slots

/-- There is no relaxation only if the items that are fixed exceed the capacity. -/
theorem relax_eq_none {tolerance : α} {items : List (Item α)} {capacity : α}
    {decisions : List (Option Bool)} (h : relax tolerance items capacity decisions = none) :
    (fixedLoad (slots items decisions)).weight > capacity + tolerance := by
  by_contra hover
  cases h.symm.trans (if_neg hover)

/-- A relaxation fills what the items that are fixed leave of the capacity. -/
theorem relax_eq_some {tolerance : α} {items : List (Item α)} {capacity : α}
    {decisions : List (Option Bool)} {r : Relaxation α}
    (h : relax tolerance items capacity decisions = some r) :
    let load := fixedLoad (slots items decisions)
    ¬load.weight > capacity + tolerance ∧
      r = fill tolerance (slots items decisions) (capacity - load.weight) load.value load := by
  obtain ⟨hover, hfill⟩ := Option.ite_none_left_eq_some.1 h
  exact ⟨hover, (Option.some.inj hfill).symm⟩

/-- An item that a relaxation splits was left open by the node. -/
theorem relax_split {tolerance : α} {items : List (Item α)} {capacity : α}
    {decisions : List (Option Bool)} {r : Relaxation α} {k : ℕ}
    (h : relax tolerance items capacity decisions = some r) (hsplit : r.split = some k) :
    k < items.length ∧ decisions[k]? = some none := by
  obtain ⟨-, rfl⟩ := relax_eq_some h
  obtain ⟨s, hs, rfl, hopen⟩ := fill_split hsplit
  obtain ⟨hitem, hdecision⟩ := mem_slots.1 hs
  exact ⟨(List.getElem?_eq_some_iff.1 hitem).1, hopen ▸ hdecision⟩

/-- The load of a relaxation exceeds the capacity by the tolerance at most. -/
theorem relax_weight {tolerance capacity : ℚ} {items : List (Item ℚ)}
    {decisions : List (Option Bool)} {r : Relaxation ℚ}
    (h : relax tolerance items capacity decisions = some r) :
    r.load.weight ≤ capacity + tolerance := by
  obtain ⟨hover, rfl⟩ := relax_eq_some h
  have hroom : 0 ≤ capacity - (fixedLoad (slots items decisions)).weight + tolerance := by
    linarith [not_lt.1 hover]
  refine (fill_weight _ hroom _ _).trans_eq ?_
  ring

section Taken
variable {α : Type} {ss front : List (Slot α)} {s : Slot α} (hfront : front <+: undecided ss)
include hfront

/-- The slots taken are among those of the node. -/
theorem mem_of_taken (hs : s ∈ settled ss ++ front) : s ∈ ss :=
  (List.mem_append.1 hs).elim List.mem_of_mem_filter
    fun h => List.mem_of_mem_filter (hfront.mem h)

/-- Of the slots that are decided, those are taken that are settled. -/
theorem taken_iff (hs : s ∈ ss) {b : Bool} (hb : s.decision = some b) :
    s ∈ settled ss ++ front ↔ b = true := by
  rw [List.mem_append]
  constructor
  · rintro (h | h)
    · exact Option.some.inj (hb.symm.trans (of_decide_eq_true (List.mem_filter.1 h).2))
    · have hopen := List.of_mem_filter (hfront.mem h)
      rw [hb] at hopen
      cases hopen
  · rintro rfl
    exact .inl (List.mem_filter.2 ⟨hs, decide_eq_true hb⟩)

/-- No slot is taken twice. -/
theorem nodup_taken (hnodup : (ss.map (·.rank)).Nodup) :
    ((settled ss ++ front).map (·.rank)).Nodup := by
  have hslots := List.Nodup.of_map _ hnodup
  have hdisjoint : List.Disjoint (settled ss) front := by
    intro s hs hs'
    have hopen := List.of_mem_filter (hfront.mem hs')
    rw [of_decide_eq_true (List.mem_filter.1 hs).2] at hopen
    cases hopen
  refine List.Nodup.map_on (fun s hs s' hs' => ?_)
    ((hslots.filter _).append ((hslots.filter _).sublist hfront.sublist) hdisjoint)
  exact List.inj_on_of_nodup_map hnodup (mem_of_taken hfront hs) (mem_of_taken hfront hs')

end Taken

/-- What a relaxation loads are slots of the node: each once, and of those that are decided, all
that are taken for certain and no others. -/
theorem relax_taken {tolerance : α} {items : List (Item α)} {capacity : α}
    {decisions : List (Option Bool)} {r : Relaxation α}
    (h : relax tolerance items capacity decisions = some r) : ∃ taken : List (Slot α),
      (∀ s ∈ taken, s ∈ slots items decisions) ∧ (taken.map (·.rank)).Nodup ∧
      (∀ s ∈ slots items decisions, ∀ b, s.decision = some b → (s ∈ taken ↔ b = true)) ∧
      r.load = taken.foldl Load.take ⟨[], 0, 0⟩ := by
  obtain ⟨-, rfl⟩ := relax_eq_some h
  obtain ⟨front, hfront, heq⟩ := fill_load tolerance (slots items decisions)
    (capacity - (fixedLoad (slots items decisions)).weight)
    (fixedLoad (slots items decisions)).value (fixedLoad (slots items decisions))
  refine ⟨settled (slots items decisions) ++ front, fun s => mem_of_taken hfront,
    nodup_taken hfront (nodup_rank_slots items decisions),
    fun s hs b => taken_iff hfront hs, heq.trans ?_⟩
  rw [List.foldl_append]
  rfl

section Choice
variable (hnodup : (ss.map (·.rank)).Nodup) {front : List (Slot ℚ)}
  (hfront : front <+: undecided ss)
include hnodup hfront

/-- The ranks that a load takes are those of its slots. -/
theorem rank_mem_taken_iff {s : Slot ℚ} (hs : s ∈ ss) :
    s.rank ∈ (front.foldl Load.take (fixedLoad ss)).taken.toFinset ↔
      s ∈ settled ss ++ front := by
  rw [List.mem_toFinset, foldl_take, fixedLoad_eq, ← List.map_append, List.mem_map]
  constructor
  · rintro ⟨s', hs', hrank⟩
    rwa [← List.inj_on_of_nodup_map hnodup (mem_of_taken hfront hs') hs hrank]
  · exact fun h => ⟨s, h, rfl⟩

/-- Settled slots, filled up with open ones, are a choice that agrees with the decisions. -/
theorem admits_taken : Admits ss (front.foldl Load.take (fixedLoad ss)).taken.toFinset :=
  fun _ hs _ hb => (rank_mem_taken_iff hnodup hfront hs).trans (taken_iff hfront hs hb)

/-- The choice amounts to what its slots do. -/
theorem total_taken (amount : Item ℚ → ℚ) :
    total (front.foldl Load.take (fixedLoad ss)).taken.toFinset amount ss =
      ((settled ss).map fun s => amount s.item).sum + (front.map fun s => amount s.item).sum := by
  have hmem := fun {s} => rank_mem_taken_iff hnodup hfront (s := s)
  have hadmits := admits_taken hnodup hfront
  obtain ⟨back, hback⟩ := hfront
  have hopen : ∀ s ∈ front ++ back, s ∈ ss ∧ s.decision.isNone := fun s hs =>
    List.mem_filter.1 (hback ▸ hs)
  have hdisjoint : (front ++ back).Nodup := hback ▸ (List.Nodup.of_map _ hnodup).filter _
  rw [hadmits.total_eq, ← hback, total_append, total_of_chosen, total_of_spared, add_zero]
  · intro s hs
    obtain ⟨hin, hnone⟩ := hopen s (List.mem_append_right front hs)
    rw [hmem hin, List.mem_append, settled, List.mem_filter, Option.isNone_iff_eq_none.1 hnone]
    rintro (⟨-, h⟩ | h)
    · cases h
    · exact (List.nodup_append.1 hdisjoint).2.2 s h s hs rfl
  · exact fun s hs => (hmem (hopen s (List.mem_append_left back hs)).1).2
      (List.mem_append_right _ hs)

/-- The load counts what the choice amounts to. -/
theorem load_taken : (front.foldl Load.take (fixedLoad ss)).value =
      total (front.foldl Load.take (fixedLoad ss)).taken.toFinset Item.value ss ∧
    (front.foldl Load.take (fixedLoad ss)).weight =
      total (front.foldl Load.take (fixedLoad ss)).taken.toFinset Item.weight ss := by
  rw [total_taken hnodup hfront, total_taken hnodup hfront, foldl_take, fixedLoad_eq]
  exact ⟨rfl, rfl⟩

end Choice

variable {items : List (Item ℚ)} {capacity : ℚ} {decisions : List (Option Bool)}

/-- What the chosen slots of a node amount to does not depend on its decisions. -/
theorem total_slots (h : decisions.length = items.length) (S : Finset ℕ)
    (amount : Item ℚ → ℚ) : total S amount (slots items decisions) = packed items S amount := by
  refine congrArg List.sum (List.ext_getElem (by simp [slots, h]) fun k _ _ => ?_)
  simp [slots]

/-- What a choice amounts to that a node admits, in terms of the load that is taken for certain. -/
theorem Admits.packed_eq (h : decisions.length = items.length)
    (hS : Admits (slots items decisions) S) :
    packed items S Item.value = (fixedLoad (slots items decisions)).value +
        total S Item.value (undecided (slots items decisions)) ∧
      packed items S Item.weight = (fixedLoad (slots items decisions)).weight +
        total S Item.weight (undecided (slots items decisions)) := by
  rw [← total_slots h, ← total_slots h, hS.total_eq, hS.total_eq, fixedLoad_eq]
  exact ⟨rfl, rfl⟩

variable (hpos : ∀ i ∈ items, 0 ≤ i.value ∧ 0 ≤ i.weight)
  (hlen : decisions.length = items.length)

include hpos hlen

/-- A node that takes more than fits admits no choice that fits. -/
theorem relax_none (h : relax 0 items capacity decisions = none)
    (hS : Admits (slots items decisions) S) : capacity < packed items S Item.weight := by
  have hover := relax_eq_none h
  rw [add_zero] at hover
  rw [(hS.packed_eq hlen).2]
  refine hover.trans_le (le_add_of_nonneg_right (total_nonneg S fun s hs => ?_))
  exact (hpos _ (List.mem_of_getElem? (mem_slots.1 (List.mem_of_mem_filter hs)).1)).2

/-- The bound of a relaxation is not less than the value of any choice that the node admits and that
fits. -/
theorem relax_bound (hrank : items.Pairwise Item.Outranks) {r : Relaxation ℚ}
    (h : relax 0 items capacity decisions = some r) (hS : Admits (slots items decisions) S)
    (hfits : packed items S Item.weight ≤ capacity) : packed items S Item.value ≤ r.bound := by
  obtain ⟨hover, rfl⟩ := relax_eq_some h
  rw [add_zero, not_lt] at hover
  obtain ⟨hvalue, hweight⟩ := hS.packed_eq hlen
  rw [hvalue]
  refine le_fill_bound (fun s hs => hpos _ (List.mem_of_getElem? (mem_slots.1 hs).1)) ?_
    (sub_nonneg.2 hover) _ _ ?_
  · rw [← List.pairwise_map, map_item_slots hlen]
    exact hrank
  · rw [hweight] at hfits
    exact le_sub_iff_add_le'.2 hfits

omit hpos

/-- The load of a relaxation is a choice that the node admits and that fits. -/
theorem relax_load {r : Relaxation ℚ} (h : relax 0 items capacity decisions = some r) :
    Admits (slots items decisions) r.load.taken.toFinset ∧
      r.load.value = packed items r.load.taken.toFinset Item.value ∧
      r.load.weight = packed items r.load.taken.toFinset Item.weight ∧
      packed items r.load.taken.toFinset Item.weight ≤ capacity := by
  obtain ⟨-, rfl⟩ := relax_eq_some h
  have hload := relax_weight h
  obtain ⟨front, hfront, heq⟩ := fill_load 0 (slots items decisions)
    (capacity - (fixedLoad (slots items decisions)).weight)
    (fixedLoad (slots items decisions)).value (fixedLoad (slots items decisions))
  have hnodup := nodup_rank_slots items decisions
  have hadmits := admits_taken hnodup hfront
  obtain ⟨hvalue, hweight⟩ := load_taken hnodup hfront
  rw [heq, add_zero] at hload
  rw [heq, ← total_slots hlen, ← total_slots hlen]
  exact ⟨hadmits, hvalue, hweight, hweight ▸ hload⟩

end LinOpt.Knapsack
