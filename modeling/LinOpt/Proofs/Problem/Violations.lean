import Mathlib.Order.Bounds.Basic
import LinOpt.Problem.Violations
import LinOpt.Proofs.Arithmetic
import LinOpt.Proofs.Selection

/-!
# What a list of violations says

A constraint is tested by moving its right-hand side by the tolerance, and the amount of a violation
is computed from both sides directly. The two agree: a point satisfies a constraint within exactly
the tolerances that are not below the excess (`Constraint.isSatisfied_iff_excess_le`), and the
excess of a violated constraint is the distance of its left-hand side from the values that would do
(`Relation.isLeast_excess`). The violations as they are found are the violated constraints, each
once and in order (`Problem.mem_violated`, `Problem.violated_pairwise`). Sorting them by amount
leaves equally bad ones in that order (`Problem.violations_pairwise`).
-/

namespace LinOpt

variable {tolerance : ℚ} {x : List ℚ}

/-! ## Excess -/

/-- The comparison, for exact values. -/
def Relation.Holds : Relation → ℚ → ℚ → Prop
  | .le, lhs, rhs => lhs ≤ rhs
  | .ge, lhs, rhs => rhs ≤ lhs
  | .eq, lhs, rhs => lhs = rhs

/-- A positive excess is the distance from the nearest value for which the comparison holds. -/
theorem Relation.isLeast_excess {r : Relation} {lhs rhs : ℚ} (h : 0 < r.excess lhs rhs) :
    IsLeast {d | ∃ y, r.Holds y rhs ∧ |lhs - y| = d} (r.excess lhs rhs) := by
  cases r with
  | le =>
    refine ⟨⟨rhs, le_rfl, abs_of_pos h⟩, ?_⟩
    rintro _ ⟨y, hy, rfl⟩
    exact (sub_le_sub_left hy lhs).trans (le_abs_self _)
  | ge =>
    refine ⟨⟨rhs, le_rfl, (abs_sub_comm lhs rhs).trans (abs_of_pos h)⟩, ?_⟩
    rintro _ ⟨y, hy, rfl⟩
    rw [abs_sub_comm]
    exact (sub_le_sub_right hy lhs).trans (le_abs_self _)
  | eq =>
    refine ⟨⟨rhs, rfl, rfl⟩, ?_⟩
    rintro _ ⟨y, rfl, rfl⟩
    exact le_rfl

/-- A point satisfies a constraint within the tolerances from its excess on. -/
theorem Constraint.isSatisfied_iff_excess_le (c : Constraint ℚ) :
    c.IsSatisfied x tolerance ↔ c.relation.excess (c.lhs x) c.rhs ≤ tolerance := by
  unfold IsSatisfied Relation.excess
  cases c.relation with
  | le => exact sub_le_iff_le_add'.symm
  | ge => exact sub_le_comm
  | eq => exact Iff.rfl

/-! ## The violated constraints -/

/-- A violation tells of a constraint: its right-hand side, its left-hand side at the point, and the
distance between that and the nearest value for which the comparison holds. -/
structure Violation.Describes (v : Violation ℚ) (c : Constraint ℚ) (x : List ℚ) : Prop where
  relation_eq : v.relation = c.relation
  required_eq : v.required = c.rhs
  actual_eq : v.actual = c.lhs x
  isLeast_amount : IsLeast {d | ∃ y, c.relation.Holds y c.rhs ∧ |c.lhs x - y| = d} v.amount

/-- There is a violation where the constraint is not satisfied. -/
theorem Constraint.violation?_eq_some {c : Constraint ℚ} {i : ℕ} {v : Violation ℚ} :
    c.violation? x tolerance i = some v ↔ ¬c.IsSatisfied x tolerance ∧
      ⟨i, c.relation, c.rhs, c.lhs x, c.relation.excess (c.lhs x) c.rhs⟩ = v := by
  unfold violation?
  split_ifs with h <;> simp [h]

/-- What is found at a constraint is more than the tolerance and describes the constraint. -/
theorem Constraint.describes_of_violation? (ht : 0 ≤ tolerance) {c : Constraint ℚ} {i : ℕ}
    {v : Violation ℚ} (h : c.violation? x tolerance i = some v) :
    tolerance < v.amount ∧ v.Describes c x := by
  obtain ⟨hnot, rfl⟩ := violation?_eq_some.1 h
  have hlt : tolerance < c.relation.excess (c.lhs x) c.rhs :=
    not_le.1 fun hle => hnot (c.isSatisfied_iff_excess_le.2 hle)
  exact ⟨hlt, rfl, rfl, rfl, Relation.isLeast_excess (ht.trans_lt hlt)⟩

namespace Problem

variable {p : Problem ℚ}

/-- The violations in order of the constraints. -/
def violated (p : Problem ℚ) (x : List ℚ) (tolerance : ℚ) : List (Violation ℚ) :=
  (p.constraints.mapIdx fun i c => c.violation? x tolerance i).filterMap id

/-- Sorting the violations loses none. -/
theorem violations_perm (p : Problem ℚ) (x : List ℚ) (tolerance : ℚ) :
    (p.violations x tolerance).Perm (p.violated x tolerance) := Selection.sortStable_perm _ _

/-- The violations that are found are those of the constraints. -/
theorem mem_violated {v : Violation ℚ} : v ∈ p.violated x tolerance ↔
    ∃ c, p.constraints[v.constraint]? = some c ∧
      c.violation? x tolerance v.constraint = some v := by
  simp only [violated, List.mem_filterMap, List.mem_mapIdx, id_eq]
  constructor
  · rintro ⟨_, ⟨i, hi, rfl⟩, hv⟩
    obtain ⟨-, rfl⟩ := Constraint.violation?_eq_some.1 hv
    exact ⟨_, List.getElem?_eq_getElem hi, hv⟩
  · rintro ⟨c, hc, hv⟩
    obtain ⟨hi, rfl⟩ := List.getElem?_eq_some_iff.1 hc
    exact ⟨_, ⟨v.constraint, hi, rfl⟩, hv⟩

/-- Violations are found in the order of the constraints. -/
theorem violated_pairwise (p : Problem ℚ) (x : List ℚ) (tolerance : ℚ) :
    (p.violated x tolerance).Pairwise fun v w => v.constraint < w.constraint := by
  refine List.pairwise_filterMap.2 (List.pairwise_iff_getElem.2 fun i j hi hj hij v hv w hw => ?_)
  rw [List.getElem_mapIdx] at hv hw
  obtain ⟨-, rfl⟩ := Constraint.violation?_eq_some.1 hv
  obtain ⟨-, rfl⟩ := Constraint.violation?_eq_some.1 hw
  exact hij

/-- The worst violations come first, and equally bad ones in order of the constraints. -/
theorem violations_pairwise (p : Problem ℚ) (x : List ℚ) (tolerance : ℚ) :
    (p.violations x tolerance).Pairwise fun v w =>
      w.amount < v.amount ∨ v.amount = w.amount ∧ v.constraint < w.constraint := by
  refine Selection.sortStable_pairwise_of_pairwise ?_ (fun v w h => .inl (of_decide_eq_true h))
    ((p.violated_pairwise x tolerance).imp fun {v w} hvw h => ?_)
  · rintro u v w (huv | ⟨huv, hlt⟩) (hvw | ⟨hvw, hlt'⟩)
    · exact .inl (hvw.trans huv)
    · exact .inl (hvw ▸ huv)
    · exact .inl (huv ▸ hvw)
    · exact .inr ⟨huv.trans hvw, hlt.trans hlt'⟩
  · rcases (not_lt.1 (of_decide_eq_false h)).lt_or_eq with hlt | heq
    · exact .inl hlt
    · exact .inr ⟨heq.symm, hvw⟩

/-- The numbers of the violated constraints. -/
theorem mem_map_violated {i : ℕ} : i ∈ (p.violated x tolerance).map (·.constraint) ↔
    ∃ c, p.constraints[i]? = some c ∧ ¬c.IsSatisfied x tolerance := by
  rw [List.mem_map]
  constructor
  · rintro ⟨v, hv, rfl⟩
    obtain ⟨c, hc, hv⟩ := mem_violated.1 hv
    exact ⟨c, hc, (Constraint.violation?_eq_some.1 hv).1⟩
  · rintro ⟨c, hc, hnot⟩
    let v : Violation ℚ := ⟨i, c.relation, c.rhs, c.lhs x, c.relation.excess (c.lhs x) c.rhs⟩
    exact ⟨v, mem_violated.2 ⟨c, hc, Constraint.violation?_eq_some.2 ⟨hnot, rfl⟩⟩, rfl⟩

/-- The violations at a point are the constraints that it does not satisfy within the tolerance,
each once and with the distance by which it fails. The worst come first, and equally bad ones in
order of the problem; there are none exactly if every constraint is satisfied. -/
theorem violations_spec (p : Problem ℚ) (x : List ℚ) {tolerance : ℚ} (ht : 0 ≤ tolerance) :
    ((p.violations x tolerance).map (·.constraint)).Nodup ∧
    (∀ i, i ∈ (p.violations x tolerance).map (·.constraint) ↔
      ∃ c, p.constraints[i]? = some c ∧ ¬c.IsSatisfied x tolerance) ∧
    (∀ v ∈ p.violations x tolerance, tolerance < v.amount ∧
      ∃ c, p.constraints[v.constraint]? = some c ∧ v.Describes c x) ∧
    ((p.violations x tolerance).Pairwise fun v w =>
      w.amount < v.amount ∨ v.amount = w.amount ∧ v.constraint < w.constraint) ∧
    (p.violations x tolerance = [] ↔ ∀ c ∈ p.constraints, c.IsSatisfied x tolerance) := by
  have hperm := p.violations_perm x tolerance
  have hmem : ∀ i, i ∈ (p.violations x tolerance).map (·.constraint) ↔
      ∃ c, p.constraints[i]? = some c ∧ ¬c.IsSatisfied x tolerance :=
    fun i => (hperm.map _).mem_iff.trans mem_map_violated
  refine ⟨?_, hmem, fun v hv => ?_, p.violations_pairwise x tolerance, ?_⟩
  · refine (hperm.map _).nodup_iff.2 (List.pairwise_map.2 ?_)
    exact (p.violated_pairwise x tolerance).imp Nat.ne_of_lt
  · obtain ⟨c, hc, hv⟩ := mem_violated.1 (hperm.mem_iff.1 hv)
    obtain ⟨hlt, hdescribes⟩ := Constraint.describes_of_violation? ht hv
    exact ⟨hlt, c, hc, hdescribes⟩
  · rw [← List.map_eq_nil_iff (f := (·.constraint)), List.eq_nil_iff_forall_not_mem]
    simp only [hmem, not_exists, not_and, not_not]
    constructor
    · intro h c hc
      obtain ⟨i, hi⟩ := List.mem_iff_getElem?.1 hc
      exact h i c hi
    · exact fun h i c hc => h c (List.mem_of_getElem? hc)

/-- A row that is exceeded, one that is not reached, an equality that is missed by as much, and one
that holds within the tolerance. -/
theorem violations_spec_tie :
    let p : Problem ℚ :=
      { sense := .maximize
        constraints :=
          [⟨[1, 0], .le, 1⟩, ⟨[0, 1], .ge, 5⟩, ⟨[1, 1], .eq, 2⟩, ⟨[1, 1], .eq, 13 / 4⟩] }
    0 ≤ (1 / 4 : ℚ) ∧ (p.violations [2, 1] (1 / 4)).map (·.constraint) = [1, 0, 2] ∧
      (∀ v ∈ p.violations [2, 1] (1 / 4), 1 / 4 < v.amount ∧
        ∃ c, p.constraints[v.constraint]? = some c ∧ v.Describes c [2, 1]) ∧
      ∃ c, p.constraints[2]? = some c ∧ ¬c.IsSatisfied [2, 1] (1 / 4) := by
  intro p
  have ht : 0 ≤ (1 / 4 : ℚ) := by norm_num
  have hlist : (p.violations [2, 1] (1 / 4)).map (·.constraint) = [1, 0, 2] := by decide +kernel
  obtain ⟨-, hmem, hdescribes, -⟩ := p.violations_spec [2, 1] ht
  exact ⟨ht, hlist, hdescribes, (hmem 2).1 (by rw [hlist]; decide)⟩

end Problem
end LinOpt
