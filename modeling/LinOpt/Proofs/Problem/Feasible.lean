import Mathlib.Data.List.Forall2
import Mathlib.Data.List.GetD
import Mathlib.Order.Bounds.Basic
import LinOpt.Proofs.Arithmetic
import LinOpt.Proofs.Changes
import LinOpt.Simplex.Dual.Model
import LinOpt.Simplex.Primal

/-!
# Feasible points and best values

What a problem asks for, apart from every method: its feasible points, where each restriction is
relaxed to an interval (`Restriction.Admits`), the points among them that are integral at given
variables, and the best of a set of values in the sense of the problem (`Sense.IsBest`).

A problem that grew since it was solved is a `Posed`: its standard rows are the constraints, the
bounds of the binary variables and the constraints added since, in this order, and a point is
feasible where it suits the placements of the variables and satisfies every row
(`Posed.feasible_iff`). At a point every row determines the value of its auxiliary column
(`Constraint.residual`).
-/

namespace LinOpt

variable {α : Type}

/-- The values a restriction admits when integrality is not asked for. -/
def Restriction.Admits : Restriction → ℚ → Prop
  | .nonPositive, x => x ≤ 0
  | .unrestricted, _ => True
  | .binary, x => 0 ≤ x ∧ x ≤ 1
  | .nonNegative, x | .integer, x | .continuous, x => 0 ≤ x

/-- The values a placement in non-negative columns can take. -/
def Placement.Admits : Placement → ℚ → Prop
  | .direct, x => 0 ≤ x
  | .negated, x => x ≤ 0
  | .split, _ => True

/-- The best of a set of values: the greatest or the least. -/
def Sense.IsBest : Sense → Set ℚ → ℚ → Prop
  | .maximize, S, v => IsGreatest S v
  | .minimize, S, v => IsLeast S v

/-- The first value is strictly better than the second. -/
def Sense.Beats : Sense → ℚ → ℚ → Prop
  | .maximize, v, w => w < v
  | .minimize, v, w => v < w

namespace Problem

/-- Every variable knows its position, as in all problems that grow variable by variable. -/
def Indexed (p : Problem α) : Prop :=
  ∀ (i : ℕ) (v : Variable α), p.vars[i]? = some v → v.index = i

/-- A point within all restrictions, integrality apart, that satisfies all constraints. -/
structure Feasible (p : Problem ℚ) (x : List ℚ) : Prop where
  restrictions : List.Forall₂ (fun v a => v.restriction.Admits a) p.vars x
  constraints : ∀ c ∈ p.constraints, c.IsSatisfied x 0

/-- Variable `i` is to be integral: it is restricted so, or no variable is. -/
def IsInteger (p : Problem α) (i : ℕ) : Prop :=
  i < p.vars.length ∧
    ((∃ v, p.vars[i]? = some v ∧ v.restriction.isIntegral) ∨
      ∀ v ∈ p.vars, v.restriction.isIntegral = false)

/-- A feasible point with integers in the variables that `integer` names. -/
structure IntegerFeasible (p : Problem ℚ) (integer : ℕ → Prop) (x : List ℚ) : Prop where
  feasible : p.Feasible x
  integral : ∀ i, integer i → ∃ n : ℤ, x.getD i 0 = n

/-- A feasible point has a value for every variable. -/
theorem Feasible.length_eq {p : Problem ℚ} {x : List ℚ} (h : p.Feasible x) :
    x.length = p.numVariables := h.restrictions.length_eq.symm

/-! ## Positions -/

/-- A problem without variables is indexed. -/
theorem Indexed.empty (s : Sense) : (Problem.empty s : Problem α).Indexed := by
  intro i v h
  cases h

/-- Restricting anew keeps the positions. -/
theorem Indexed.withRestrictions {p q : Problem α} (h : p.Indexed) {rs : List Restriction}
    (hq : p.withRestrictions rs = .ok q) : q.Indexed := by
  rw [Problem.withRestrictions_eq] at hq
  split_ifs at hq
  obtain rfl := Except.ok.inj hq
  intro i v hv
  obtain ⟨v', r, hv', -, rfl⟩ := List.getElem?_zipWith_eq_some.1 hv
  exact h i v' hv'

variable [Scalar α]

/-- A variable added behind the others has the next position. -/
theorem Indexed.addVariable {p : Problem α} (h : p.Indexed) (objective : α) (r : Restriction) :
    (p.addVariable objective r).Indexed := by
  intro i v hv
  have hv : (p.vars ++ [⟨p.numVariables, objective, r⟩])[i]? = some v := hv
  rcases Nat.lt_trichotomy i p.vars.length with hi | hi | hi
  · rw [List.getElem?_append_left hi] at hv
    exact h i v hv
  · subst hi
    rw [List.getElem?_concat_length] at hv
    rw [← Option.some.inj hv]
    rfl
  · rw [List.getElem?_eq_none (by rw [List.length_append, List.length_singleton]; omega)] at hv
    cases hv

/-- The variables of an objective are indexed. -/
theorem Indexed.ofObjective (s : Sense) (objective : List α) :
    (Problem.ofObjective s objective).Indexed := by
  have hfold : ∀ (cs : List α) (p : Problem α), p.Indexed →
      (cs.foldl (fun p c => p.addVariable c .nonNegative) p).Indexed := by
    intro cs
    induction cs with
    | nil => exact fun p hp => hp
    | cons c cs ih => exact fun p hp => ih _ (hp.addVariable c .nonNegative)
  exact hfold objective _ (.empty s)

/-- Constraints do not touch the variables. -/
theorem vars_of_addConstraint {p q : Problem α} {k : Constraint α}
    (hq : p.addConstraint k = .ok q) : q.vars = p.vars := by
  rw [addConstraint_eq] at hq
  split_ifs at hq
  rw [← Except.ok.inj hq]

/-- A constraint leaves the variables indexed. -/
theorem Indexed.addConstraint {p q : Problem α} (h : p.Indexed) {k : Constraint α}
    (hq : p.addConstraint k = .ok q) : q.Indexed := by
  intro i v hv
  rw [vars_of_addConstraint hq] at hv
  exact h i v hv

/-- The variables that are restricted to integers, by position. -/
theorem mem_integerVariables {p : Problem ℚ} (h : p.Indexed) {i : ℕ} :
    i ∈ p.integerVariables ↔ ∃ v, p.vars[i]? = some v ∧ v.restriction.isIntegral := by
  rw [integerVariables, List.mem_map]
  constructor
  · rintro ⟨v, hv, rfl⟩
    obtain ⟨hmem, hint⟩ := List.mem_filter.1 hv
    obtain ⟨k, hk⟩ := List.mem_iff_getElem?.1 hmem
    exact ⟨v, by rw [h k v hk, hk], hint⟩
  · rintro ⟨v, hv, hint⟩
    exact ⟨v, List.mem_filter.2 ⟨List.mem_of_getElem? hv, hint⟩, h i v hv⟩

/-- Without integer variables no restriction is integral. -/
theorem integerVariables_isEmpty {p : Problem ℚ} :
    p.integerVariables.isEmpty ↔ ∀ v ∈ p.vars, v.restriction.isIntegral = false := by
  simp [integerVariables, List.isEmpty_iff, List.filter_eq_nil_iff]

/-- The variables restricted to integers, or all if there are none, are those to be integral. -/
theorem mem_integers_iff {p : Problem ℚ} (h : p.Indexed) {i : ℕ} :
    i ∈ (if p.integerVariables.isEmpty then List.range p.numVariables else p.integerVariables) ↔
      p.IsInteger i := by
  split_ifs with hempty
  · rw [List.mem_range]
    exact ⟨fun hi => ⟨hi, .inr (integerVariables_isEmpty.1 hempty)⟩, fun hi => hi.1⟩
  · rw [mem_integerVariables h]
    constructor
    · rintro ⟨v, hv, hint⟩
      exact ⟨(List.getElem?_eq_some_iff.1 hv).1, .inl ⟨v, hv, hint⟩⟩
    · rintro ⟨-, hv | hnone⟩
      · exact hv
      · exact absurd (integerVariables_isEmpty.2 hnone) hempty

end Problem

/-! ## Senses -/

namespace Sense

open PrimalSimplex (ofMaximized)

@[simp] theorem ofMaximized_ofMaximized (s : Sense) (v : ℚ) :
    ofMaximized s (ofMaximized s v) = v := by
  cases s
  · rfl
  · exact neg_neg v

/-- A value is best if its maximized form is greatest among the maximized forms. -/
theorem isBest_iff {s : Sense} {S : Set ℚ} {v : ℚ} :
    s.IsBest S v ↔ v ∈ S ∧ ∀ w ∈ S, ofMaximized s w ≤ ofMaximized s v := by
  cases s
  · exact Iff.rfl
  · exact and_congr_right fun _ => forall₂_congr fun w _ => neg_le_neg_iff.symm

/-- Being better is being greater in maximized form. -/
theorem beats_iff {s : Sense} {v w : ℚ} :
    s.Beats v w ↔ ofMaximized s w < ofMaximized s v := by
  cases s
  · exact Iff.rfl
  · exact neg_lt_neg_iff.symm

/-- A value is best if no value of the set beats it. -/
theorem isBest_iff_not_beats {s : Sense} {S : Set ℚ} {v : ℚ} :
    s.IsBest S v ↔ v ∈ S ∧ ∀ w ∈ S, ¬s.Beats w v := by
  rw [isBest_iff]
  exact and_congr_right fun _ => forall₂_congr fun w _ => by rw [beats_iff, not_lt]

/-- There is one best value at most. -/
theorem IsBest.unique {s : Sense} {S : Set ℚ} {v w : ℚ} (hv : s.IsBest S v) (hw : s.IsBest S w) :
    v = w := by
  cases s
  · exact IsGreatest.unique hv hw
  · exact IsLeast.unique hv hw

/-- The best value of a larger set is the best of a smaller one that it belongs to. -/
theorem IsBest.of_subset {s : Sense} {S T : Set ℚ} {v : ℚ} (h : s.IsBest T v) (hST : S ⊆ T)
    (hv : v ∈ S) : s.IsBest S v :=
  isBest_iff.2 ⟨hv, fun w hw => (isBest_iff.1 h).2 w (hST hw)⟩

/-- Of two values at most one beats the other. -/
theorem Beats.not_beats {s : Sense} {v w : ℚ} (h : s.Beats v w) : ¬s.Beats w v := by
  rw [beats_iff] at h ⊢
  exact h.not_gt

/-- No value beats itself. -/
theorem not_beats_self (s : Sense) (v : ℚ) : ¬s.Beats v v := by
  rw [beats_iff]
  exact lt_irrefl _

/-- What does not beat a value does not beat what the value does not beat. -/
theorem not_beats_trans {s : Sense} {u v w : ℚ} (h : ¬s.Beats u v) (h' : ¬s.Beats v w) :
    ¬s.Beats u w := by
  rw [beats_iff, not_lt] at h h' ⊢
  exact h.trans h'

end Sense

/-! ## Rows and their residuals -/

namespace Constraint

/-- The value that a point leaves to the auxiliary column of a row. -/
def residual (c : Constraint ℚ) (x : List ℚ) : ℚ := c.rowSign * (c.rhs - c.lhs x)

/-- A row holds at a point if its residual is not negative, and zero for an equality. -/
theorem isSatisfied_iff (c : Constraint ℚ) (x : List ℚ) :
    c.IsSatisfied x 0 ↔ 0 ≤ c.residual x ∧ (c.relation = .eq → c.residual x = 0) := by
  unfold IsSatisfied residual rowSign isNegated
  cases c.relation with
  | le => simp
  | ge =>
    simp only [if_true, reduceCtorEq, false_implies, and_true, ge_iff_le]
    constructor <;> intro h <;> linarith
  | eq =>
    have hsign : ∀ s : ℚ, s = 1 ∨ s = -1 →
        (|c.lhs x - c.rhs| ≤ 0 ↔ 0 ≤ s * (c.rhs - c.lhs x) ∧ s * (c.rhs - c.lhs x) = 0) := by
      intro s hs
      rw [abs_nonpos_iff, sub_eq_zero]
      have hs0 : s ≠ 0 := by rcases hs with rfl | rfl <;> norm_num
      constructor
      · intro h
        rw [h, sub_self, mul_zero]
        exact ⟨le_refl 0, rfl⟩
      · intro h
        have := (mul_eq_zero.1 h.2).resolve_left hs0
        linarith
    simp only [forall_const]
    refine hsign _ ?_
    split_ifs
    · exact .inr rfl
    · exact .inl rfl

/-- Zero coefficients behind the others change nothing. -/
@[simp] theorem lhs_padTo (n : ℕ) (c : Constraint ℚ) (x : List ℚ) :
    (c.padTo n).lhs x = c.lhs x := by
  show Scalar.dot (c.coefficients ++ _) x = _
  rw [Scalar.dot_append, Scalar.dot_replicate_zero, add_zero]
  rfl

@[simp] theorem isSatisfied_padTo (n : ℕ) (c : Constraint ℚ) (x : List ℚ) (tolerance : ℚ) :
    (c.padTo n).IsSatisfied x tolerance ↔ c.IsSatisfied x tolerance := by
  unfold IsSatisfied
  simp only [lhs_padTo]
  rfl

/-- A bound compares the value of its variable. -/
theorem lhs_bound {n i : ℕ} (hi : i < n) (r : Relation) (b : ℚ) {x : List ℚ} (hx : x.length = n) :
    (bound n i r b).lhs x = x.getD i 0 := Scalar.dot_unit hi hx

end Constraint

/-! ## Problems that grow -/

/-- A problem as it was solved, with the constraints added to it since. -/
structure Posed (α : Type) where
  problem : Problem α
  added : List (Constraint α) := []

namespace Posed

variable [Scalar α]

/-- The problem as extended so far. -/
def current (q : Posed α) : Problem α :=
  { q.problem with
    constraints := q.problem.constraints ++ q.added.map (·.padTo q.problem.numVariables) }

/-- The standard rows, in order of their auxiliary columns. -/
def rows (q : Posed α) : List (Constraint α) :=
  q.problem.constraints ++ q.problem.binaryBounds ++ q.added

/-- With one constraint more. -/
def add (q : Posed α) (k : Constraint α) : Posed α := { q with added := q.added ++ [k] }

@[simp] theorem current_nil (p : Problem α) : (Posed.mk p []).current = p := by
  simp [current]

@[simp] theorem rows_add (q : Posed α) (k : Constraint α) : (q.add k).rows = q.rows ++ [k] := by
  simp [rows, add]

/-- Adding a constraint to the problem as extended extends it. -/
theorem addConstraint_current {q : Posed α} {k : Constraint α} {p : Problem α}
    (h : q.current.addConstraint k = .ok p) : p = (q.add k).current := by
  rw [Problem.addConstraint_eq] at h
  split_ifs at h
  rw [← Except.ok.inj h]
  simp [current, add, Problem.numVariables]

/-- A point is feasible with one constraint more if it also satisfies that constraint. -/
theorem feasible_add_iff {q : Posed ℚ} {k : Constraint ℚ} {x : List ℚ} :
    (q.add k).current.Feasible x ↔ q.current.Feasible x ∧ k.IsSatisfied x 0 := by
  have hcon : (q.add k).current.constraints =
      q.current.constraints ++ [k.padTo q.problem.numVariables] := by
    simp [current, add]
  constructor
  · rintro ⟨hr, hc⟩
    rw [hcon, List.forall_mem_append] at hc
    exact ⟨⟨hr, hc.1⟩, (Constraint.isSatisfied_padTo _ k x 0).1 (hc.2 _ List.mem_cons_self)⟩
  · rintro ⟨⟨hr, hc⟩, hk⟩
    refine ⟨hr, ?_⟩
    rw [hcon, List.forall_mem_append]
    refine ⟨hc, fun c hmem => ?_⟩
    rw [List.mem_singleton.1 hmem]
    exact (Constraint.isSatisfied_padTo _ k x 0).2 hk

/-- Constraints that are added only take points away. -/
theorem feasible_problem {q : Posed ℚ} {x : List ℚ} (h : q.current.Feasible x) :
    q.problem.Feasible x :=
  ⟨h.restrictions, fun c hc => h.constraints c (List.mem_append_left _ hc)⟩

/-- A restriction asks for its placement and, of a binary variable, for the bound. -/
theorem admits_restriction_iff (r : Restriction) (x : ℚ) :
    r.Admits x ↔ r.placement.Admits x ∧ (r = .binary → x ≤ 1) := by
  cases r <;> simp [Restriction.Admits, Restriction.placement, Placement.Admits]

/-- The bounds of the binary variables hold where no binary variable exceeds one. -/
theorem binaryBounds_satisfied_iff {p : Problem ℚ} (hp : p.Indexed) {x : List ℚ}
    (hx : x.length = p.numVariables) : (∀ c ∈ p.binaryBounds, c.IsSatisfied x 0) ↔
      ∀ i v, p.vars[i]? = some v → v.restriction = .binary → x.getD i 0 ≤ 1 := by
  have hrow : ∀ i v, p.vars[i]? = some v →
      ((Constraint.bound p.numVariables v.index .le (1 : ℚ)).IsSatisfied x 0 ↔ x.getD i 0 ≤ 1) := by
    intro i v hv
    have hi : i < p.numVariables := (List.getElem?_eq_some_iff.1 hv).1
    show Constraint.lhs _ x ≤ 1 + 0 ↔ _
    rw [hp i v hv, Constraint.lhs_bound hi _ _ hx, add_zero]
  constructor
  · intro h i v hv hb
    refine (hrow i v hv).1 (h _ (List.mem_map_of_mem (List.mem_filter.2 ⟨?_, ?_⟩)))
    · exact List.mem_of_getElem? hv
    · exact decide_eq_true hb
  · intro h c hc
    obtain ⟨v, hv, rfl⟩ := List.mem_map.1 hc
    obtain ⟨hmem, hb⟩ := List.mem_filter.1 hv
    obtain ⟨i, hi⟩ := List.mem_iff_getElem?.1 hmem
    exact (hrow i v hi).2 (h i v hi (of_decide_eq_true hb))

/-- A point is feasible if it suits the placements of the variables and satisfies every row. -/
theorem feasible_iff {q : Posed ℚ} (hq : q.problem.Indexed) {x : List ℚ} :
    q.current.Feasible x ↔
      List.Forall₂ Placement.Admits (ColumnMap.ofProblem q.problem).placements x ∧
        ∀ c ∈ q.rows, c.IsSatisfied x 0 := by
  have hvars : List.Forall₂ (fun v a => v.restriction.Admits a) q.problem.vars x ↔
      List.Forall₂ Placement.Admits (ColumnMap.ofProblem q.problem).placements x ∧
        ∀ c ∈ q.problem.binaryBounds, c.IsSatisfied x 0 := by
    rw [show (ColumnMap.ofProblem q.problem).placements =
      q.problem.vars.map (·.restriction.placement) from rfl, List.forall₂_map_left_iff]
    simp only [List.forall₂_iff_get, List.get_eq_getElem]
    constructor
    · rintro ⟨hlen, h⟩
      refine ⟨⟨hlen, fun i hi hi' => ((admits_restriction_iff _ _).1 (h i hi hi')).1⟩,
        (binaryBounds_satisfied_iff hq hlen.symm).2 fun i v hv hb => ?_⟩
      obtain ⟨hi, rfl⟩ := List.getElem?_eq_some_iff.1 hv
      rw [List.getD_eq_getElem _ _ (hlen ▸ hi)]
      exact ((admits_restriction_iff _ _).1 (h i hi (hlen ▸ hi))).2 hb
    · rintro ⟨⟨hlen, h⟩, hb⟩
      refine ⟨hlen, fun i hi hi' => (admits_restriction_iff _ _).2 ⟨h i hi hi', fun hbin => ?_⟩⟩
      rw [← List.getD_eq_getElem x 0 hi']
      exact (binaryBounds_satisfied_iff hq hlen.symm).1 hb i _ (List.getElem?_eq_getElem hi) hbin
  constructor
  · rintro ⟨hr, hc⟩
    obtain ⟨hpl, hb⟩ := hvars.1 hr
    refine ⟨hpl, fun c hcm => ?_⟩
    rcases List.mem_append.1 hcm with h | h
    · rcases List.mem_append.1 h with h | h
      · exact hc c (List.mem_append_left _ h)
      · exact hb c h
    · exact (Constraint.isSatisfied_padTo _ c x 0).1
        (hc _ (List.mem_append_right _ (List.mem_map_of_mem h)))
  · rintro ⟨hpl, hrows⟩
    refine ⟨hvars.2 ⟨hpl, fun c hc => hrows c ?_⟩, fun c hc => ?_⟩
    · exact List.mem_append_left _ (List.mem_append_right _ hc)
    · rcases List.mem_append.1 hc with h | h
      · exact hrows c (List.mem_append_left _ (List.mem_append_left _ h))
      · obtain ⟨k, hk, rfl⟩ := List.mem_map.1 h
        exact (Constraint.isSatisfied_padTo _ k x 0).2 (hrows k (List.mem_append_right _ hk))

end Posed
end LinOpt
