import LinOpt.Proofs.Problem.Feasible
import LinOpt.StandardForm.Columns

/-!
# Points behind column values

Non-negative column values `y : ℕ → ℚ` stand for a point, each variable the value of its placement
(`ColumnMap.point`). Spreading coefficients over columns is the transpose of gathering values from
them (`ColumnMap.dot_spreadAll`), so a constraint has the same left-hand side on both sides; where
one column alone is one, the left-hand side is a coefficient (`ColumnMap.dot_point_single`). Every
point that suits the placements has non-negative column values (`ColumnMap.exists_point`), and no
other point has (`ColumnMap.admits_point`).
-/

namespace LinOpt

namespace Placement

/-- The value of a variable whose columns have the values `y`. -/
def value : Placement → (ℕ → ℚ) → ℚ
  | .direct, y => y 0
  | .negated, y => -y 0
  | .split, y => y 0 - y 1

/-- Non-negative columns make up a value that the placement can take. -/
theorem admits_value (p : Placement) {y : ℕ → ℚ} (hy : ∀ j, 0 ≤ y j) : p.Admits (p.value y) := by
  cases p with
  | direct => exact hy 0
  | negated => exact neg_nonpos.2 (hy 0)
  | split => trivial

/-- Every value that the placement can take is made up of non-negative columns. -/
theorem exists_value (p : Placement) {a : ℚ} (ha : p.Admits a) :
    ∃ y : ℕ → ℚ, (∀ j, 0 ≤ y j) ∧ p.value y = a := by
  cases p with
  | direct => exact ⟨fun _ => a, fun _ => ha, rfl⟩
  | negated => exact ⟨fun _ => -a, fun _ => neg_nonneg.2 ha, neg_neg a⟩
  | split =>
    refine ⟨fun j => if j = 0 then max a 0 else max (-a) 0, fun j => ?_, ?_⟩
    · dsimp only
      split_ifs
      · exact le_max_right a 0
      · exact le_max_right (-a) 0
    · show max a 0 - max (-a) 0 = a
      rcases le_total a 0 with h | h
      · rw [max_eq_right h, max_eq_left (neg_nonneg.2 h)]
        ring
      · rw [max_eq_left h, max_eq_right (neg_nonpos.2 h)]
        ring

/-- Only the columns of the variable count. -/
theorem value_congr (p : Placement) {y y' : ℕ → ℚ} (h : ∀ j, j < p.width → y j = y' j) :
    p.value y = p.value y' := by
  cases p with
  | direct => exact h 0 Nat.one_pos
  | negated => exact congrArg (- ·) (h 0 Nat.one_pos)
  | split => exact congrArg₂ (· - ·) (h 0 Nat.two_pos) (h 1 Nat.one_lt_two)

/-- Every variable has a column. -/
theorem width_pos (p : Placement) : 0 < p.width := by cases p <;> decide

/-- A coefficient is spread over the columns of its variable. -/
theorem length_spread {α : Type} [Scalar α] (p : Placement) (a : α) :
    (p.spread a).length = p.width := by
  cases p <;> rfl

/-- A spread coefficient times columns is the coefficient times their value. -/
theorem dot_spread (p : Placement) (a : ℚ) (ys : List ℚ) :
    Scalar.dot (p.spread a) ys = a * p.gather ys := by
  have hneg : ∀ (b : ℚ) (zs : List ℚ), Scalar.dot [b] zs = b * zs.getD 0 0 := by
    intro b zs
    cases zs <;> simp
  cases p with
  | direct => exact hneg a ys
  | negated =>
    rw [spread, hneg, gather]
    ring
  | split =>
    cases ys with
    | nil => simp [spread, gather]
    | cons z zs =>
      rw [spread, Scalar.dot_cons, hneg, gather, List.getD_cons_zero, List.getD_cons_succ]
      ring

/-- The values of the columns from the left, gathered. -/
theorem gather_range (p : Placement) {n : ℕ} (hn : p.width ≤ n) (y : ℕ → ℚ) :
    p.gather ((List.range n).map y) = p.value y := by
  have hget : ∀ j, j < p.width → ((List.range n).map y).getD j 0 = y j := by
    intro j hj
    have hj : j < n := hj.trans_le hn
    simp [hj]
  cases p with
  | direct => exact hget 0 Nat.one_pos
  | negated => exact congrArg (- ·) (hget 0 Nat.one_pos)
  | split => exact congrArg₂ (· - ·) (hget 0 Nat.two_pos) (hget 1 Nat.one_lt_two)

end Placement

namespace ColumnMap

open Placement (totalWidth)

/-! ## Coefficients and values -/

/-- Spread coefficients of columns are coefficients of the gathered values. -/
theorem dot_spreadAll (ps : List Placement) (as ys : List ℚ) :
    Scalar.dot (spreadAll ps as) ys = Scalar.dot as (gatherAll ps ys) := by
  induction ps generalizing as ys with
  | nil => simp [spreadAll, gatherAll]
  | cons p ps ih =>
    cases as with
    | nil =>
      rw [spreadAll, Scalar.dot_append, Scalar.dot_replicate_zero, ih]
      simp
    | cons a as =>
      rw [spreadAll, gatherAll, Scalar.dot_append, Placement.dot_spread, Placement.length_spread, ih,
        Scalar.dot_cons]

/-- Coefficients are spread over all columns. -/
theorem length_spreadAll {α : Type} [Scalar α] (ps : List Placement) (as : List α) :
    (spreadAll ps as).length = totalWidth ps := by
  induction ps generalizing as with
  | nil => rfl
  | cons p ps ih =>
    cases as with
    | nil => rw [spreadAll, List.length_append, List.length_replicate, ih, totalWidth]
    | cons a as =>
      rw [spreadAll, List.length_append, Placement.length_spread, ih, totalWidth]

/-- Values are gathered for all variables. -/
theorem length_gatherAll {α : Type} [Scalar α] (ps : List Placement) (ys : List α) :
    (gatherAll ps ys).length = ps.length := by
  induction ps generalizing ys with
  | nil => rfl
  | cons p ps ih => rw [gatherAll, List.length_cons, List.length_cons, ih]

/-- Coefficients that are not refused are spread, one for each column. -/
theorem toColumns_eq_ok {α : Type} [Scalar α] {m : ColumnMap} {as bs : List α}
    (h : m.toColumns as = .ok bs) : bs = spreadAll m.placements as := by
  unfold toColumns at h
  split_ifs at h
  exact (Except.ok.inj h).symm

/-- The sign of a variable is its own inverse. -/
theorem sign_mul_self (m : ColumnMap) (i : ℕ) : m.sign i * m.sign i = (1 : ℚ) := by
  unfold sign
  split <;> norm_num

/-- The first column of a variable has its coefficient, in the sign it is stored with. -/
theorem getD_spreadAll {ps : List Placement} {i : ℕ} (hi : i < ps.length) (as : List ℚ) :
    (spreadAll ps as).getD (totalWidth (ps.take i)) 0 = sign ⟨ps⟩ i * as.getD i 0 := by
  induction ps generalizing i as with
  | nil => exact absurd hi (Nat.not_lt_zero i)
  | cons p ps ih =>
    cases i with
    | zero =>
      cases as with
      | nil =>
        rw [spreadAll, List.getD_append _ _ _ _ (by simpa [totalWidth] using p.width_pos)]
        cases p <;> simp [sign, totalWidth, Placement.width]
      | cons a as => cases p <;> simp [spreadAll, Placement.spread, sign, totalWidth]
    | succ i =>
      have hi : i < ps.length := Nat.lt_of_succ_lt_succ hi
      have hsign : (sign ⟨p :: ps⟩ (i + 1) : ℚ) = sign ⟨ps⟩ i := rfl
      rw [List.take_succ_cons, totalWidth, hsign]
      cases as with
      | nil =>
        rw [spreadAll, List.getD_append_right _ _ _ _ (by simp), List.length_replicate,
          Nat.add_sub_cancel_left]
        exact ih hi []
      | cons a as =>
        rw [spreadAll, List.getD_append_right _ _ _ _ (by rw [Placement.length_spread]; omega),
          Placement.length_spread, Nat.add_sub_cancel_left, List.getD_cons_succ]
        exact ih hi as

/-! ## Points -/

variable {m : ColumnMap}

/-- The point that column values stand for. -/
def point (m : ColumnMap) (y : ℕ → ℚ) : List ℚ := m.recover ((List.range m.numColumns).map y)

/-- A point has a value for every variable. -/
theorem length_point (m : ColumnMap) (y : ℕ → ℚ) : (m.point y).length = m.numVariables :=
  length_gatherAll _ _

/-- A scalar product at a point is one at the columns. -/
theorem dot_point (m : ColumnMap) (as : List ℚ) (y : ℕ → ℚ) : Scalar.dot as (m.point y) =
    ∑ j ∈ Finset.range m.numColumns, (spreadAll m.placements as).getD j 0 * y j :=
  (dot_spreadAll _ _ _).symm.trans (Scalar.dot_range _ _ _)

/-- The first variable takes the first columns and leaves the others the columns behind. -/
theorem point_cons (p : Placement) (ps : List Placement) (y : ℕ → ℚ) :
    point ⟨p :: ps⟩ y = p.value y :: point ⟨ps⟩ fun j => y (p.width + j) := by
  have hdrop : ((List.range (p.width + totalWidth ps)).map y).drop p.width =
      (List.range (totalWidth ps)).map fun j => y (p.width + j) := by
    rw [List.range_add, List.map_append, List.drop_left' (by simp), List.map_map]
    rfl
  show p.gather _ :: gatherAll ps _ = _
  rw [show numColumns ⟨p :: ps⟩ = p.width + totalWidth ps from rfl, hdrop,
    p.gather_range (Nat.le_add_right _ _)]
  rfl

/-- Only the decision columns count. -/
theorem point_congr {y y' : ℕ → ℚ} (h : ∀ j, j < m.numColumns → y j = y' j) :
    m.point y = m.point y' := by
  refine congrArg m.recover (List.map_congr_left fun j hj => h j ?_)
  exact List.mem_range.1 hj

/-- Where the columns of a variable are, and what value they give it. -/
theorem getElem?_point {i : ℕ} {p : Placement} (hp : m.placements[i]? = some p) (y : ℕ → ℚ) :
    totalWidth (m.placements.take i) + p.width ≤ m.numColumns ∧
      (m.point y)[i]? = some (p.value fun j => y (totalWidth (m.placements.take i) + j)) := by
  obtain ⟨ps⟩ := m
  induction ps generalizing i y with
  | nil => cases hp
  | cons q qs ih =>
    rw [point_cons]
    cases i with
    | zero =>
      obtain rfl : q = p := Option.some.inj hp
      refine ⟨?_, ?_⟩
      · show 0 + q.width ≤ q.width + totalWidth qs
        omega
      · simp [totalWidth]
    | succ i =>
      obtain ⟨hle, hget⟩ := ih (fun j => y (q.width + j)) hp
      refine ⟨?_, ?_⟩
      · show q.width + totalWidth (qs.take i) + p.width ≤ q.width + totalWidth qs
        have hle : totalWidth (qs.take i) + p.width ≤ totalWidth qs := hle
        omega
      · rw [List.getElem?_cons_succ, hget]
        simp only [List.take_succ_cons, totalWidth, Nat.add_assoc]

/-- A variable has a first column, and all its columns are decision columns. -/
theorem firstColumn_lt {i : ℕ} (hi : i < m.numVariables) :
    totalWidth (m.placements.take i) < m.numColumns := by
  have hp := List.getElem?_eq_getElem hi
  have hpos := (m.placements[i]).width_pos
  have hle := (getElem?_point hp 0).1
  omega

/-- Where the first column of a variable alone has the value one, a scalar product is the
coefficient of the variable, in the sign that it is stored with. -/
theorem dot_point_single {i : ℕ} (hi : i < m.numVariables) (as : List ℚ) :
    Scalar.dot as (m.point fun j => if j = totalWidth (m.placements.take i) then 1 else 0) =
      m.sign i * as.getD i 0 := by
  rw [dot_point]
  simp only [mul_ite, mul_one, mul_zero]
  rw [Finset.sum_ite_eq', if_pos (Finset.mem_range.2 (firstColumn_lt hi)), getD_spreadAll hi]

/-- The direction in which two adjacent columns grow alike. -/
def twins (f j : ℕ) : ℚ := if j = f ∨ j = f + 1 then 1 else 0

/-- Twin columns are raised by one, and no other column is. -/
theorem twins_of_ne {f j : ℕ} (h : j ≠ f) (h' : j ≠ f + 1) : twins f j = 0 :=
  if_neg (not_or.2 ⟨h, h'⟩)

/-- The two columns of a variable may grow alike without changing the point. -/
theorem point_add_twins {i : ℕ} (hp : m.placements[i]? = some .split) (y : ℕ → ℚ) :
    m.point (y + twins (totalWidth (m.placements.take i))) = m.point y := by
  obtain ⟨ps⟩ := m
  induction ps generalizing i y with
  | nil => cases hp
  | cons q qs ih =>
    rw [point_cons, point_cons]
    simp only [Pi.add_apply]
    cases i with
    | zero =>
      obtain rfl : q = .split := Option.some.inj hp
      refine congrArg₂ List.cons ?_ (point_congr fun j _ => ?_)
      · simp [Placement.value, twins, totalWidth]
      · rw [twins_of_ne, add_zero]
        all_goals
          simp only [Placement.width, List.take_zero, totalWidth]
          omega
    | succ i =>
      have hpos := q.width_pos
      refine congrArg₂ List.cons (q.value_congr fun j hj => ?_) ?_
      · rw [Pi.add_apply, twins_of_ne, add_zero]
        all_goals
          simp only [List.take_succ_cons, totalWidth]
          omega
      · have hshift : ∀ j, twins (totalWidth ((q :: qs).take (i + 1))) (q.width + j) =
            twins (totalWidth (qs.take i)) j := by
          intro j
          simp only [twins, List.take_succ_cons, totalWidth, Nat.add_assoc, Nat.add_left_cancel_iff]
        simp only [hshift]
        exact ih (fun j => y (q.width + j)) hp

/-- A variable that is placed as it is has a column of its own. -/
theorem exists_directColumn {i : ℕ} (h : m.placements[i]? = some .direct) :
    ∃ col, m.directColumn? i = some col := by
  have hi : i < m.numVariables := (List.getElem?_eq_some_iff.1 h).1
  rw [directColumn?, h]
  exact ⟨_, if_pos hi⟩

/-- Only variables have columns of their own. -/
theorem lt_of_directColumn {i f : ℕ} (h : m.directColumn? i = some f) : i < m.numVariables := by
  unfold directColumn? firstColumn? at h
  split at h
  · split_ifs at h with hi
    exact hi
  · cases h

/-- A variable with a column of its own has its value. -/
theorem point_directColumn {i f : ℕ} (h : m.directColumn? i = some f) (y : ℕ → ℚ) :
    f < m.numColumns ∧ (m.point y).getD i 0 = y f := by
  unfold directColumn? at h
  split at h
  · rename_i hp
    unfold firstColumn? at h
    split_ifs at h
    obtain rfl := Option.some.inj h
    obtain ⟨hle, hget⟩ := getElem?_point hp y
    refine ⟨hle, ?_⟩
    rw [List.getD_eq_getElem?_getD, hget]
    rfl
  · cases h

/-- Non-negative columns stand for a point that suits the placements. -/
theorem admits_point (m : ColumnMap) {y : ℕ → ℚ} (hy : ∀ j, 0 ≤ y j) :
    List.Forall₂ Placement.Admits m.placements (m.point y) := by
  obtain ⟨ps⟩ := m
  induction ps generalizing y with
  | nil => exact .nil
  | cons p ps ih =>
    rw [point_cons]
    exact .cons (p.admits_value hy) (ih fun j => hy _)

/-- Every point that suits the placements is that of non-negative columns. -/
theorem exists_point {x : List ℚ} (h : List.Forall₂ Placement.Admits m.placements x) :
    ∃ y : ℕ → ℚ, (∀ j, 0 ≤ y j) ∧ m.point y = x := by
  obtain ⟨ps⟩ := m
  induction ps generalizing x with
  | nil =>
    cases h
    exact ⟨fun _ => 0, fun _ => le_refl 0, rfl⟩
  | cons p ps ih =>
    obtain ⟨a, x, ha, hx, rfl⟩ := List.forall₂_cons_left_iff.1 h
    obtain ⟨y₁, hpos₁, h₁⟩ := p.exists_value ha
    obtain ⟨y₂, hpos₂, h₂⟩ := ih hx
    refine ⟨fun j => if j < p.width then y₁ j else y₂ (j - p.width), fun j => ?_, ?_⟩
    · dsimp only
      split_ifs
      · exact hpos₁ j
      · exact hpos₂ _
    · rw [point_cons]
      congr 1
      · rw [← h₁]
        exact p.value_congr fun j hj => if_pos hj
      · rw [← h₂]
        refine point_congr fun j _ => ?_
        rw [if_neg (by omega), Nat.add_sub_cancel_left]

end ColumnMap
end LinOpt
