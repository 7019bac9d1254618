import Mathlib.Algebra.BigOperators.Group.Finset.Basic
import Mathlib.Algebra.BigOperators.Ring.Finset
import Mathlib.Algebra.Order.BigOperators.Group.Finset
import Mathlib.Tactic.FieldSimp
import Mathlib.Tactic.Linarith
import Mathlib.Tactic.Ring
import LinOpt.Scalar.Rational

/-!
# Sums and scalar products of rational numbers

Over the rationals the left-to-right sum of `Scalar` is the sum of the list, so scalar products are
linear and may be read as finite sums (`dot_range`). Vectors of unknown length are functions
`ℕ → ℚ`; a list stands for one by its entries, with zero behind its end.

`Scalar.Signed` collects the few laws under which two methods are compared over any scalars.
-/

namespace LinOpt

namespace Scalar

/-- What the methods need of an arithmetic to run alike on the same rows. These laws hold of
floating point numbers too, undefined values included. -/
class Signed (α : Type) [Scalar α] : Prop where
  one_mul (x : α) : 1 * x = x
  neg_one_mul (x : α) : -1 * x = -x
  neg_nonneg (x : α) : x ≤ 0 → 0 ≤ -x
  neg_le (t x : α) : 0 ≤ t → 0 ≤ x → -t ≤ x
  not_lt (x y : α) : x ≤ y → ¬y < x

instance : Signed ℚ where
  one_mul _ := by ring
  neg_one_mul _ := by ring
  neg_nonneg _ hx := Left.nonneg_neg_iff.2 hx
  neg_le _ _ ht hx := (neg_nonpos.2 ht).trans hx
  not_lt _ _ h := not_lt_of_ge h

/-- What pivots need of an arithmetic not to be refused: a value above a tolerance or below its
negative has a magnitude above it. -/
class Measured (α : Type) [Scalar α] : Prop where
  lt_abs (t x : α) : t < x ∨ x < -t → t < Scalar.abs x

instance : Measured ℚ where
  lt_abs _ _ h := lt_abs.2 (h.imp_right lt_neg_of_lt_neg)

@[simp] theorem abs_rat (x : ℚ) : Scalar.abs x = |x| := rfl

@[simp] theorem floor_rat (x : ℚ) : Scalar.floor x = ⌊x⌋ := rfl

/-- The least integer above is that of the field. -/
@[simp] theorem ceil_rat (x : ℚ) : Scalar.ceil x = ⌈x⌉ := by
  show -((⌊-x⌋ : ℤ) : ℚ) = ⌈x⌉
  rw [Int.floor_neg]
  push_cast
  ring

/-- At tolerance zero no value is cleaned away. -/
@[simp] theorem clean_zero (x : ℚ) : Scalar.clean 0 x = x := by
  unfold clean
  split_ifs with h
  · rw [abs_rat, abs_nonpos_iff] at h
    exact h.symm
  · rfl

/-- The sum from left to right is the sum. -/
theorem sum_eq (xs : List ℚ) : Scalar.sum xs = xs.sum := by
  have h : ∀ (ys : List ℚ) (a : ℚ), ys.foldl (· + ·) a = a + ys.sum := by
    intro ys
    induction ys with
    | nil => intro a; simp
    | cons y ys ih => intro a; rw [List.foldl_cons, ih, List.sum_cons, add_assoc]
  exact (h xs (-0)).trans (by simp)

/-- The scalar product as a sum. -/
theorem dot_eq (xs ys : List ℚ) : Scalar.dot xs ys = (xs.zipWith (· * ·) ys).sum := sum_eq _

@[simp] theorem dot_nil_left (ys : List ℚ) : Scalar.dot [] ys = 0 := by simp [dot_eq]

@[simp] theorem dot_nil_right (xs : List ℚ) : Scalar.dot xs [] = 0 := by simp [dot_eq]

@[simp] theorem dot_cons (x y : ℚ) (xs ys : List ℚ) :
    Scalar.dot (x :: xs) (y :: ys) = x * y + Scalar.dot xs ys := by simp [dot_eq]

/-- A scalar product splits where its left factor does. -/
theorem dot_append (xs xs' ys : List ℚ) :
    Scalar.dot (xs ++ xs') ys = Scalar.dot xs ys + Scalar.dot xs' (ys.drop xs.length) := by
  induction xs generalizing ys with
  | nil => simp
  | cons x xs ih =>
    cases ys with
    | nil => simp
    | cons y ys => simp only [List.cons_append, dot_cons, ih, List.length_cons, List.drop_succ_cons,
        add_assoc]

/-- A multiple of the left factor gives the multiple of the scalar product. -/
theorem dot_map_mul (a : ℚ) (xs ys : List ℚ) :
    Scalar.dot (xs.map (a * ·)) ys = a * Scalar.dot xs ys := by
  induction xs generalizing ys with
  | nil => simp
  | cons x xs ih =>
    cases ys with
    | nil => simp
    | cons y ys =>
      rw [List.map_cons, dot_cons, dot_cons, ih]
      ring

/-- The negated left factor gives the negated scalar product. -/
theorem dot_map_neg (xs ys : List ℚ) : Scalar.dot (xs.map (- ·)) ys = -Scalar.dot xs ys := by
  have h := dot_map_mul (-1) xs ys
  simpa only [neg_one_mul] using h

/-- A scalar product is linear in its right factor. -/
theorem dot_map_sub_mul {β : Type} (xs : List ℚ) (ys : List β) (f g : β → ℚ) (a : ℚ) :
    Scalar.dot xs (ys.map fun y => f y - a * g y) =
      Scalar.dot xs (ys.map f) - a * Scalar.dot xs (ys.map g) := by
  induction xs generalizing ys with
  | nil => simp
  | cons x xs ih =>
    cases ys with
    | nil => simp
    | cons y ys =>
      simp only [List.map_cons, dot_cons, ih]
      ring

@[simp] theorem dot_replicate_zero (n : ℕ) (ys : List ℚ) :
    Scalar.dot (List.replicate n 0) ys = 0 := by
  induction n generalizing ys with
  | zero => simp
  | succ n ih =>
    cases ys with
    | nil => simp
    | cons y ys => rw [List.replicate_succ, dot_cons, ih, zero_mul, add_zero]

/-- A scalar product with the first values of a function is a finite sum. -/
theorem dot_range (xs : List ℚ) (n : ℕ) (y : ℕ → ℚ) :
    Scalar.dot xs ((List.range n).map y) = ∑ j ∈ Finset.range n, xs.getD j 0 * y j := by
  induction n generalizing xs y with
  | zero => simp
  | succ n ih =>
    cases xs with
    | nil => simp
    | cons x xs =>
      rw [List.range_succ_eq_map, List.map_cons, List.map_map, dot_cons, Finset.sum_range_succ']
      have h := ih xs (y ∘ Nat.succ)
      rw [h, add_comm]
      simp

/-- A scalar product of lists is a finite sum over the right factor. -/
theorem dot_eq_sum (xs ys : List ℚ) :
    Scalar.dot xs ys = ∑ j ∈ Finset.range ys.length, xs.getD j 0 * ys.getD j 0 := by
  have h : (List.range ys.length).map (fun j => ys.getD j 0) = ys := by
    refine List.ext_getElem (by simp) fun j _ hj => ?_
    simp [List.getElem?_eq_getElem hj]
  rw [← dot_range, h]

/-- The unit list picks one entry. -/
theorem dot_unit {n i : ℕ} (hi : i < n) {ys : List ℚ} (hn : ys.length = n) :
    Scalar.dot (Scalar.unit n i) ys = ys.getD i 0 := by
  have hunit : ∀ j ∈ Finset.range ys.length,
      (Scalar.unit n i).getD j 0 * ys.getD j 0 = if j = i then ys.getD i 0 else 0 := by
    intro j hj
    rw [Finset.mem_range, hn] at hj
    by_cases h : j = i
    · subst h; simp [Scalar.unit, hj]
    · simp [Scalar.unit, hj, h]
  rw [dot_eq_sum, Finset.sum_congr rfl hunit, Finset.sum_ite_eq', if_pos (by simpa [hn] using hi)]

end Scalar
end LinOpt
