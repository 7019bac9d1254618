import Mathlib.Algebra.Order.Ring.Nat
import Mathlib.Logic.Relation

/-!
# Runs that end

A loop is a relation between the places where it can stand. Each turn uses up some of a potential, a
natural number, so a run has no more turns than there is potential where it starts
(`length_le_of_potential`). If every place leaves one turn at most, whatever was reached on the way
leads on to the one place where the run ends (`reaches_end`).

A search that branches in two has the size of a full binary tree for a potential (`fullTree`):
dealing with a node takes one off, and what is left is for its two children.
-/

namespace LinOpt

variable {σ : Type} {turn : σ → σ → Prop}

/-- A run has no more turns than there is potential where it starts. -/
theorem length_le_of_potential {potential : σ → ℕ}
    (hturn : ∀ s s', turn s s' → potential s' < potential s) {n : ℕ} {run : ℕ → σ}
    (hrun : ∀ k < n, turn (run k) (run (k + 1))) : n ≤ potential (run 0) := by
  have hleft : ∀ k ≤ n, k + potential (run k) ≤ potential (run 0) := by
    intro k hk
    induction k with
    | zero => exact Nat.le_of_eq (Nat.zero_add _)
    | succ k ih =>
      have hless := hturn _ _ (hrun k hk)
      have hsofar := ih (Nat.le_of_succ_le hk)
      omega
  exact Nat.le_trans (Nat.le_add_right _ _) (hleft n (Nat.le_refl n))

/-- Wherever a run stands on the way to its end, it goes on to that end. -/
theorem reaches_end (hturn : Relator.RightUnique turn) {s s' last : σ}
    (hreach : Relation.ReflTransGen turn s s') (hend : Relation.ReflTransGen turn s last)
    (hlast : ∀ s', ¬turn last s') : Relation.ReflTransGen turn s' last := by
  rcases hreach.total_of_right_unique hturn hend with h | h
  · exact h
  · -- nothing comes after the end
    rcases h.cases_head with rfl | ⟨next, hnext, -⟩
    · exact .refl
    · exact absurd hnext (hlast next)

/-- The number of nodes of a binary tree all of whose branches have the same height. -/
def fullTree (height : ℕ) : ℕ := 2 ^ (height + 1) - 1

/-- A full tree has a root. -/
theorem fullTree_pos (height : ℕ) : 0 < fullTree height :=
  Nat.sub_pos_of_lt (Nat.one_lt_two_pow (Nat.succ_ne_zero height))

/-- The root and two trees below it. -/
theorem fullTree_succ (height : ℕ) : fullTree (height + 1) = 2 * fullTree height + 1 := by
  have hpos : 0 < 2 ^ (height + 1) := Nat.two_pow_pos _
  dsimp only [fullTree]
  rw [pow_succ 2 (height + 1)]
  omega

end LinOpt
