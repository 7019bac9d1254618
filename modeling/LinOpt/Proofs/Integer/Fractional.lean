import Mathlib.Algebra.Order.Floor.Ring
import Mathlib.Data.Rat.Floor
import LinOpt.Integer.Fractional
import LinOpt.Proofs.Arithmetic

/-!
# Integral and fractional values

At tolerance zero a value counts as integral exactly if it is an integer (`isIntegral_zero_iff`),
and the choice of a fractional value comes back empty exactly if there is none (`most_eq_none_iff`).
-/

namespace LinOpt

namespace Scalar

@[simp] theorem half_rat : (Scalar.half : ℚ) = 1 / 2 := by
  show (1 : ℚ) / (1 + 1) = 1 / 2
  norm_num

/-- The integer part is an integer. -/
theorem exists_trunc (x : ℚ) : ∃ n : ℤ, Scalar.trunc x = n := by
  unfold trunc
  split_ifs
  · exact ⟨_, ceil_rat x⟩
  · exact ⟨_, floor_rat x⟩

@[simp] theorem trunc_intCast (n : ℤ) : Scalar.trunc (n : ℚ) = n := by
  unfold trunc
  split_ifs
  · rw [ceil_rat, Int.ceil_intCast]
  · rw [floor_rat, Int.floor_intCast]

/-- The nearest integer is an integer. -/
theorem exists_round (x : ℚ) : ∃ n : ℤ, Scalar.round x = n := by
  obtain ⟨n, hn⟩ := exists_trunc x
  unfold round
  simp only [hn]
  split_ifs
  · exact ⟨n - 1, by push_cast; rfl⟩
  · exact ⟨n + 1, by push_cast; rfl⟩
  · exact ⟨n, rfl⟩

/-- An integer is nearest to itself. -/
@[simp] theorem round_intCast (n : ℤ) : Scalar.round (n : ℚ) = n := by
  have hhalf : ¬(1 / 2 : ℚ) ≤ |(n : ℚ) - n| := by
    rw [sub_self, abs_zero]
    norm_num
  unfold round
  simp only [trunc_intCast, half_rat, abs_rat]
  rw [if_neg hhalf]

/-- A sum of integers is an integer. -/
theorem exists_sum_intCast {n : ℕ} {f : ℕ → ℚ} (h : ∀ j < n, ∃ k : ℤ, f j = k) :
    ∃ k : ℤ, ∑ j ∈ Finset.range n, f j = k := by
  choose! K hK using h
  refine ⟨∑ j ∈ Finset.range n, K j, ?_⟩
  rw [Int.cast_sum]
  exact Finset.sum_congr rfl fun j hj => hK j (Finset.mem_range.1 hj)

end Scalar

namespace Fractional

/-- At tolerance zero the integral values are the integers. -/
theorem isIntegral_zero_iff (x : ℚ) : isIntegral 0 x ↔ ∃ n : ℤ, x = n := by
  rw [isIntegral, decide_eq_true_iff, Scalar.abs_rat, abs_nonpos_iff, sub_eq_zero]
  constructor
  · intro h
    obtain ⟨n, hn⟩ := Scalar.exists_round x
    exact ⟨n, h.trans hn⟩
  · rintro ⟨n, rfl⟩
    exact (Scalar.round_intCast n).symm

/-- What is chosen is a fractional value, the best so far or the one looked at. -/
theorem choose_eq_some {tolerance : ℚ} {best : Option (Candidate ℚ)} {c d : Candidate ℚ}
    (h : choose tolerance best c = some d) :
    best = some d ∨ (d = c ∧ isIntegral tolerance c.value = false) := by
  unfold choose at h
  split_ifs at h with hint
  · exact .inl h
  · have hint : isIntegral tolerance c.value = false := Bool.eq_false_iff.2 hint
    cases best with
    | none => exact .inr ⟨(Option.some.inj h).symm, hint⟩
    | some b =>
      dsimp only at h
      split_ifs at h
      · exact .inr ⟨(Option.some.inj h).symm, hint⟩
      · exact .inl h

/-- Nothing is chosen only from nothing and an integral value. -/
theorem choose_eq_none {tolerance : ℚ} {best : Option (Candidate ℚ)} {c : Candidate ℚ} :
    choose tolerance best c = none ↔ best = none ∧ isIntegral tolerance c.value := by
  unfold choose
  split_ifs with hint
  · simp [hint]
  · cases best with
    | none => simp [hint]
    | some b =>
      dsimp only
      split_ifs <;> simp

/-- No value is chosen exactly if all are integral. -/
theorem most_eq_none_iff {tolerance : ℚ} {values : List (Candidate ℚ)} :
    most tolerance values = none ↔ ∀ c ∈ values, isIntegral tolerance c.value := by
  have hfold : ∀ (cs : List (Candidate ℚ)) (best : Option (Candidate ℚ)),
      cs.foldl (choose tolerance) best = none ↔
        best = none ∧ ∀ c ∈ cs, isIntegral tolerance c.value := by
    intro cs
    induction cs with
    | nil => simp
    | cons c cs ih =>
      intro best
      rw [List.foldl_cons, ih, choose_eq_none, List.forall_mem_cons, and_assoc]
  rw [most, hfold]
  simp

/-- The value that is chosen is one of those given and not integral. -/
theorem most_eq_some {tolerance : ℚ} {values : List (Candidate ℚ)} {d : Candidate ℚ}
    (h : most tolerance values = some d) : d ∈ values ∧ isIntegral tolerance d.value = false := by
  have hfold : ∀ (cs : List (Candidate ℚ)) (best : Option (Candidate ℚ)),
      cs.foldl (choose tolerance) best = some d →
        best = some d ∨ (d ∈ cs ∧ isIntegral tolerance d.value = false) := by
    intro cs
    induction cs with
    | nil => exact fun best h => .inl h
    | cons c cs ih =>
      intro best h
      rcases ih _ h with hchoose | ⟨hmem, hint⟩
      · rcases choose_eq_some hchoose with hbest | ⟨rfl, hint⟩
        · exact .inl hbest
        · exact .inr ⟨List.mem_cons_self, hint⟩
      · exact .inr ⟨List.mem_cons_of_mem _ hmem, hint⟩
  exact (hfold values none h).resolve_left (by simp)

/-- An integer lies on one side of every number, rounded outwards. -/
theorem le_floor_or_ceil_le (n : ℤ) (x : ℚ) :
    (n : ℚ) ≤ Scalar.floor x ∨ (Scalar.ceil x : ℚ) ≤ n := by
  rw [Scalar.floor_rat, Scalar.ceil_rat]
  rcases le_total (n : ℚ) x with h | h
  · exact .inl (by exact_mod_cast Int.le_floor.2 h)
  · exact .inr (by exact_mod_cast Int.ceil_le.2 h)

end Fractional
end LinOpt
