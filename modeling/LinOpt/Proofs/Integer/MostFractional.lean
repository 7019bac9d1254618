import Mathlib.Algebra.Order.Round
import LinOpt.Integer.BranchAndBound
import LinOpt.Integer.CuttingPlane
import LinOpt.Proofs.Integer.Fractional
import LinOpt.Proofs.Problem.Feasible

/-!
# The most fractional value

Two fractional parts that are equally far from one half up to rounding count as equal, and being
equal up to rounding is not transitive: a choice that was exchanged along a chain of near ties could
end far from the best value. It does not where the indices ascend. A later value then takes the
place of the choice so far only if it is nearer to one half by more than the spacing
(`Fractional.Candidate.isBetter_iff`), so with every exchange the choice gets strictly nearer, and
no value that was passed over is nearer by more than the spacing. This is what a choice among the
first values keeps when one more is looked at (`Fractional.IsMost.pass`,
`Fractional.IsMost.exchange`).

The variables that are to be integral ascend in every problem that knows its positions, so this is
how branch-and-bound and cutting planes choose among them (`BranchAndBound.isMost_of_pick`,
`CuttingPlane.isMost_of_pick`).
-/

namespace LinOpt

namespace Scalar

/-- The spacing of double precision numbers just above one. -/
@[simp] theorem epsilon_rat : (Scalar.epsilon : ℚ) = 1 / 2 ^ 52 := by
  show (1 : ℚ) / Decimal.toRat (.ofNat 0x10000000000000) = 1 / 2 ^ 52
  norm_num [Decimal.toRat, Decimal.ofNat]

/-- Rounding moves a number by one half at most. -/
theorem abs_sub_round_le_half (x : ℚ) : |x - Scalar.round x| ≤ 1 / 2 := by
  unfold round trunc
  simp only [half_rat, abs_rat, floor_rat, ceil_rat]
  split_ifs with hneg hhalf hhalf
  · -- below zero the integer part is the least integer above
    have hle := Int.le_ceil x
    have hlt := Int.ceil_lt_add_one x
    rw [abs_of_nonpos (by linarith)] at hhalf
    exact abs_le.2 ⟨by linarith, by linarith⟩
  · exact (not_le.1 hhalf).le
  · have hle := Int.floor_le x
    have hlt := Int.lt_floor_add_one x
    rw [abs_of_nonneg (by linarith)] at hhalf
    exact abs_le.2 ⟨by linarith, by linarith⟩
  · exact (not_le.1 hhalf).le

end Scalar

namespace Fractional

variable {tolerance : ℚ} {values : List (Candidate ℚ)} {b c : Candidate ℚ}

/-! ## Fractional values -/

/-- An integer within one half of a number is as near as its nearest integer. -/
theorem abs_sub_eq_of_le_half {x : ℚ} {n : ℤ} (h : |x - n| ≤ 1 / 2) :
    |x - n| = |x - (round x : ℤ)| := by
  refine le_antisymm ?_ (round_le x n)
  rcases eq_or_ne n (round x) with rfl | hne
  · exact le_rfl
  · -- the other integer is at least one away from this one
    have hone : (1 : ℚ) ≤ |(round x : ℚ) - n| := by
      exact_mod_cast Int.one_le_abs (sub_ne_zero.2 hne.symm)
    have htriangle := abs_sub_le (round x : ℚ) x n
    rw [abs_sub_comm (round x : ℚ) x] at htriangle
    linarith

/-- Integral within a tolerance is what is within the tolerance of its nearest integer. -/
theorem isIntegral_iff {x : ℚ} : isIntegral tolerance x ↔ |x - (round x : ℤ)| ≤ tolerance := by
  obtain ⟨n, hn⟩ := Scalar.exists_round x
  have hhalf := Scalar.abs_sub_round_le_half x
  rw [hn] at hhalf
  rw [isIntegral, decide_eq_true_iff, Scalar.abs_rat, hn, abs_sub_eq_of_le_half hhalf]

/-- The distance of the fractional part from one half. -/
theorem distance_rat (x : ℚ) : distance x = |Int.fract x - 1 / 2| := by
  rw [distance, Scalar.half_rat]
  rfl

namespace Candidate

/-- A candidate is fractional if its value is no integer, not even within the tolerance. -/
def IsFractional (tolerance : ℚ) (c : Candidate ℚ) : Prop :=
  tolerance < |c.value - (round c.value : ℤ)|

/-- What is not fractional is integral. -/
theorem not_isFractional_iff : ¬c.IsFractional tolerance ↔ isIntegral tolerance c.value :=
  not_lt.trans isIntegral_iff.symm

/-- A candidate with a higher index has to be nearer to one half by more than the spacing. -/
theorem isBetter_iff (h : b.index < c.index) :
    c.isBetter b ↔ |Int.fract c.value - 1 / 2| < |Int.fract b.value - 1 / 2| - 1 / 2 ^ 52 := by
  simp only [isBetter, distance_rat, Scalar.epsilon_rat, Bool.or_eq_true, Bool.and_eq_true,
    decide_eq_true_iff, h.not_gt, and_false, or_false]

end Candidate

/-! ## The choice -/

/-- The choice among candidates: a fractional one, no other is nearer to one half by more than the
spacing, and those before it are strictly farther. -/
structure IsMost (tolerance : ℚ) (values : List (Candidate ℚ)) (b : Candidate ℚ) : Prop where
  mem : b ∈ values
  isFractional : b.IsFractional tolerance
  lt : ∀ c ∈ values, c.IsFractional tolerance → c.index < b.index →
    |Int.fract b.value - 1 / 2| < |Int.fract c.value - 1 / 2|
  le : ∀ c ∈ values, c.IsFractional tolerance →
    |Int.fract b.value - 1 / 2| - 1 / 2 ^ 52 ≤ |Int.fract c.value - 1 / 2|

namespace IsMost

/-- A fractional candidate that is strictly nearer to one half than all before it is the choice. -/
theorem last (hc : c.IsFractional tolerance) (h : ∀ d ∈ values, d.IsFractional tolerance →
    |Int.fract c.value - 1 / 2| < |Int.fract d.value - 1 / 2|) :
    IsMost tolerance (values ++ [c]) c := by
  have hspacing : |Int.fract c.value - 1 / 2| - 1 / 2 ^ 52 ≤ |Int.fract c.value - 1 / 2| :=
    sub_le_self _ (by norm_num)
  refine ⟨List.mem_append_right _ (List.mem_singleton_self c), hc, fun d hd hfrac hdc => ?_,
    fun d hd hfrac => ?_⟩
  · rcases List.mem_append.1 hd with hd | hd
    · exact h d hd hfrac
    · exact absurd hdc (List.mem_singleton.1 hd ▸ lt_irrefl _)
  · rcases List.mem_append.1 hd with hd | hd
    · exact hspacing.trans (h d hd hfrac).le
    · exact List.mem_singleton.1 hd ▸ hspacing

/-- The choice is kept if the next candidate is integral or not nearer by more than the spacing. -/
theorem pass (h : IsMost tolerance values b) (hlt : b.index < c.index)
    (hc : c.IsFractional tolerance → ¬c.isBetter b) : IsMost tolerance (values ++ [c]) b := by
  refine ⟨List.mem_append_left _ h.mem, h.isFractional, fun d hd hfrac hdb => ?_,
    fun d hd hfrac => ?_⟩
  · rcases List.mem_append.1 hd with hd | hd
    · exact h.lt d hd hfrac hdb
    · exact absurd hdb (List.mem_singleton.1 hd ▸ hlt.not_gt)
  · rcases List.mem_append.1 hd with hd | hd
    · exact h.le d hd hfrac
    · obtain rfl := List.mem_singleton.1 hd
      exact not_lt.1 fun hnear => hc hfrac ((Candidate.isBetter_iff hlt).2 hnear)

/-- A candidate that is nearer than the choice by more than the spacing is nearer than all before
it. -/
theorem exchange (h : IsMost tolerance values b) (hlt : b.index < c.index)
    (hc : c.IsFractional tolerance) (hbetter : c.isBetter b) :
    IsMost tolerance (values ++ [c]) c :=
  last hc fun d hd hfrac =>
    ((Candidate.isBetter_iff hlt).1 hbetter).trans_le (h.le d hd hfrac)

end IsMost

/-- What is chosen among candidates whose indices ascend. The induction is on the candidates looked
at so far: the next one has a higher index than all of them. -/
theorem isMost_of_most (h : values.Pairwise fun c d => c.index < d.index)
    (hb : most tolerance values = some b) : IsMost tolerance values b := by
  induction values using List.reverseRecOn generalizing b with
  | nil => cases hb
  | append_singleton values c ih =>
    obtain ⟨hvalues, -, hlast⟩ := List.pairwise_append.1 h
    have hlt : ∀ d ∈ values, d.index < c.index :=
      fun d hd => hlast d hd c (List.mem_singleton_self c)
    have hchoose : choose tolerance (most tolerance values) c = some b := by
      rwa [most, List.foldl_concat] at hb
    unfold choose at hchoose
    by_cases hfrac : c.IsFractional tolerance
    · rw [if_neg (mt Candidate.not_isFractional_iff.2 (not_not.2 hfrac))] at hchoose
      cases hbest : most tolerance values with
      | none =>
        rw [hbest] at hchoose
        obtain rfl := Option.some.inj hchoose
        exact .last hfrac fun d hd hd' =>
          absurd hd' (Candidate.not_isFractional_iff.2 (most_eq_none_iff.1 hbest d hd))
      | some a =>
        rw [hbest] at hchoose
        dsimp only at hchoose
        have hmost := ih hvalues hbest
        split_ifs at hchoose with hbetter
        · obtain rfl := Option.some.inj hchoose
          exact hmost.exchange (hlt a hmost.mem) hfrac hbetter
        · obtain rfl := Option.some.inj hchoose
          exact hmost.pass (hlt _ hmost.mem) fun _ => hbetter
    · rw [if_pos (Candidate.not_isFractional_iff.1 hfrac)] at hchoose
      have hmost := ih hvalues hchoose
      exact hmost.pass (hlt b hmost.mem) fun hfrac' => absurd hfrac' hfrac

/-- Among candidates whose indices ascend nothing is chosen exactly if all are integral within the
tolerance. Otherwise a fractional one is chosen: the fractional ones before it are strictly farther
from one half, and none is nearer by more than the spacing. -/
theorem most_spec (tolerance : ℚ) {values : List (Candidate ℚ)}
    (h : values.Pairwise fun c d => c.index < d.index) :
    (most tolerance values = none ↔
      ∀ c ∈ values, |c.value - (round c.value : ℤ)| ≤ tolerance) ∧
    ((∃ c ∈ values, c.IsFractional tolerance) →
      ∃ b, most tolerance values = some b ∧ IsMost tolerance values b) := by
  have hnone : most tolerance values = none ↔
      ∀ c ∈ values, |c.value - (round c.value : ℤ)| ≤ tolerance :=
    most_eq_none_iff.trans (forall₂_congr fun _ _ => isIntegral_iff)
  refine ⟨hnone, fun ⟨c, hc, hfrac⟩ => ?_⟩
  cases hbest : most tolerance values with
  | none => exact absurd (hnone.1 hbest c hc) hfrac.not_ge
  | some b => exact ⟨b, rfl, isMost_of_most h hbest⟩

/-- Along a chain of near ties only the last one is nearer than the first by more than the spacing.
-/
theorem most_spec_near_ties :
    let values : List (Candidate ℚ) := [⟨0, 1 / 4⟩, ⟨1, 2⟩, ⟨3, 1 / 4 + 1 / 2 ^ 53⟩,
      ⟨4, 3 / 4 - 1 / 2 ^ 52⟩, ⟨6, 5 / 4 + 3 / 2 ^ 53⟩]
    (values.Pairwise fun c d => c.index < d.index) ∧
      (∃ c ∈ values, c.IsFractional (1 / 10)) ∧
      ∃ b, most (1 / 10) values = some b ∧ b.index = 6 ∧ IsMost (1 / 10) values b := by
  intro values
  have hincr : values.Pairwise fun c d => c.index < d.index := by decide
  have hfrac : ∃ c ∈ values, c.IsFractional (1 / 10) :=
    ⟨⟨0, 1 / 4⟩, List.mem_cons_self,
      not_not.1 (mt Candidate.not_isFractional_iff.1 (by decide +kernel))⟩
  have hindex : (most (1 / 10) values).map (·.index) = some 6 := by decide +kernel
  obtain ⟨b, hb, hspec⟩ := (most_spec (1 / 10) hincr).2 hfrac
  rw [hb] at hindex
  exact ⟨hincr, hfrac, b, hb, Option.some.inj hindex, hspec⟩

end Fractional

/-! ## The variable that is branched or cut on -/

/-- The variables to be integral come in order. -/
theorem Problem.Indexed.candidates_pairwise {p : Problem ℚ} (h : p.Indexed) :
    (CuttingPlane.candidates p).Pairwise (· < ·) := by
  unfold CuttingPlane.candidates
  split_ifs
  · exact List.pairwise_lt_range
  · have hvars : p.vars.Pairwise fun v w => v.index < w.index :=
      List.pairwise_iff_getElem.2 fun i j hi hj hij => by
        rwa [h i _ (List.getElem?_eq_getElem hi), h j _ (List.getElem?_eq_getElem hj)]
    exact List.pairwise_map.2 (hvars.filter _)

/-- Branch-and-bound splits a node at the most fractional of its integer variables. -/
theorem BranchAndBound.isMost_of_pick {c : Config ℚ} {p : Problem ℚ} (hp : p.Indexed)
    {sol : Solution ℚ} {b : Fractional.Candidate ℚ} (h : pick c (goal p).1 sol = some b) :
    Fractional.IsMost c.integralityTolerance ((CuttingPlane.candidates p).map fun i =>
      ⟨i, (sol.decisionValues p.numVariables).getD i 0⟩) b := by
  have hgoal : (goal p).1 = ⟨p.numVariables, p.sense, CuttingPlane.candidates p⟩ := by
    dsimp only [goal, CuttingPlane.candidates]
    split_ifs <;> rfl
  rw [hgoal] at h
  exact Fractional.isMost_of_most (List.pairwise_map.2 hp.candidates_pairwise) h

/-- A cut is made from the row of the most fractional of the variables to be integral that have a
column of their own. -/
theorem CuttingPlane.isMost_of_pick {c : Config ℚ} {p : Problem ℚ} (hp : p.Indexed)
    {root : Call (Session ℚ) ℚ} {sol : Solution ℚ} {v : ℚ} {g : Goal} {r₀ r : Run ℚ}
    (hbegin : begin c p root sol v = .ok (g, r₀)) {b : Fractional.Candidate ℚ}
    (h : r.pick c g = some b) : Fractional.IsMost c.integralityTolerance
      (g.direct.map fun e => ⟨e.1, (r.solution.decisionValues g.numVariables).getD e.1 0⟩) b := by
  unfold begin at hbegin
  cases hf : StandardForm.ofProblem p with
  | error e => rw [hf] at hbegin; cases hbegin
  | ok f =>
    rw [hf] at hbegin
    obtain ⟨rfl, -⟩ := Prod.mk.inj (Except.ok.inj hbegin)
    refine Fractional.isMost_of_most (List.pairwise_map.2 ?_) h
    refine hp.candidates_pairwise.filterMap _ fun i k hik e he e' he' => ?_
    obtain ⟨col, -, rfl⟩ := Option.map_eq_some_iff.1 he
    obtain ⟨col', -, rfl⟩ := Option.map_eq_some_iff.1 he'
    exact hik

end LinOpt
