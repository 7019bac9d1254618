import LinOpt.Selection

/-!
# Sorted lists

`Selection.sortStable` only reorders (`Selection.sortStable_perm`), and what it gives is sorted
(`Selection.sortStable_pairwise`): for every relation that each comparison decides one way or the
other, and that goes on from entry to entry, every entry stands in it to all entries behind. Where a
comparison decides nothing the given order does (`Selection.sortStable_pairwise_of_pairwise`).
-/

namespace LinOpt.Selection

variable {α : Type} {precedes : α → α → Bool}

/-- Inserting adds one entry and loses none. -/
theorem insertReversed_perm (precedes : α → α → Bool) (x : α) (ys : List α) :
    (insertReversed precedes x ys).Perm (x :: ys) := by
  induction ys with
  | nil => exact .refl _
  | cons y ys ih =>
    rw [insertReversed]
    split
    · exact (ih.cons y).trans (.swap x y ys)
    · exact .refl _

/-- Sorting reorders. -/
theorem sortStable_perm (precedes : α → α → Bool) (xs : List α) :
    (sortStable precedes xs).Perm xs := by
  have hfold : ∀ sorted : List α,
      (xs.foldl (fun sorted x => insertReversed precedes x sorted) sorted).Perm (sorted ++ xs) := by
    induction xs with
    | nil => exact fun sorted => .of_eq (List.append_nil sorted).symm
    | cons x xs ih =>
      intro sorted
      refine (ih _).trans ?_
      exact ((insertReversed_perm precedes x sorted).append_right xs).trans List.perm_middle.symm
  exact (List.reverse_perm _).trans (hfold [])

variable {R : α → α → Prop}

/-- A list in reverse order stays so when an entry is put into its place. -/
theorem insertReversed_pairwise (htrans : ∀ a b c, R a b → R b c → R a c) {x : α} {ys : List α}
    (hbefore : ∀ y ∈ ys, precedes x y = true → R x y)
    (hbehind : ∀ y ∈ ys, precedes x y = false → R y x) (h : ys.Pairwise fun a b => R b a) :
    (insertReversed precedes x ys).Pairwise fun a b => R b a := by
  induction ys with
  | nil => exact List.pairwise_singleton _ x
  | cons y ys ih =>
    obtain ⟨hy, hys⟩ := List.pairwise_cons.1 h
    have hbefore' := List.forall_mem_cons.1 hbefore
    have hbehind' := List.forall_mem_cons.1 hbehind
    rw [insertReversed]
    cases hxy : precedes x y with
    | true =>
      refine List.pairwise_cons.2 ⟨fun z hz => ?_, ih hbefore'.2 hbehind'.2 hys⟩
      rcases List.mem_cons.1 ((insertReversed_perm precedes x ys).mem_iff.1 hz) with rfl | hz
      · exact hbefore'.1 hxy
      · exact hy z hz
    | false =>
      refine List.pairwise_cons.2 ⟨fun z hz => ?_, h⟩
      rcases List.mem_cons.1 hz with rfl | hz
      · exact hbehind'.1 hxy
      · exact htrans z y x (hy z hz) (hbehind'.1 hxy)

/-- Sorting leaves entries in place that the test does not tell apart: it is enough that an entry
stands in the relation to those behind it in the given list that do not precede it. -/
theorem sortStable_pairwise_of_pairwise (htrans : ∀ a b c, R a b → R b c → R a c)
    (hbefore : ∀ a b, precedes a b = true → R a b) {xs : List α}
    (h : xs.Pairwise fun a b => precedes b a = false → R a b) :
    (sortStable precedes xs).Pairwise R := by
  have hfold : ∀ sorted : List α, sorted.Pairwise (fun a b => R b a) →
      (∀ y ∈ sorted, ∀ x ∈ xs, precedes x y = false → R y x) →
      (xs.foldl (fun sorted x => insertReversed precedes x sorted) sorted).Pairwise
        fun a b => R b a := by
    induction xs with
    | nil => exact fun sorted hsorted _ => hsorted
    | cons x xs ih =>
      intro sorted hsorted hbehind
      obtain ⟨hx, hxs⟩ := List.pairwise_cons.1 h
      refine ih hxs _ (insertReversed_pairwise htrans (fun y _ => hbefore x y)
        (fun y hy => hbehind y hy x List.mem_cons_self) hsorted) fun y hy z hz => ?_
      rcases List.mem_cons.1 ((insertReversed_perm precedes x sorted).mem_iff.1 hy) with rfl | hy
      · exact hx z hz
      · exact hbehind y hy z (List.mem_cons_of_mem x hz)
  exact List.pairwise_reverse.2 (hfold [] .nil fun y hy => nomatch hy)

/-- Every entry of a sorted list stands in the relation to all entries behind it. -/
theorem sortStable_pairwise (htrans : ∀ a b c, R a b → R b c → R a c)
    (hbefore : ∀ a b, precedes a b = true → R a b) (hbehind : ∀ a b, precedes a b = false → R b a)
    (xs : List α) : (sortStable precedes xs).Pairwise R :=
  sortStable_pairwise_of_pairwise htrans hbefore
    (List.pairwise_of_forall fun a b => hbehind b a)

end LinOpt.Selection
