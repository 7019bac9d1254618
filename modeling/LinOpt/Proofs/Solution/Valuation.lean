import Mathlib.Data.List.Nodup
import LinOpt.Solution.Basic

/-!
# Looking up values

A valuation is a list of names with values, kept in the order in which the names came up. Inserting
changes what one name has and nothing else (`get?_insert`), so after several insertions a name has
what was inserted for it last; where no name comes twice, that is what the list says
(`get?_insertAll_of_mem`) and the list is kept as it is (`entries_insertAll`). The names of columns
are written apart (`ColumnName.text_inj`), so their texts may stand for them.
-/

namespace LinOpt.ColumnName

/-- A numbered name is its letter in front of its number. -/
theorem numbered_eq (l : Char) (n : Nat) : numbered l n = String.singleton l ++ toString n := by
  refine String.toList_inj.1 ?_
  rw [String.toList_append, numbered, String.toList_ofList, Nat.toString_eq_ofList_toDigits]
  simp

/-- Letter and number can be read off a numbered name. -/
theorem numbered_inj {l l' : Char} {n n' : Nat} (h : numbered l n = numbered l' n') :
    l = l' ∧ n = n' := by
  obtain ⟨hl, hdigits⟩ := List.cons.inj (String.ofList_injective h)
  refine ⟨hl, ?_⟩
  rw [← Nat.ofDigitChars_ten_toDigits (n := n), hdigits, Nat.ofDigitChars_ten_toDigits]

/-- Names of columns that are written alike are the same: the letters of the kinds differ, and none
of them is that of the variables. -/
theorem text_inj {a b : ColumnName} (ha : ∀ s, a ≠ .other s) (hb : ∀ s, b ≠ .other s)
    (h : a.text = b.text) : a = b := by
  cases a with
  | other s => exact absurd rfl (ha s)
  | decision i =>
    cases b with
    | other s => exact absurd rfl (hb s)
    | decision j => rw [Nat.succ.inj (numbered_inj h).2]
    | auxiliary k n => cases k <;> exact absurd (numbered_inj h).1 (by decide)
  | auxiliary k n =>
    cases b with
    | other s => exact absurd rfl (hb s)
    | decision j => cases k <;> exact absurd (numbered_inj h).1 (by decide)
    | auxiliary k' n' =>
      obtain ⟨hletter, rfl⟩ := numbered_inj h
      cases k <;> cases k' <;> first | rfl | exact absurd hletter (by decide)

end LinOpt.ColumnName

namespace LinOpt.Valuation

variable {α : Type}

/-- A name that is there is found. -/
theorem isSome_get? (v : Valuation α) (name : ColumnName) :
    (v.get? name).isSome = v.contains name := by
  rw [get?, contains, Option.isSome_map, Bool.eq_iff_iff, List.find?_isSome, List.any_eq_true]

/-- Changing the value of a name. -/
theorem get?_modify (v : Valuation α) (name name' : ColumnName) (f : α → α) :
    (v.modify name f).get? name' =
      if name' = name then (v.get? name).map f else v.get? name' := by
  obtain ⟨entries⟩ := v
  induction entries with
  | nil => simp [get?, modify]
  | cons e entries ih =>
    simp only [get?, modify, List.map_cons] at ih ⊢
    by_cases he : e.1 = name
    · subst he
      by_cases h : name' = e.1
      · subst h
        simp
      · rw [if_neg h] at ih ⊢
        rw [if_pos rfl, List.find?_cons_of_neg (by simpa using Ne.symm h),
          List.find?_cons_of_neg (by simpa using Ne.symm h), ih]
    · rw [if_neg he, List.find?_cons_of_neg (a := e) (p := fun x => decide (x.1 = name))
        (by simpa using he)]
      by_cases h : e.1 = name'
      · have hne : name' ≠ name := h ▸ he
        rw [if_neg hne, List.find?_cons_of_pos (by simpa using h),
          List.find?_cons_of_pos (by simpa using h)]
      · rw [List.find?_cons_of_neg (by simpa using h), ih, List.find?_cons_of_neg (a := e)
          (p := fun x => decide (x.1 = name')) (by simpa using h)]

/-- Inserting gives one name a value. -/
theorem get?_insert (v : Valuation α) (name name' : ColumnName) (x : α) :
    (v.insert name x).get? name' = if name' = name then some x else v.get? name' := by
  unfold insert
  split_ifs with hmem hname hname
  · rw [get?_modify, if_pos hname]
    have := (v.isSome_get? name).trans hmem
    obtain ⟨y, hy⟩ := Option.isSome_iff_exists.1 this
    rw [hy]
    rfl
  · rw [get?_modify, if_neg hname]
  · subst hname
    have hnone : v.entries.find? (·.1 = name') = none := by
      rw [List.find?_eq_none]
      intro e he hn
      exact hmem (List.any_eq_true.2 ⟨e, he, hn⟩)
    rw [get?, List.find?_append, hnone]
    simp
  · rw [get?, get?, List.find?_append]
    simp [Ne.symm hname]

/-- A name that is not inserted keeps its value. -/
theorem get?_insertAll_of_notMem {name : ColumnName} {entries : List (ColumnName × α)}
    (h : name ∉ entries.map (·.1)) (v : Valuation α) :
    (v.insertAll entries).get? name = v.get? name := by
  induction entries generalizing v with
  | nil => rfl
  | cons e entries ih =>
    rw [List.map_cons, List.mem_cons, not_or] at h
    exact (ih h.2 (v.insert e.1 e.2)).trans (by rw [get?_insert, if_neg h.1])

/-- Where no name comes twice, a name that is inserted has its value. -/
theorem get?_insertAll_of_mem {entries : List (ColumnName × α)}
    (hnodup : (entries.map (·.1)).Nodup) {e : ColumnName × α} (he : e ∈ entries) (v : Valuation α) :
    (v.insertAll entries).get? e.1 = some e.2 := by
  induction entries generalizing v with
  | nil => cases he
  | cons e' entries ih =>
    rw [List.map_cons, List.nodup_cons] at hnodup
    rcases List.mem_cons.1 he with rfl | he
    · exact (get?_insertAll_of_notMem hnodup.1 (v.insert e.1 e.2)).trans
        (by rw [get?_insert, if_pos rfl])
    · exact ih hnodup.2 he (v.insert e'.1 e'.2)

/-- A name without a value is added behind the others. -/
theorem entries_insert {v : Valuation α} {name : ColumnName} (h : name ∉ v.entries.map (·.1))
    (x : α) : (v.insert name x).entries = v.entries ++ [(name, x)] := by
  rw [insert, if_neg]
  simpa [contains] using h

/-- Names that do not come twice are added in order. -/
theorem entries_insertAll {entries : List (ColumnName × α)} {v : Valuation α}
    (h : ((v.entries ++ entries).map (·.1)).Nodup) :
    (v.insertAll entries).entries = v.entries ++ entries := by
  induction entries generalizing v with
  | nil => exact (List.append_nil _).symm
  | cons e entries ih =>
    rw [List.append_cons] at h ⊢
    have hfresh : e.1 ∉ v.entries.map (·.1) := by
      rw [List.map_append, List.map_append] at h
      exact fun hmem => (List.nodup_append.1 (List.nodup_append.1 h).1).2.2 _ hmem _
        (by simp) rfl
    have hentries := entries_insert hfresh e.2
    have hinsert := ih (v := v.insert e.1 e.2) (by rw [hentries]; exact h)
    rwa [hentries] at hinsert

/-- The values of the decision variables, inserted in order. -/
theorem get?_insertAll_decisions {vs : List α} {i : Nat} {x : α} (h : vs[i]? = some x)
    (v : Valuation α) :
    (v.insertAll (vs.mapIdx fun i x => (.decision i, x))).get? (.decision i) = some x := by
  have hnodup : ((vs.mapIdx fun i x => (ColumnName.decision i, x)).map (·.1)).Nodup := by
    refine List.nodup_iff_injective_get.2 fun a b hab => Fin.ext ?_
    simpa using hab
  refine get?_insertAll_of_mem hnodup (e := (.decision i, x)) (List.mem_of_getElem? (i := i) ?_) v
  rw [List.getElem?_mapIdx, h]
  rfl

/-- The values of the decision variables are the ones inserted for them, whatever is inserted for
other names. -/
theorem get?_decision (vs : List α) {others : List (ColumnName × α)} {i : Nat}
    (h : .decision i ∉ others.map (·.1)) :
    ((({} : Valuation α).insertAll (vs.mapIdx fun i x => (.decision i, x))).insertAll
      others).get? (.decision i) = vs[i]? := by
  rw [get?_insertAll_of_notMem h]
  cases hi : vs[i]? with
  | some x => exact get?_insertAll_decisions hi _
  | none =>
    rw [get?_insertAll_of_notMem]
    · rfl
    · intro hmem
      obtain ⟨e, he, hname⟩ := List.mem_map.1 hmem
      obtain ⟨k, hk, rfl⟩ := List.mem_mapIdx.1 he
      obtain rfl : k = i := ColumnName.decision.inj hname
      exact absurd hk (Nat.not_lt.2 (List.getElem?_eq_none_iff.1 hi))

end LinOpt.Valuation

namespace LinOpt.Solution

/-- The values of the decision variables, if each of them has the value listed for it. -/
theorem decisionValues_eq {α : Type} [Scalar α] {s : Solution α} {xs : List α}
    (h : ∀ i v, xs[i]? = some v → s.value? (.decision i) = some v) :
    s.decisionValues xs.length = xs := by
  refine List.ext_getElem (by simp [decisionValues]) fun i _ hi => ?_
  simp only [decisionValues, List.getElem_map, List.getElem_range,
    h i _ (List.getElem?_eq_getElem hi), Option.getD_some]

end LinOpt.Solution
