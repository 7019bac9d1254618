import LinOpt.Proofs.Simplex.Dual.History

/-!
# The standard form as a change of variables

The columns of a problem are its variables written differently. Every column belongs to one variable
(`ColumnMap.existsUnique_owns`) and carries its coefficients up to a sign
(`ColumnMap.Owns.carries`). A non-negative list of column values solves the rows exactly where the
point recovered from it is feasible (`StandardForm.solves_iff`), and every feasible point is
recovered from one (`StandardForm.exchanges_ofProblem`).
-/

namespace LinOpt

namespace ColumnMap

open Placement (totalWidth)

/-! ## Columns and their variables -/

/-- The column is one of those that the variable is placed in. -/
def Owns (m : ColumnMap) (i j : ℕ) : Prop :=
  ∃ p f, m.placements[i]? = some p ∧ m.firstColumn? i = some f ∧ f ≤ j ∧ j < f + p.width

variable {m : ColumnMap} {i j : ℕ}

/-- The columns of a variable stand behind those of the variables before it. -/
theorem owns_iff : m.Owns i j ↔ ∃ p, m.placements[i]? = some p ∧
    totalWidth (m.placements.take i) ≤ j ∧ j < totalWidth (m.placements.take i) + p.width := by
  refine exists_congr fun p => ?_
  constructor
  · rintro ⟨f, hp, hf, hj⟩
    unfold firstColumn? at hf
    split_ifs at hf
    obtain rfl := Option.some.inj hf
    exact ⟨hp, hj⟩
  · rintro ⟨hp, hj⟩
    exact ⟨_, hp, if_pos (List.getElem?_eq_some_iff.1 hp).1, hj⟩

/-- The first variable owns the first columns. -/
theorem owns_zero_iff {p : Placement} {ps : List Placement} :
    Owns ⟨p :: ps⟩ 0 j ↔ j < p.width := by
  simp [owns_iff, totalWidth]

/-- The other variables own the columns behind. -/
theorem owns_succ_iff {p : Placement} {ps : List Placement} :
    Owns ⟨p :: ps⟩ (i + 1) j ↔ p.width ≤ j ∧ Owns ⟨ps⟩ i (j - p.width) := by
  simp only [owns_iff, List.getElem?_cons_succ, List.take_succ_cons, totalWidth]
  constructor
  · rintro ⟨q, hq, hle, hlt⟩
    exact ⟨by omega, q, hq, by omega, by omega⟩
  · rintro ⟨hle, q, hq, hle', hlt⟩
    exact ⟨q, hq, by omega, by omega⟩

/-- Every column belongs to one variable. -/
theorem existsUnique_owns (hj : j < m.numColumns) : ∃! i, m.Owns i j := by
  obtain ⟨ps⟩ := m
  induction ps generalizing j with
  | nil => exact absurd hj (Nat.not_lt_zero j)
  | cons p ps ih =>
    have hcolumns : numColumns ⟨p :: ps⟩ = p.width + numColumns ⟨ps⟩ := rfl
    rcases Nat.lt_or_ge j p.width with hlt | hge
    · refine ⟨0, owns_zero_iff.2 hlt, fun i hi => ?_⟩
      cases i with
      | zero => rfl
      | succ i => exact absurd (owns_succ_iff.1 hi).1 hlt.not_ge
    · obtain ⟨i, hi, hunique⟩ := ih (j := j - p.width) (by omega)
      refine ⟨i + 1, owns_succ_iff.2 ⟨hge, hi⟩, fun i' hi' => ?_⟩
      cases i' with
      | zero => exact absurd (owns_zero_iff.1 hi') hge.not_gt
      | succ i' => rw [hunique i' (owns_succ_iff.1 hi').2]

/-- A column of a variable has its coefficients, all of them or none with the sign changed. -/
theorem exists_getD_spread {p : Placement} (hj : j < p.width) :
    ∃ s : ℚ, (s = 1 ∨ s = -1) ∧ ∀ a, (p.spread a).getD j 0 = s * a := by
  cases p with
  | direct =>
    obtain rfl : j = 0 := Nat.lt_one_iff.1 hj
    exact ⟨1, .inl rfl, fun a => (one_mul a).symm⟩
  | negated =>
    obtain rfl : j = 0 := Nat.lt_one_iff.1 hj
    exact ⟨-1, .inr rfl, fun a => (neg_one_mul a).symm⟩
  | split =>
    have hj : j ≤ 1 := Nat.lt_succ_iff.1 hj
    obtain rfl | rfl := Nat.le_one_iff_eq_zero_or_eq_one.1 hj
    · exact ⟨1, .inl rfl, fun a => (one_mul a).symm⟩
    · exact ⟨-1, .inr rfl, fun a => (neg_one_mul a).symm⟩

/-- Coefficients are spread one by one, and those that are missing are 0. -/
theorem spreadAll_cons (p : Placement) (ps : List Placement) (as : List ℚ) :
    spreadAll (p :: ps) as = p.spread (as.getD 0 0) ++ spreadAll ps as.tail := by
  cases as with
  | nil => cases p <;> simp [spreadAll, Placement.spread, Placement.width, List.replicate]
  | cons a as => rfl

/-- A column has the coefficients of the variable that owns it, up to the sign. -/
theorem Owns.carries (h : m.Owns i j) : ∃ s : ℚ, (s = 1 ∨ s = -1) ∧
    ∀ as : List ℚ, (spreadAll m.placements as).getD j 0 = s * as.getD i 0 := by
  obtain ⟨ps⟩ := m
  induction ps generalizing i j with
  | nil =>
    obtain ⟨p, hp, -⟩ := owns_iff.1 h
    cases hp
  | cons p ps ih =>
    cases i with
    | zero =>
      have hj : j < p.width := owns_zero_iff.1 h
      obtain ⟨s, hs, hspread⟩ := exists_getD_spread hj
      refine ⟨s, hs, fun as => ?_⟩
      rw [spreadAll_cons, List.getD_append _ _ _ _ (by rwa [Placement.length_spread]), hspread]
    | succ i =>
      obtain ⟨hle, hi⟩ := owns_succ_iff.1 h
      obtain ⟨s, hs, htail⟩ := ih hi
      refine ⟨s, hs, fun as => ?_⟩
      rw [spreadAll_cons, List.getD_append_right _ _ _ _ (by rwa [Placement.length_spread]),
        Placement.length_spread, htail]
      cases as <;> rfl

/-! ## Column values -/

/-- Values of all columns stand for the point recovered from them. -/
theorem recover_eq_point {ys : List ℚ} (h : ys.length = m.numColumns) :
    m.recover ys = m.point (ys.getD · 0) := by
  refine congrArg m.recover (List.ext_getElem (by simp [h]) fun j hj _ => ?_)
  simp [hj]

/-- A row over columns holds where the constraint does. -/
theorem isSatisfied_spreadRow (m : ColumnMap) (c : Constraint ℚ) (ys : List ℚ) :
    (m.spreadRow c).IsSatisfied ys 0 ↔ c.IsSatisfied (m.recover ys) 0 := by
  have hlhs : (m.spreadRow c).lhs ys = c.lhs (m.recover ys) := dot_spreadAll _ _ _
  unfold Constraint.IsSatisfied
  rw [hlhs]
  rfl

end ColumnMap

namespace StandardForm

/-- A problem has a standard form if no constraint has too many coefficients. -/
theorem exists_ofProblem {p : Problem ℚ} (h : p.Fits) : ∃ f, ofProblem p = .ok f := by
  obtain ⟨m, hm⟩ := (Model.exists_build_iff 0 p).2 h
  unfold Model.build at hm
  cases hf : ofProblem p with
  | error e => rw [hf] at hm; cases hm
  | ok f => exact ⟨f, rfl⟩

/-- The values of all columns are non-negative and satisfy every row. -/
structure Solves (f : StandardForm ℚ) (ys : List ℚ) : Prop where
  length : ys.length = f.columns.numColumns
  nonneg : ∀ y ∈ ys, 0 ≤ y
  rows : ∀ r ∈ f.rows, r.IsSatisfied ys 0

/-- A standard form writes its problem differently: its columns belong to one variable each and
carry the coefficients of it, its solutions stand for feasible points of the same objective value,
and all feasible points come from solutions. -/
structure Exchanges (f : StandardForm ℚ) (p : Problem ℚ) : Prop where
  sense : f.sense = p.sense
  owner : ∀ j < f.columns.numColumns, ∃! i, f.columns.Owns i j
  carried : ∀ i j, f.columns.Owns i j → i < p.numVariables ∧ j < f.columns.numColumns ∧
    ∃ s : ℚ, (s = 1 ∨ s = -1) ∧
      ∀ as bs, f.columns.toColumns as = .ok bs → bs.getD j 0 = s * as.getD i 0
  translated : ∀ as : List ℚ, as.length ≤ p.numVariables →
    ∃ bs, f.columns.toColumns as = .ok bs ∧ bs.length = f.columns.numColumns ∧
      ∀ ys, ys.length = f.columns.numColumns →
        Scalar.dot bs ys = Scalar.dot as (f.columns.recover ys)
  objective : ∀ ys, ys.length = f.columns.numColumns →
    Scalar.dot f.objective ys = p.objectiveValue (f.columns.recover ys)
  feasible : ∀ ys, f.Solves ys → p.Feasible (f.columns.recover ys)
  covered : ∀ x, p.Feasible x → ∃ ys, f.Solves ys ∧ f.columns.recover ys = x

variable {f : StandardForm ℚ} {p : Problem ℚ}

/-- Non-negative column values solve the rows where the point recovered from them is feasible. -/
theorem solves_iff (hf : ofProblem p = .ok f) (hp : p.Indexed) {ys : List ℚ}
    (hlength : ys.length = f.columns.numColumns) (hnonneg : ∀ y ∈ ys, 0 ≤ y) :
    f.Solves ys ↔ p.Feasible (f.columns.recover ys) := by
  obtain ⟨hcolumns, -, -, hrows⟩ := ofProblem_eq_ok hf
  have hadmits : List.Forall₂ Placement.Admits f.columns.placements (f.columns.recover ys) := by
    rw [ColumnMap.recover_eq_point hlength]
    refine f.columns.admits_point fun j => ?_
    rw [List.getD_eq_getElem?_getD]
    cases hj : ys[j]? with
    | none => exact le_refl 0
    | some y => exact hnonneg y (List.mem_of_getElem? hj)
  have hsolves : f.Solves ys ↔
      ∀ c ∈ (Posed.mk p []).rows, c.IsSatisfied (f.columns.recover ys) 0 := by
    rw [Posed.rows, List.append_nil]
    constructor
    · intro h c hc
      exact (f.columns.isSatisfied_spreadRow c ys).1 (h.rows _ (hrows ▸ List.mem_map_of_mem hc))
    · refine fun h => ⟨hlength, hnonneg, fun r hr => ?_⟩
      obtain ⟨c, hc, rfl⟩ := List.mem_map.1 (hrows ▸ hr)
      exact (f.columns.isSatisfied_spreadRow c ys).2 (h c hc)
  have hfeasible := Posed.feasible_iff (q := ⟨p, []⟩) hp (x := f.columns.recover ys)
  rw [Posed.current_nil, ← hcolumns] at hfeasible
  rw [hsolves, hfeasible]
  exact (and_iff_right hadmits).symm

/-- Every problem whose coefficients fit is exchanged for its standard form. -/
theorem exchanges_ofProblem (hp : p.Indexed)
    (hfits : ∀ c ∈ p.constraints, c.coefficients.length ≤ p.numVariables) :
    ∃ f, ofProblem p = .ok f ∧ f.Exchanges p := by
  obtain ⟨f, hf⟩ := exists_ofProblem hfits
  obtain ⟨hcolumns, hsense, hobjective, -⟩ := ofProblem_eq_ok hf
  have hvariables : f.columns.numVariables = p.numVariables := by
    rw [hcolumns]
    exact List.length_map _
  refine ⟨f, hf, hsense, fun j => ColumnMap.existsUnique_owns, fun i j hij => ?_,
    fun as has => ?_, fun ys _ => ?_, fun ys hys => ?_, fun x hx => ?_⟩
  · obtain ⟨q, hq, -, hlt⟩ := ColumnMap.owns_iff.1 hij
    obtain ⟨s, hs, hcarries⟩ := hij.carries
    refine ⟨hvariables ▸ (List.getElem?_eq_some_iff.1 hq).1,
      hlt.trans_le (ColumnMap.getElem?_point hq 0).1, s, hs, fun as bs hbs => ?_⟩
    rw [ColumnMap.toColumns_eq_ok hbs]
    exact hcarries as
  · refine ⟨_, if_neg (hvariables ▸ has).not_gt, ColumnMap.length_spreadAll _ _, fun ys _ => ?_⟩
    exact ColumnMap.dot_spreadAll _ _ _
  · rw [hobjective]
    exact ColumnMap.dot_spreadAll _ _ _
  · exact (solves_iff hf hp hys.length hys.nonneg).1 hys
  · have hplaced := ((Posed.feasible_iff (q := ⟨p, []⟩) hp).1 (by rwa [Posed.current_nil])).1
    obtain ⟨y, hy, rfl⟩ := ColumnMap.exists_point (m := f.columns) (hcolumns ▸ hplaced)
    have hlength : ((List.range f.columns.numColumns).map y).length = f.columns.numColumns := by
      simp
    have hnonneg : ∀ a ∈ (List.range f.columns.numColumns).map y, 0 ≤ a :=
      List.forall_mem_map.2 fun j _ => hy j
    exact ⟨_, (solves_iff hf hp hlength hnonneg).2 hx, rfl⟩

/-- One variable of each placement, and a binary one. -/
theorem exchanges_ofProblem_placements :
    let p : Problem ℚ :=
      { sense := .maximize
        vars := [⟨0, 1, .nonPositive⟩, ⟨1, 2, .unrestricted⟩, ⟨2, 3, .integer⟩, ⟨3, 4, .binary⟩]
        constraints := [⟨[1, 1], .le, 4⟩] }
    ∃ f, ofProblem p = .ok f ∧ f.columns.numColumns = 5 ∧ f.objective = [-1, 2, -2, 3, 4] ∧
      f.rows.map (·.coefficients) = [[-1, 1, -1, 0, 0], [0, 0, 0, 0, 1]] ∧ f.Exchanges p := by
  intro p
  have hp : p.Indexed := by
    intro i v hv
    match i, hv with
    | 0, hv | 1, hv | 2, hv | 3, hv => rw [← Option.some.inj hv]
  obtain ⟨f, hf, hexchanges⟩ := exchanges_ofProblem hp (by decide)
  have hrun : (ofProblem p).toOption.map (fun f => (f.columns.numColumns, f.objective,
      f.rows.map (·.coefficients))) = some (5, [-1, 2, -2, 3, 4],
        [[-1, 1, -1, 0, 0], [0, 0, 0, 0, 1]]) := by decide +kernel
  obtain ⟨f', hf', hread⟩ := exists_ok_of_map hrun
  obtain rfl : f = f' := Except.ok.inj (hf.symm.trans hf')
  obtain ⟨hcolumns, hobjective, hrows⟩ := by simpa only [Prod.mk.injEq] using hread
  exact ⟨f, hf, hcolumns, hobjective, hrows, hexchanges⟩

end StandardForm
end LinOpt
