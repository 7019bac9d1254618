import LinOpt.Proofs.Problem.Feasible
import LinOpt.Proofs.Problem.Violations

/-!
# Problems that are built call by call

A problem starts without constraints and grows by calls, some of which are refused
(`Problem.Built`). A call changes the problem in place (`BuildCall.run`), and a refused one changes
nothing (`BuildCall.careful_run`). A row gets its zeros in two places, when it comes and when a
variable comes after it. In whatever order this happens, every row has one coefficient for each
variable (`Problem.Aligned`) and every variable knows its position (`Problem.Indexed`), because each
call keeps both (`Problem.Aligned.after`, `Problem.Indexed.after`). A row that is not longer than
the point it is read at does not see what is appended to both, so a new variable changes no
left-hand side and no violation (`Problem.lhs_addVariable`, `Problem.violations_addVariable`).
-/

namespace LinOpt

variable {α : Type}

/-- A call that changes a problem. -/
inductive BuildCall (α : Type) where
  | addVariable (objective : α) (restriction : Restriction)
  | withRestrictions (restrictions : List Restriction)
  | addConstraint (constraint : Constraint α)

namespace Problem

variable {p q : Problem α}

/-- Every constraint has one coefficient for each variable. -/
def Aligned (p : Problem α) : Prop := ∀ c ∈ p.constraints, c.coefficients.length = p.numVariables

/-- A problem without variables is aligned. -/
theorem Aligned.empty (sense : Sense) : (Problem.empty sense : Problem α).Aligned :=
  fun _ hc => nomatch hc

/-- Restrictions are refused exactly if there is not one for each variable. -/
theorem withRestrictions_eq_error {rs : List Restriction} {e : Error α} :
    p.withRestrictions rs = .error e ↔ rs.length ≠ p.numVariables ∧
      e = .dimensionMismatch p.numVariables rs.length := by
  rw [withRestrictions_eq]
  split_ifs with h <;> simp [h, eq_comm]

/-- Restricting anew leaves as many variables as there were. -/
theorem Aligned.withRestrictions (h : p.Aligned) {rs : List Restriction}
    (hq : p.withRestrictions rs = .ok q) : q.Aligned := by
  rw [withRestrictions_eq] at hq
  split_ifs at hq with hlength
  obtain rfl := Except.ok.inj hq
  intro c hc
  rw [h c hc, numVariables, numVariables, List.length_zipWith, not_not.1 hlength]
  exact (Nat.min_self _).symm

end Problem

variable [Scalar α]

/-- What a call does to a problem. -/
def BuildCall.run : BuildCall α → Change α (Problem α) Unit
  | .addVariable objective restriction => modify (·.addVariable objective restriction)
  | .withRestrictions restrictions => Problem.restrict restrictions
  | .addConstraint constraint => Problem.pushConstraint constraint

/-- What a call returns. -/
def BuildCall.result (k : BuildCall α) (p : Problem α) : Except (Error α) (Problem α) :=
  k.run.result p

/-- No call is refused after it has changed something. -/
theorem BuildCall.careful_run : ∀ k : BuildCall α, k.run.Careful
  | .addVariable _ _ => fun _ _ _ h => nomatch h
  | .withRestrictions rs => Problem.careful_restrict rs
  | .addConstraint c => Problem.careful_pushConstraint c

namespace Problem

variable {p q : Problem α}

/-! ## Calls -/

/-- The problem that is left by a call, refused or not. -/
def after (p : Problem α) (k : BuildCall α) : Problem α := k.run.state p

/-- The problems that calls lead to, from one without variables or from an objective. -/
inductive Built : Problem α → Prop where
  | empty (sense : Sense) : Built (.empty sense)
  | ofObjective (sense : Sense) (objective : List α) : Built (.ofObjective sense objective)
  | after {p : Problem α} (k : BuildCall α) (h : Built p) : Built (p.after k)

/-- A constraint is refused exactly if it has more coefficients than there are variables. -/
theorem addConstraint_eq_error {c : Constraint α} {e : Error α} :
    p.addConstraint c = .error e ↔ p.numVariables < c.coefficients.length ∧
      e = .dimensionMismatch p.numVariables c.coefficients.length := by
  rw [addConstraint_eq]
  split_ifs with h <;> simp [h, eq_comm]

/-- A refused call leaves the problem as it is. -/
theorem after_of_error {k : BuildCall α} {e : Error α} (h : k.result p = .error e) :
    p.after k = p := k.careful_run.state_eq h

/-- A call keeps what it keeps when it is not refused. -/
theorem after_of_ok {P : Problem α → Prop} (k : BuildCall α) (h : P p)
    (hok : ∀ q, k.result p = .ok q → P q) : P (p.after k) := by
  cases hresult : k.result p with
  | error e => rwa [after_of_error hresult]
  | ok q =>
    rw [after, k.run.state_of_ok hresult]
    exact hok q hresult

/-! ## What calls keep -/

/-- Padding reaches the length that it is asked for. -/
theorem length_padTo {n : ℕ} {c : Constraint α} (h : c.coefficients.length ≤ n) :
    (c.padTo n).coefficients.length = n := by
  rw [Constraint.padTo, List.length_append, List.length_replicate, Nat.add_sub_cancel' h]

namespace Aligned

/-- A variable keeps a problem aligned: every constraint gets a coefficient for it. -/
theorem addVariable (h : p.Aligned) (objective : α) (r : Restriction) :
    (p.addVariable objective r).Aligned := by
  intro c hc
  obtain ⟨k, hk, rfl⟩ := List.mem_map.1 hc
  show (k.padTo (p.numVariables + 1)).coefficients.length = (p.vars ++ [_]).length
  rw [length_padTo ((h k hk).le.trans (Nat.le_succ _)), List.length_append]
  rfl

/-- An objective is aligned, as there are no constraints yet. -/
theorem ofObjective (sense : Sense) (objective : List α) :
    (Problem.ofObjective sense objective).Aligned :=
  List.foldlRecOn objective _ (empty sense) fun _ h c _ => h.addVariable c .nonNegative

/-- A constraint keeps a problem aligned, as its length is checked. -/
theorem addConstraint (h : p.Aligned) {c : Constraint α} (hq : p.addConstraint c = .ok q) :
    q.Aligned := by
  rw [addConstraint_eq] at hq
  split_ifs at hq with hlength
  obtain rfl := Except.ok.inj hq
  intro k hk
  rcases List.mem_append.1 hk with hk | hk
  · exact h k hk
  · rw [List.mem_singleton.1 hk]
    exact length_padTo (not_lt.1 hlength)

/-- Every call keeps the constraints as long as there are variables. -/
theorem after (h : p.Aligned) (k : BuildCall α) : (p.after k).Aligned :=
  after_of_ok k h fun q hq => by
    cases k with
    | addVariable objective r => exact Except.ok.inj hq ▸ h.addVariable objective r
    | withRestrictions rs => exact h.withRestrictions hq
    | addConstraint c => exact h.addConstraint hq

end Aligned

/-- Every call keeps the positions. -/
theorem Indexed.after (h : p.Indexed) (k : BuildCall α) : (p.after k).Indexed :=
  after_of_ok k h fun q hq => by
    cases k with
    | addVariable objective r => exact Except.ok.inj hq ▸ h.addVariable objective r
    | withRestrictions rs => exact h.withRestrictions hq
    | addConstraint c => exact h.addConstraint hq

/-- What calls can build is aligned and indexed. -/
theorem Built.aligned_indexed (h : p.Built) : p.Aligned ∧ p.Indexed := by
  induction h with
  | empty sense => exact ⟨.empty sense, .empty sense⟩
  | ofObjective sense objective =>
    exact ⟨.ofObjective sense objective, .ofObjective sense objective⟩
  | after k _ ih => exact ⟨ih.1.after k, ih.2.after k⟩

end Problem

/-! ## A new variable -/

/-- A scalar product does not see values behind the end of its left factor. -/
theorem Scalar.dot_append_right {xs ys : List α} (h : xs.length ≤ ys.length) (zs : List α) :
    Scalar.dot xs (ys ++ zs) = Scalar.dot xs ys := by
  refine congrArg Scalar.sum ?_
  induction xs generalizing ys with
  | nil => rfl
  | cons x xs ih =>
    cases ys with
    | nil => exact absurd h (Nat.not_succ_le_zero _)
    | cons y ys => exact congrArg (x * y :: ·) (ih (Nat.le_of_succ_le_succ h))

namespace Constraint

variable {c : Constraint ℚ} {x : List ℚ}

/-- A constraint that is padded and read at a longer point has the left-hand side it had. -/
theorem lhs_padTo_append (h : c.coefficients.length ≤ x.length) (n : ℕ) (y : List ℚ) :
    (c.padTo n).lhs (x ++ y) = c.lhs x := by
  rw [lhs_padTo]
  exact Scalar.dot_append_right h y

/-- Zeros behind the coefficients and values behind the point change no violation. -/
theorem violation?_padTo_append (h : c.coefficients.length ≤ x.length) (n : ℕ) (y : List ℚ)
    (tolerance : ℚ) (i : ℕ) :
    (c.padTo n).violation? (x ++ y) tolerance i = c.violation? x tolerance i := by
  have hlhs := lhs_padTo_append h n y
  have hsatisfied : (c.padTo n).IsSatisfied (x ++ y) tolerance ↔ c.IsSatisfied x tolerance := by
    unfold IsSatisfied
    rw [hlhs]
    exact Iff.rfl
  simp only [violation?, hsatisfied, hlhs]
  rfl

end Constraint

namespace Problem

variable {p : Problem ℚ} {x : List ℚ}

/-- Whatever value a new variable has, the left-hand sides are those there were. -/
theorem lhs_addVariable (h : p.Aligned) (hx : x.length = p.numVariables) (objective : ℚ)
    (r : Restriction) (a : ℚ) : (p.addVariable objective r).constraints.map (·.lhs (x ++ [a])) =
      p.constraints.map (·.lhs x) := by
  show (p.constraints.map (·.padTo (p.numVariables + 1))).map (·.lhs (x ++ [a])) = _
  rw [List.map_map]
  exact List.map_congr_left fun c hc => Constraint.lhs_padTo_append ((h c hc).trans hx.symm).le _ _

/-- Whatever value a new variable has, the violations are those there were. -/
theorem violations_addVariable (h : p.Aligned) (hx : x.length = p.numVariables) (objective : ℚ)
    (r : Restriction) (a tolerance : ℚ) :
    (p.addVariable objective r).violations (x ++ [a]) tolerance = p.violations x tolerance := by
  have hviolated : (p.addVariable objective r).violated (x ++ [a]) tolerance =
      p.violated x tolerance := by
    refine congrArg (List.filterMap id) ?_
    refine List.ext_getElem (by simp [addVariable]) fun i hi hi' => ?_
    simp only [addVariable, List.getElem_mapIdx, List.getElem_map]
    have hlength := (h _ (List.getElem_mem (by simpa using hi'))).trans hx.symm
    exact Constraint.violation?_padTo_append hlength.le _ _ _ _
  exact congrArg (Selection.sortStable _) hviolated

/-- In every problem that is built, over any scalars, each constraint has one coefficient for each
variable and each variable knows its position. A constraint is refused exactly if it has more
coefficients than there are variables, and restrictions exactly if there is not one for each
variable; a refused call leaves the problem as it is. Over the rationals a new variable changes no
left-hand side and no violation, whatever value it has. -/
theorem built_spec :
    (∀ (α : Type) [Scalar α] (p : Problem α), p.Built → p.Aligned ∧ p.Indexed ∧
      (∀ c, (∃ e, p.addConstraint c = .error e) ↔ p.numVariables < c.coefficients.length) ∧
      (∀ rs, (∃ e, p.withRestrictions rs = .error e) ↔ rs.length ≠ p.numVariables) ∧
      ∀ (k : BuildCall α) (e : Error α), k.result p = .error e → p.after k = p) ∧
    ∀ p : Problem ℚ, p.Built → ∀ (objective : ℚ) (r : Restriction) (x : List ℚ),
      x.length = p.numVariables → ∀ a tolerance : ℚ,
        (p.addVariable objective r).constraints.map (·.lhs (x ++ [a])) =
          p.constraints.map (·.lhs x) ∧
        (p.addVariable objective r).violations (x ++ [a]) tolerance = p.violations x tolerance := by
  refine ⟨fun α _ p h => ⟨h.aligned_indexed.1, h.aligned_indexed.2, fun c => ?_, fun rs => ?_,
    fun k e hk => after_of_error hk⟩, fun p h objective r x hx a tolerance => ?_⟩
  · simp only [addConstraint_eq_error, exists_and_left, exists_eq, and_true]
  · simp only [withRestrictions_eq_error, exists_and_left, exists_eq, and_true]
  · obtain ⟨haligned, -⟩ := h.aligned_indexed
    exact ⟨lhs_addVariable haligned hx objective r a,
      violations_addVariable haligned hx objective r a tolerance⟩

/-- A short constraint, a variable, a constraint that is too long, another short one: the rows have
one length, and a fourth variable does not repair the row that the point violates. -/
theorem built_spec_interleaved :
    let long : BuildCall ℚ := .addConstraint ⟨[1, 1, 1, 1], .eq, 0⟩
    let p : Problem ℚ := ((((Problem.ofObjective .maximize [1, 2]).after
      (.addConstraint ⟨[1], .le, 4⟩)).after (.addVariable 3 .integer)).after long).after
        (.addConstraint ⟨[0, 1], .ge, 2⟩)
    p.Built ∧ p.Aligned ∧ p.constraints.map (·.coefficients) = [[1, 0, 0], [0, 1, 0]] ∧
      (∃ e, long.result p = .error e) ∧ p.after long = p ∧ [5, 1, 1].length = p.numVariables ∧
      (p.violations [5, 1, 1] 0).map (·.constraint) = [0, 1] ∧
      (p.addVariable 1 .binary).violations ([5, 1, 1] ++ [9]) 0 = p.violations [5, 1, 1] 0 := by
  intro long p
  have hbuilt : p.Built := .after _ (.after _ (.after _ (.after _ (.ofObjective _ _))))
  obtain ⟨hall, hrational⟩ := built_spec
  obtain ⟨haligned, -, hrefused, -, hkept⟩ := hall ℚ p hbuilt
  obtain ⟨e, he⟩ := (hrefused ⟨[1, 1, 1, 1], .eq, 0⟩).2 (by decide +kernel)
  have hlength : [5, 1, 1].length = p.numVariables := by decide +kernel
  exact ⟨hbuilt, haligned, by decide +kernel, ⟨e, he⟩, hkept long e he, hlength,
    by decide +kernel, (hrational p hbuilt 1 .binary [5, 1, 1] hlength 9 0).2⟩

end Problem
end LinOpt
