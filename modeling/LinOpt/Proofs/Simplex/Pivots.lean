import LinOpt.Proofs.Tableau.Choice
import LinOpt.Simplex.Primal

/-!
# Runs of pivots

What a method did is told by the journal it leaves: the rows and columns of its pivots, in order
(`Journal.pivots`). What the primal method does to a tableau is told by runs of its steps
(`PrimalSimplex.Pivots`), over any scalars and without limits and solutions. Both are tied together
once: along a run the loop goes on from the tableau that the run leads to
(`PrimalSimplex.iterate_of_pivots`), and where no step is left it ends
(`PrimalSimplex.iterate_halts`). So a method that is shown to make the steps of a run can be
compared with the primal method, and a call of the primal method that meets no limit is a run to
where it ends (`PrimalSimplex.iterate_run`).
-/

namespace LinOpt

/-! ## Pivots in a journal -/

namespace Event

variable {α : Type}

/-- Row and column of a pivot of the primal method. -/
def primalPivot? : Event α → Option (ℕ × ℕ)
  | .primalPivot _ row col => some (row, col)
  | _ => none

/-- Row and column of an exchange, the row as that of a tableau: row `0` is the objective row. -/
def revisedPivot? : Event α → Option (ℕ × ℕ)
  | .revisedExchange _ col row => some (row + 1, col)
  | _ => none

/-- Row and column of a pivot in a phase of the dual method. -/
def dualPivot? (phase : Phase) : Event α → Option (ℕ × ℕ)
  | .dualPivot phase' _ row col => if phase' = phase then some (row, col) else none
  | _ => none

end Event

namespace Journal

variable {α : Type}

/-- What is read off the events, after one event more. -/
theorem filterMap_emit {β : Type} (j : Journal α) (c : Config α) (e : Event α)
    (f : Event α → Option β) :
    (c.emit j e).events.filterMap f = j.events.filterMap f ++ (f e).toList := by
  show (e :: j.latestFirst).reverse.filterMap f = _
  rw [List.reverse_cons, List.filterMap_append]
  cases h : f e <;> simp [events, h]

/-- The pivots that a journal tells of, in order. -/
def pivots (j : Journal α) (pivot? : Event α → Option (ℕ × ℕ)) : List (ℕ × ℕ) :=
  j.events.filterMap pivot?

@[simp] theorem pivots_emit (j : Journal α) (c : Config α) (e : Event α)
    (pivot? : Event α → Option (ℕ × ℕ)) :
    (c.emit j e).pivots pivot? = j.pivots pivot? ++ (pivot? e).toList := j.filterMap_emit c e pivot?

@[simp] theorem pivots_ask (j : Journal α) (c : Config α) (pivot? : Event α → Option (ℕ × ℕ)) :
    (c.ask j).2.pivots pivot? = j.pivots pivot? := rfl

end Journal

/-- The stop signal never stops a run. -/
def Config.Uninterrupted {α : Type} (c : Config α) : Prop :=
  ∀ questions seen, c.interrupt.answer questions seen = false

/-- The answer is no whenever it is asked for. -/
theorem Config.Uninterrupted.ask {α : Type} {c : Config α} (h : c.Uninterrupted) (j : Journal α) :
    c.ask j = (false, (c.ask j).2) := Prod.ext (h _ _) rfl

/-- Recording a step changes no value. -/
@[simp] theorem Config.values_record {α : Type} (c : Config α) (label : StepLabel α)
    (content : StepContent α) (s : Solution α) : (c.record label content s).values = s.values := by
  unfold Config.record
  split_ifs <;> rfl

namespace PrimalSimplex

variable {α : Type} [Scalar α] {tolerance : α} {t t' : Tableau α} {ps : List (ℕ × ℕ)}

/-! ## Runs -/

/-- One step of the method. -/
structure Step (tolerance : α) (t : Tableau α) (row col : ℕ) (t' : Tableau α) : Prop where
  not_isOptimal : ¬t.IsOptimal tolerance
  entering : t.entering tolerance = some col
  leaving : t.leaving col tolerance = some row
  pivot : t.pivot row col tolerance = .ok t'

/-- Steps of the method, one after the other, with their rows and columns. -/
inductive Pivots (tolerance : α) : Tableau α → List (ℕ × ℕ) → Tableau α → Prop where
  | nil (t : Tableau α) : Pivots tolerance t [] t
  | cons {t t' t'' : Tableau α} {row col : ℕ} {ps : List (ℕ × ℕ)}
      (hstep : Step tolerance t row col t') (hrest : Pivots tolerance t' ps t'') :
      Pivots tolerance t ((row, col) :: ps) t''

/-- A tableau at which no step is possible. -/
inductive Halts (tolerance : α) (t : Tableau α) : Prop where
  | optimal (hdone : t.IsOptimal tolerance ∨ t.entering tolerance = none)
  | unbounded {col : ℕ} (hopt : ¬t.IsOptimal tolerance) (hcol : t.entering tolerance = some col)
      (hrow : t.leaving col tolerance = none)
  | refused {row col : ℕ} {e : Error α} (hopt : ¬t.IsOptimal tolerance)
      (hcol : t.entering tolerance = some col) (hrow : t.leaving col tolerance = some row)
      (hpivot : t.pivot row col tolerance = .error e)

/-- At every tableau there is a step, or the method ends. -/
theorem step_or_halts (tolerance : α) (t : Tableau α) :
    (∃ row col t', Step tolerance t row col t') ∨ Halts tolerance t := by
  by_cases hopt : t.IsOptimal tolerance
  · exact .inr (.optimal (.inl hopt))
  · cases hcol : t.entering tolerance with
    | none => exact .inr (.optimal (.inr hcol))
    | some col =>
      cases hrow : t.leaving col tolerance with
      | none => exact .inr (.unbounded hopt hcol hrow)
      | some row =>
        cases hpivot : t.pivot row col tolerance with
        | error e => exact .inr (.refused hopt hcol hrow hpivot)
        | ok t' => exact .inl ⟨row, col, t', hopt, hcol, hrow, hpivot⟩

/-- From every tableau there is a run of as many steps as are allowed, or one to where the method
ends. -/
theorem exists_pivots (tolerance : α) (remaining : ℕ) (t : Tableau α) : ∃ ps t',
    Pivots tolerance t ps t' ∧ (ps.length = remaining ∨ ps.length < remaining ∧ Halts tolerance t') := by
  induction remaining generalizing t with
  | zero => exact ⟨[], t, .nil t, .inl rfl⟩
  | succ remaining ih =>
    rcases step_or_halts tolerance t with ⟨row, col, t', hstep⟩ | hhalts
    · obtain ⟨ps, t'', hrun, hend⟩ := ih t'
      refine ⟨(row, col) :: ps, t'', .cons hstep hrun, ?_⟩
      exact hend.imp (congrArg (· + 1)) fun h => ⟨Nat.succ_lt_succ h.1, h.2⟩
    · exact ⟨[], t, .nil t, .inr ⟨Nat.succ_pos _, hhalts⟩⟩

/-- A step keeps the shape of the tableau. -/
theorem Step.rectangular {row col : ℕ} (h : Step tolerance t row col t') (ht : t.Rectangular) :
    t'.Rectangular ∧ t'.rhsCol = t.rhsCol := by
  obtain ⟨-, rfl⟩ := Tableau.pivot_eq_ok_abs h.pivot
  have hr := ht.eliminate (Tableau.leaving_range h.leaving).2 col
  exact ⟨hr.1, congrArg (· - 1) hr.2⟩

/-- A run keeps the shape of the tableau. -/
theorem Pivots.rectangular (h : Pivots tolerance t ps t') (ht : t.Rectangular) :
    t'.Rectangular ∧ t'.rhsCol = t.rhsCol := by
  induction h with
  | nil t => exact ⟨ht, rfl⟩
  | cons hstep _ ih =>
    obtain ⟨hr, hcol⟩ := hstep.rectangular ht
    obtain ⟨hr', hcol'⟩ := ih hr
    exact ⟨hr', hcol'.trans hcol⟩

/-! ## The loop along a run -/

variable {c : Config α} {f : StandardForm α}

/-- Along a run the loop goes on from the tableau that the run leads to. -/
theorem iterate_of_pivots (hc : c.Uninterrupted) (h : Pivots c.tolerance t ps t') {remaining : ℕ}
    (hle : ps.length ≤ remaining) (k : ℕ) (s : Solution α) (j : Journal α) :
    ∃ s' j', iterate c f remaining k t s j =
        iterate c f (remaining - ps.length) (k + ps.length) t' s' j' ∧ s'.values = s.values ∧
      j'.pivots Event.primalPivot? = j.pivots Event.primalPivot? ++ ps := by
  induction h generalizing remaining k s j with
  | nil t => exact ⟨s, j, rfl, rfl, (List.append_nil _).symm⟩
  | @cons t t₁ t₂ row col ps hstep hrest ih =>
    obtain ⟨n, rfl⟩ := Nat.exists_eq_add_one_of_ne_zero (Nat.ne_zero_of_lt hle)
    obtain ⟨s', j', heq, hvalues, hpivots⟩ := ih (Nat.le_of_succ_le_succ hle) (k + 1)
      (c.record (.iteration (k + 1) row col) (.tableau t₁) s)
      (c.emit (c.ask j).2 (.primalPivot (k + 1) row col))
    refine ⟨s', j', ?_, by rw [hvalues, Config.values_record], ?_⟩
    · rw [iterate, if_neg hstep.not_isOptimal, hc.ask]
      simp only [hstep.entering, hstep.leaving, hstep.pivot, Bool.false_eq_true, if_false]
      rw [heq, List.length_cons, Nat.add_sub_add_right, Nat.add_right_comm, Nat.add_assoc]
    · rw [hpivots, Journal.pivots_emit, Journal.pivots_ask, List.append_assoc]
      rfl

/-- What the method answers where it ends: an optimum that is read from the tableau, a column that
grows without bound, or the refusal of a pivot. -/
inductive Ends (c : Config α) (f : StandardForm α) (t : Tableau α) (values : Valuation α) :
    Except (Error α) (Solution α) → Prop where
  | optimal {sol : Solution α}
      (hdone : t.IsOptimal c.tolerance ∨ t.entering c.tolerance = none)
      (hstatus : sol.status = .optimal)
      (hvalue : sol.optimalValue = some (ofMaximized f.sense t.objectiveValue))
      (hvalues : sol.values =
        namedValues f.columns ((List.range t.rhsCol).map (t.columnValue · c.tolerance)))
      (htableau : sol.tableau = some t) : Ends c f t values (.ok sol)
  | unbounded {sol : Solution α} {col : ℕ} (hcol : t.entering c.tolerance = some col)
      (hrow : t.leaving col c.tolerance = none) (hstatus : sol.status = .unbounded)
      (hvalue : sol.optimalValue = none) (hvalues : sol.values = values)
      (htableau : sol.tableau = some t) : Ends c f t values (.ok sol)
  | refused {row col : ℕ} {e : Error α} (hcol : t.entering c.tolerance = some col)
      (hrow : t.leaving col c.tolerance = some row)
      (hpivot : t.pivot row col c.tolerance = .error e) : Ends c f t values (.error e)

/-- A solver that has come to an optimal tableau ends with its optimum. -/
theorem ends_optimum {f : StandardForm α}
    (hdone : t.IsOptimal c.tolerance ∨ t.entering c.tolerance = none) (s : Solution α) :
    Ends c f t s.values (.ok (optimum c f t s).1) := .optimal hdone rfl rfl rfl rfl

/-- At an optimal tableau the loop ends whatever the limits are. -/
theorem iterate_of_isOptimal (h : t.IsOptimal c.tolerance) (remaining k : ℕ) (s : Solution α)
    (j : Journal α) : Ends c f t s.values (iterate c f remaining k t s j).result ∧
      (iterate c f remaining k t s j).journal.pivots Event.primalPivot? =
        j.pivots Event.primalPivot? := by
  cases remaining <;> rw [iterate, if_pos h] <;>
    exact ⟨ends_optimum (.inl h) s, (Journal.pivots_emit ..).trans (List.append_nil _)⟩

/-- Where no step is left, a loop that may go on ends. -/
theorem iterate_halts (hc : c.Uninterrupted) (h : Halts c.tolerance t) (remaining k : ℕ)
    (s : Solution α) (j : Journal α) :
    Ends c f t s.values (iterate c f (remaining + 1) k t s j).result ∧
      (iterate c f (remaining + 1) k t s j).journal.pivots Event.primalPivot? =
        j.pivots Event.primalPivot? := by
  by_cases hopt : t.IsOptimal c.tolerance
  · exact iterate_of_isOptimal hopt _ k s j
  rw [iterate, if_neg hopt, hc.ask]
  cases h with
  | optimal hdone =>
    have hcol := hdone.resolve_left hopt
    simp only [hcol, Bool.false_eq_true, if_false]
    exact ⟨ends_optimum (.inr hcol) s, by simp [Event.primalPivot?]⟩
  | unbounded _ hcol hrow =>
    simp only [hcol, hrow, Bool.false_eq_true, if_false]
    exact ⟨.unbounded hcol hrow rfl rfl rfl rfl, by simp [Event.primalPivot?]⟩
  | refused _ hcol hrow hpivot =>
    simp only [hcol, hrow, hpivot, Bool.false_eq_true, if_false]
    exact ⟨.refused hcol hrow hpivot, Journal.pivots_ask ..⟩

/-- A loop that meets no limit is a run to where the method ends. Where an iteration is refused, one
more was allowed. -/
theorem iterate_run (hc : c.Uninterrupted) {remaining : ℕ} (k : ℕ) (s : Solution α) (j : Journal α)
    (hlimit : ∀ sol, (iterate c f remaining k t s j).result = .ok sol → sol.status ≠ .limitReached) :
    ∃ ps t', Pivots c.tolerance t ps t' ∧ ps.length ≤ remaining ∧
      Ends c f t' s.values (iterate c f remaining k t s j).result ∧
      (∀ e, (iterate c f remaining k t s j).result = .error e → ps.length < remaining) ∧
      (iterate c f remaining k t s j).journal.pivots Event.primalPivot? =
        j.pivots Event.primalPivot? ++ ps := by
  obtain ⟨ps, t', hrun, hend⟩ := exists_pivots c.tolerance remaining t
  have hle : ps.length ≤ remaining := hend.elim (·.le) (·.1.le)
  obtain ⟨s', j', heq, hvalues, hpivots⟩ := iterate_of_pivots (f := f) hc hrun hle k s j
  rw [heq] at hlimit ⊢
  refine ⟨ps, t', hrun, hle, ?_⟩
  rw [← hvalues, ← hpivots]
  rcases hend with hall | ⟨hlt, hhalts⟩
  · -- all iterations are used up, so only an optimal tableau is no limit
    rw [hall, Nat.sub_self] at hlimit ⊢
    have hopt : t'.IsOptimal c.tolerance := by
      by_contra hopt
      rw [iterate, if_neg hopt] at hlimit
      exact hlimit _ rfl rfl
    obtain ⟨hends, hjournal⟩ := iterate_of_isOptimal (f := f) hopt 0 (k + remaining) s' j'
    refine ⟨hends, fun e he => ?_, hjournal⟩
    rw [iterate, if_pos hopt] at he
    cases he
  · obtain ⟨n, hn⟩ := Nat.exists_eq_add_one_of_ne_zero (Nat.sub_ne_zero_of_lt hlt)
    rw [hn]
    obtain ⟨hends, hjournal⟩ := iterate_halts (f := f) hc hhalts n (k + ps.length) s' j'
    exact ⟨hends, fun _ _ => hlt, hjournal⟩

/-- What a call is where there is a tableau to start from: the loop. -/
theorem solve_eq_iterate (c : Config α) {p : Problem α} {f : StandardForm α} {t : Tableau α}
    (hf : StandardForm.ofProblem p = .ok f) (ht : buildTableau f = .ok t) (j : Journal α) :
    ∃ s : Solution α, s.values = {} ∧
      solve c p j = iterate c f c.maxPhase2Iterations 0 t s j := by
  dsimp only [solve, bind, Except.bind]
  rw [hf]
  dsimp only
  rw [ht]
  exact ⟨_, Config.values_record .., rfl⟩

end PrimalSimplex
end LinOpt
