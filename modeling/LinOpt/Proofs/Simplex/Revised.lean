import LinOpt.Proofs.Simplex.Mirror
import LinOpt.Proofs.Simplex.Pivots

/-!
# The revised method and the primal method in lockstep

An exchange of the revised method is mirrored by a pivot of the primal method
(`RevisedSimplex.Exchange.mirrored`), so a run of exchanges is mirrored by a run of pivots with the
same rows and columns (`RevisedSimplex.Exchanges.mirrored`). A call of the revised method that meets
no limit and is not refused an exchange is such a run to where the method ends
(`RevisedSimplex.iterate_run`), and there the primal method ends alike
(`RevisedSimplex.solve_simulated`).
-/

namespace LinOpt

namespace RevisedSimplex

/-! ## Runs of exchanges -/

section Runs

variable {α : Type} [Scalar α] {tolerance : α} {b b' : Basis α} {ps : List (ℕ × ℕ)}

/-- One exchange of the method. -/
structure Exchange (tolerance : α) (b : Basis α) (row col : ℕ) (b' : Basis α) : Prop where
  entering : ∃ cost, b.entering tolerance = some (col, cost)
  leaving : b.leaving (b.direction col) tolerance = some row
  exchange : b.exchange row col tolerance = .ok b'

/-- Exchanges of the method, one after the other, with their rows and columns. The rows are counted
as those of a tableau. -/
inductive Exchanges (tolerance : α) : Basis α → List (ℕ × ℕ) → Basis α → Prop where
  | nil (b : Basis α) : Exchanges tolerance b [] b
  | cons {b b' b'' : Basis α} {row col : ℕ} {ps : List (ℕ × ℕ)}
      (hstep : Exchange tolerance b row col b') (hrest : Exchanges tolerance b' ps b'') :
      Exchanges tolerance b ((row + 1, col) :: ps) b''

/-- A run can be left early. -/
theorem Exchanges.take (h : Exchanges tolerance b ps b') (k : ℕ) :
    ∃ b'', Exchanges tolerance b (ps.take k) b'' := by
  induction h generalizing k with
  | nil b => exact ⟨b, by rw [List.take_nil]; exact .nil b⟩
  | @cons b b' b'' row col ps hstep hrest ih =>
    cases k with
    | zero => exact ⟨b, .nil b⟩
    | succ k =>
      obtain ⟨b₁, hrun⟩ := ih k
      exact ⟨b₁, .cons hstep hrun⟩

variable {c : Config α} {f : StandardForm α}

/-- What the method answers where it ends: the optimum of a basis without a column to enter, or a
direction that grows without bound. -/
inductive Ends (c : Config α) (f : StandardForm α) (b : Basis α) (sol : Solution α) : Prop where
  | optimal (hcol : b.entering c.tolerance = none) (hstatus : sol.status = .optimal)
      (hvalue : sol.optimalValue =
        some (PrimalSimplex.ofMaximized f.sense b.objectiveValue))
  | unbounded {col : ℕ} {cost : α} (hcol : b.entering c.tolerance = some (col, cost))
      (hrow : b.leaving (b.direction col) c.tolerance = none) (hstatus : sol.status = .unbounded)
      (hvalue : sol.optimalValue = none)

/-- A loop that meets no limit and is not refused is a run to where the method ends, and one more
iteration was allowed. -/
theorem iterate_run (hc : c.Uninterrupted) {sol : Solution α} (hlimit : sol.status ≠ .limitReached)
    {remaining : ℕ} (k : ℕ) (b : Basis α) (s : Solution α) (j : Journal α)
    (h : (iterate c f remaining k b s j).result = .ok sol) : ∃ ps b',
      Exchanges c.tolerance b ps b' ∧ ps.length < remaining ∧ Ends c f b' sol ∧
      (iterate c f remaining k b s j).journal.pivots Event.revisedPivot? =
        j.pivots Event.revisedPivot? ++ ps := by
  induction remaining generalizing k b s j with
  | zero =>
    rw [iterate] at h
    rw [← Except.ok.inj h] at hlimit
    exact absurd rfl hlimit
  | succ remaining ih =>
    rw [iterate, hc.ask] at h ⊢
    simp only [Bool.false_eq_true, if_false] at h ⊢
    cases hcol : b.entering c.tolerance with
    | none =>
      simp only [hcol] at h ⊢
      refine ⟨[], b, .nil b, Nat.succ_pos _, ?_, by simp [Event.revisedPivot?]⟩
      rw [← Except.ok.inj h]
      exact .optimal hcol rfl rfl
    | some e =>
      obtain ⟨col, cost⟩ := e
      cases hrow : b.leaving (b.direction col) c.tolerance with
      | none =>
        simp only [hcol, hrow] at h ⊢
        refine ⟨[], b, .nil b, Nat.succ_pos _, ?_, by simp [Event.revisedPivot?]⟩
        rw [← Except.ok.inj h]
        exact .unbounded hcol hrow rfl rfl
      | some row =>
        cases hexchange : b.exchange row col c.tolerance with
        | error e =>
          simp only [hcol, hrow, hexchange] at h
          cases h
        | ok b' =>
          simp only [hcol, hrow, hexchange] at h ⊢
          obtain ⟨ps, b'', hrun, hlt, hends, hpivots⟩ := ih _ _ _ _ h
          refine ⟨(row + 1, col) :: ps, b'', .cons ⟨⟨cost, hcol⟩, hrow, hexchange⟩ hrun,
            Nat.succ_lt_succ hlt, hends, ?_⟩
          rw [hpivots, Journal.pivots_emit, Journal.pivots_ask, List.append_assoc]
          rfl

end Runs

/-! ## Mirrored runs -/

section Mirrored

variable {tolerance : ℚ} {b b' : Basis ℚ} {t : Tableau ℚ} {ps : List (ℕ × ℕ)}

/-- An exchange is mirrored by a pivot. -/
theorem Exchange.mirrored (ht : 0 ≤ tolerance) {row col : ℕ}
    (h : Exchange tolerance b row col b') (hm : b.Mirrors t) :
    ∃ t', PrimalSimplex.Step tolerance t (row + 1) col t' ∧ b'.Mirrors t' ∧
      b'.matrix = b.matrix := by
  obtain ⟨⟨cost, hentering⟩, hleaving, hexchange⟩ := h
  have hcol : t.entering tolerance = some col := by rw [hm.entering_eq ht, hentering]; rfl
  obtain ⟨hlt, -, -, -⟩ := hm.states.rectangular.enteringWhere_eq_some hcol
  rw [hm.rhsCol_eq] at hlt
  have hrow : t.leaving col tolerance = some (row + 1) := by rw [hm.leaving_eq hlt, hleaving]; rfl
  obtain ⟨i, hi, -, hpos, -⟩ := Tableau.leaving_eq_some hrow
  obtain rfl : row = i := Nat.succ_injective hi
  have hp : 0 < t.entry (row + 1) col := ht.trans_lt hpos
  obtain ⟨hm', hmatrix⟩ := hm.exchange ht hlt hp.ne' hexchange
  refine ⟨_, ⟨fun hopt => ?_, hcol, hrow, Tableau.pivot_of_lt ?_⟩, hm', hmatrix⟩
  · rw [hopt.entering_eq_none] at hcol
    cases hcol
  · rw [Scalar.abs_rat, abs_of_pos hp]
    exact hpos

/-- A run of exchanges is mirrored by a run of pivots. -/
theorem Exchanges.mirrored (ht : 0 ≤ tolerance) (h : Exchanges tolerance b ps b')
    (hm : b.Mirrors t) : ∃ t', PrimalSimplex.Pivots tolerance t ps t' ∧ b'.Mirrors t' ∧
      b'.matrix = b.matrix := by
  induction h generalizing t with
  | nil b => exact ⟨t, .nil t, hm, rfl⟩
  | cons hstep _ ih =>
    obtain ⟨t₁, hpivot, hm₁, hmatrix₁⟩ := hstep.mirrored ht hm
    obtain ⟨t₂, hpivots, hm₂, hmatrix₂⟩ := ih hm₁
    exact ⟨t₂, .cons hpivot hpivots, hm₂, hmatrix₂.trans hmatrix₁⟩

/-- Where the method ends, the primal method ends alike. -/
theorem Ends.mirrored {c : Config ℚ} {f : StandardForm ℚ} {sol : Solution ℚ}
    (ht : 0 ≤ c.tolerance) (h : Ends c f b sol) (hm : b.Mirrors t) :
    PrimalSimplex.Halts c.tolerance t ∧ ∀ {values : Valuation ℚ}
      {result : Except (Error ℚ) (Solution ℚ)}, PrimalSimplex.Ends c f t values result →
        ∃ sol', result = .ok sol' ∧ sol'.status = sol.status ∧
          sol'.optimalValue = sol.optimalValue := by
  have hentering := hm.entering_eq ht
  cases h with
  | optimal hcol hstatus hvalue =>
    rw [hcol, Option.map_none] at hentering
    refine ⟨.optimal (.inr hentering), fun hends => ?_⟩
    cases hends with
    | optimal _ hstatus' hvalue' _ _ =>
      refine ⟨_, rfl, hstatus'.trans hstatus.symm, ?_⟩
      rw [hvalue', hvalue, hm.row_zero.1]
    | unbounded hcol' | refused hcol' =>
      rw [hentering] at hcol'
      cases hcol'
  | @unbounded col cost hcol hrow hstatus hvalue =>
    rw [hcol, Option.map_some] at hentering
    have hopt : ¬t.IsOptimal c.tolerance := by
      intro hopt
      rw [hopt.entering_eq_none] at hentering
      cases hentering
    obtain ⟨hlt, -, -, -⟩ := hm.states.rectangular.enteringWhere_eq_some hentering
    have hleaving : t.leaving col c.tolerance = none := by
      rw [hm.leaving_eq (hm.rhsCol_eq ▸ hlt), hrow]
      rfl
    refine ⟨.unbounded hopt hentering hleaving, fun hends => ?_⟩
    cases hends with
    | optimal hdone =>
      rw [hdone.resolve_left hopt] at hentering
      cases hentering
    | unbounded _ _ hstatus' hvalue' =>
      exact ⟨_, rfl, hstatus'.trans hstatus.symm, hvalue'.trans hvalue.symm⟩
    | refused hcol' hrow' =>
      rw [hentering] at hcol'
      rw [← Option.some.inj hcol', hleaving] at hrow'
      cases hrow'

end Mirrored

/-! ## Both solvers -/

/-- What a call is that is not refused: the loop from the slack basis. -/
theorem solve_eq_ok {α : Type} [Scalar α] {c : Config α} {p : Problem α} {j : Journal α}
    {sol : Solution α} (h : (solve c p j).result = .ok sol) : ∃ f b s,
      StandardForm.ofProblem p = .ok f ∧ Basis.ofStandardForm f = .ok b ∧
      solve c p j = iterate c f c.maxPhase2Iterations 0 b s j := by
  dsimp only [solve, bind, Except.bind] at h ⊢
  cases hf : StandardForm.ofProblem p with
  | error e => rw [hf] at h; cases h
  | ok f =>
    rw [hf] at h
    dsimp only at h ⊢
    cases hb : Basis.ofStandardForm f with
    | error e => rw [hb] at h; cases h
    | ok b => exact ⟨f, b, _, rfl, hb, rfl⟩

/-- From the start of a problem both methods make the pivots `ps`, and after each of them the
constraint rows of the tableau are the rows of the inverse times the matrix `[A | I]`, with the
values of the basic columns as right-hand sides. -/
def Lockstep (tolerance : ℚ) (p : Problem ℚ) (ps : List (ℕ × ℕ)) : Prop :=
  ∃ f b₀ t₀, StandardForm.ofProblem p = .ok f ∧ Basis.ofStandardForm f = .ok b₀ ∧
    PrimalSimplex.buildTableau f = .ok t₀ ∧ ∀ k ≤ ps.length, ∃ b t,
      Exchanges tolerance b₀ (ps.take k) b ∧ PrimalSimplex.Pivots tolerance t₀ (ps.take k) t ∧
      b.matrix = b₀.matrix ∧ t.constraints = b.tableauRows

/-- Where the revised method answers and meets no limit, the primal method makes the same pivots in
lockstep with it and gives the same answer. -/
theorem solve_simulated {c : Config ℚ} (ht : 0 ≤ c.tolerance) (hc : c.Uninterrupted)
    {p : Problem ℚ} (j j' : Journal ℚ) {sol : Solution ℚ} (h : (solve c p j).result = .ok sol)
    (hlimit : sol.status ≠ .limitReached) :
    ∃ ps sol', Lockstep c.tolerance p ps ∧
      (solve c p j).journal.pivots Event.revisedPivot? = j.pivots Event.revisedPivot? ++ ps ∧
      (PrimalSimplex.solve c p j').journal.pivots Event.primalPivot? =
        j'.pivots Event.primalPivot? ++ ps ∧
      (PrimalSimplex.solve c p j').result = .ok sol' ∧ sol'.status = sol.status ∧
      sol'.optimalValue = sol.optimalValue := by
  obtain ⟨f, b₀, s, hf, hb₀, hsolve⟩ := solve_eq_ok h
  rw [hsolve] at h ⊢
  obtain ⟨ps, b, hrun, hlt, hends, hpivots⟩ := iterate_run hc hlimit 0 b₀ s j h
  obtain ⟨t₀, ht₀, hm₀⟩ := Basis.exists_mirror hf hb₀
  obtain ⟨t, hprimal, hm, -⟩ := hrun.mirrored ht hm₀
  obtain ⟨hhalts, hagree⟩ := hends.mirrored ht hm
  -- the primal method goes the same way, with one iteration left to find that it ends
  obtain ⟨s', -, hsolve'⟩ := PrimalSimplex.solve_eq_iterate c hf ht₀ j'
  obtain ⟨s₁, j₁, heq, -, hpivots'⟩ := PrimalSimplex.iterate_of_pivots (f := f) hc hprimal hlt.le
    0 s' j'
  obtain ⟨n, hn⟩ := Nat.exists_eq_add_one_of_ne_zero (Nat.sub_ne_zero_of_lt hlt)
  rw [hn] at heq
  obtain ⟨hends', hjournal⟩ := PrimalSimplex.iterate_halts (f := f) hc hhalts n (0 + ps.length) s₁ j₁
  rw [← heq, ← hsolve'] at hends' hjournal
  obtain ⟨sol', hresult, hstatus, hvalue⟩ := hagree hends'
  refine ⟨ps, sol', ⟨f, b₀, t₀, hf, hb₀, ht₀, fun k _ => ?_⟩, hpivots, hjournal.trans hpivots',
    hresult, hstatus, hvalue⟩
  obtain ⟨b', hrun'⟩ := hrun.take k
  obtain ⟨t', hprimal', hm', hmatrix⟩ := hrun'.mirrored ht hm₀
  exact ⟨b', t', hrun', hprimal', hmatrix, hm'.constraints_eq⟩

/-- The least `-3 x₁ + 2 x₂ - 4 x₃ - x₄` with `x₂ ≤ 0`, a binary `x₃` and a free `x₄`, under
`x₁ - x₂ + x₄ ≤ 4`, `-x₁ - x₃ + x₄ ≥ -3` and `x₃ + x₄ ≤ 2`. -/
theorem solve_simulated_mixed :
    let p : Problem ℚ :=
      { sense := .minimize
        vars := [⟨0, -3, .nonNegative⟩, ⟨1, 2, .nonPositive⟩, ⟨2, -4, .binary⟩,
          ⟨3, -1, .unrestricted⟩]
        constraints := [⟨[1, -1, 0, 1], .le, 4⟩, ⟨[-1, 0, -1, 1], .ge, -3⟩,
          ⟨[0, 0, 1, 1], .le, 2⟩] }
    let c : Config ℚ := { Config.exact with tolerance := 1 / 1000 }
    let pivots := [(4, 2), (2, 0), (1, 3)]
    Lockstep c.tolerance p pivots ∧
      (solve c p {}).journal.pivots Event.revisedPivot? = pivots ∧
      (PrimalSimplex.solve c p {}).journal.pivots Event.primalPivot? = pivots ∧
      ∃ sol, (PrimalSimplex.solve c p {}).result = .ok sol ∧ sol.status = .optimal ∧
        sol.optimalValue = some (-14) := by
  intro p c pivots
  have hrun : (solve c p {}).result.toOption.map (fun sol => (sol.status, sol.optimalValue)) =
      some (.optimal, some (-14)) := by decide +kernel
  have hpivots : (solve c p {}).journal.pivots Event.revisedPivot? = pivots := by decide +kernel
  obtain ⟨sol, hsol, hread⟩ := exists_ok_of_map hrun
  obtain ⟨hopt, hvalue⟩ := Prod.mk.inj hread
  obtain ⟨ps, sol', hlock, hrevised, hprimal, hsol', hstatus', hvalue'⟩ :=
    solve_simulated (c := c) (by decide +kernel) (fun _ _ => rfl) {} {} hsol
      (by rw [hopt]; decide)
  obtain rfl : pivots = ps := hpivots.symm.trans hrevised
  exact ⟨hlock, hpivots, hprimal, sol', hsol', hstatus'.trans hopt, hvalue'.trans hvalue⟩

end RevisedSimplex
end LinOpt
