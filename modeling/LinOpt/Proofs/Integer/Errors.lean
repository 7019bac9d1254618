import LinOpt.Integer.BranchAndBound
import LinOpt.Proofs.Integer.CuttingPlane
import LinOpt.Proofs.Simplex.Dual.Errors
import LinOpt.Proofs.Simplex.PrimalDual

/-!
# Errors of the integer solvers

Both searches fail for the constraints of their problem only, as the dual solver does. The bounds
that branch-and-bound adds have a coefficient for every variable, so no node fails
(`BranchAndBound.explore_not_failed`). The values that a run of cuts reads are those of its tableau
(`CuttingPlane.Run.Reads`), at any tolerance. So a value that is not integral is not zero, and its
column is basic in some row (`CuttingPlane.Run.Reads.exists_sourceRow`); and the row of a cut has
the length of the tableau.

Together with what is known of the dual solver this says which inputs the solvers refuse, and how
(`solvers_refuse_iff`).
-/

namespace LinOpt

/-! ## Branch-and-bound -/

/-- A constraint with a coefficient for every variable at most is added. -/
theorem Session.exists_addConstraint_eq_ok {α : Type} [Scalar α] [Scalar.Measured α]
    {s : Session α} {q : Posed α} (h : s.model.Aligned q) (c : Config α) {k : Constraint α}
    (hk : k.coefficients.length ≤ q.problem.numVariables) (j : Journal α) :
    (∃ sol, (s.addConstraint c k j).result = .ok sol) ∧
      (s.addConstraint c k j).state.model.Aligned (q.add k) := by
  unfold addConstraint
  cases hext : s.model.extend c k with
  | error e => exact absurd (h.extend_eq_error.1 hext).1 (not_lt.2 hk)
  | ok m =>
    exact ⟨exists_optimize_eq_ok _ _ _,
      optimize_kept (Model.kept_aligned c) (s := ⟨m, _, s.pivots⟩) (h.extend hext) _⟩

namespace BranchAndBound

section
variable {α : Type} [Scalar α] {c : Config α} {g : Goal} {node : Node α}

/-- The model of a node takes constraints over `n` variables. -/
def Node.Takes (node : Node α) (n : ℕ) : Prop :=
  ∃ q, node.session.model.Aligned q ∧ q.problem.numVariables = n

/-- A bound of a variable is taken, and so are those after it. -/
theorem Node.Takes.addBound [Scalar.Measured α] {n : ℕ} (h : node.Takes n) (c : Config α) (i : ℕ)
    (r : Relation) (b : α) (j : Journal α) :
    (∃ sol, (node.session.addConstraint c (.bound n i r b) j).result = .ok sol) ∧
      ∀ sol path, (Node.mk (node.session.addConstraint c (.bound n i r b) j).state sol path).Takes
        n := by
  obtain ⟨q, haligned, rfl⟩ := h
  obtain ⟨hok, hstate⟩ := Session.exists_addConstraint_eq_ok haligned c
    (k := .bound q.problem.numVariables i r b) (by simp [Constraint.bound, Scalar.unit]) j
  exact ⟨hok, fun sol path => ⟨_, hstate, rfl⟩⟩

/-- A node is dealt with: the search goes on as before, and the children take what the node
takes. -/
structure Kept (s : Search α) (n : ℕ) (out : Search α × Option (Node α × Node α)) : Prop where
  halt_eq : out.1.halt = s.halt
  takes : ∀ down up, out.2 = some (down, up) → down.Takes n ∧ up.Takes n

/-- A step without children that does not halt keeps the search going. -/
theorem Kept.of_none {s s' : Search α} {n : ℕ} (h : s'.halt = s.halt) : Kept s n (s', none) :=
  ⟨h, fun _ _ hnone => nomatch hnone⟩

variable [Scalar.Measured α]

/-- A split does not fail. -/
theorem split_kept (h : node.Takes g.numVariables) (at_ : Fractional.Candidate α) (s : Search α) :
    Kept s g.numVariables (split c g node at_ s) := by
  obtain ⟨⟨down, hdown⟩, htakes⟩ :=
    h.addBound c at_.index .le (Scalar.floor at_.value) s.journal
  unfold split
  dsimp only
  rw [hdown]
  dsimp only
  generalize (node.session.addConstraint c _ s.journal).journal = j
  obtain ⟨⟨up, hup⟩, htakes'⟩ := h.addBound c at_.index .ge (Scalar.ceil at_.value) j
  rw [hup]
  refine ⟨rfl, ?_⟩
  rintro _ _ ⟨⟩
  exact ⟨htakes _ _, htakes' _ _⟩

/-- Going on with a node does not fail. -/
theorem open_kept (h : node.Takes g.numVariables) (s : Search α) (value : α) :
    Kept s g.numVariables (visit.open_ c g node s value) := by
  unfold visit.open_
  split
  · refine .of_none ?_
    unfold Search.takeIntegral
    split <;> rfl
  · obtain ⟨hhalt, htakes⟩ := split_kept (c := c) h _ (s.note node.path _)
    exact ⟨hhalt, htakes⟩

/-- A visit does not fail. -/
theorem visit_kept (h : node.Takes g.numVariables) (s : Search α) :
    Kept s g.numVariables (visit c g node s) := by
  unfold visit
  split
  · split
    · split
      · exact open_kept h s _
      · exact .of_none rfl
    · exact open_kept h s _
  · exact .of_none rfl
  · exact .of_none rfl

/-- A search that has not failed does not fail below a node, by induction on the depth left. -/
theorem explore_not_failed (left waiting : ℕ) (h : node.Takes g.numVariables) {s : Search α}
    (hs : ∀ e, s.halt ≠ some (.failed e)) (e : Error α) :
    (explore c g left waiting node s).halt ≠ some (.failed e) := by
  induction left generalizing waiting node s e with
  | zero =>
    unfold explore
    dsimp only
    split_ifs
    · exact hs e
    · exact fun hh => nomatch hh
    · exact hs e
  | succ left ih =>
    unfold explore
    dsimp only
    split_ifs
    · exact hs e
    · exact fun hh => nomatch hh
    · generalize hcount : Search.count _ _ = s₀
      have hs₀ : s₀.halt = s.halt := by rw [← hcount]; rfl
      have hkept := visit_kept (c := c) h s₀
      generalize visit c g node s₀ = out at hkept
      obtain ⟨s₁, children⟩ := out
      obtain ⟨hhalt, htakes⟩ := hkept
      have hs₁ : ∀ e, s₁.halt ≠ some (.failed e) := fun e => by
        rw [show s₁.halt = s.halt from hhalt.trans hs₀]
        exact hs e
      cases children with
      | none => exact hs₁ e
      | some children =>
        obtain ⟨hdown, hup⟩ := htakes _ _ rfl
        exact ih _ hup (ih _ hdown hs₁) e

omit [Scalar α] [Scalar.Measured α] in
/-- The goal of a problem is over its variables. -/
theorem numVariables_goal (p : Problem α) : (goal p).1.numVariables = p.numVariables := by
  unfold goal
  dsimp only
  split_ifs <;> rfl

/-- Branch-and-bound fails for the constraints of the problem only. -/
theorem solve_eq_error {p : Problem α} {j : Journal α} {e : Error α} :
    (solve c p j).result = .error e ↔ p.refusal? = some e := by
  rw [← Session.start_eq_error (c := c) (j := j), solve, solveFrom]
  cases hstart : Session.start c p j with
  | error e' => exact error_eq_error_iff
  | ok started =>
    obtain ⟨s, j'⟩ := started
    refine iff_of_false (fun h => ?_) ok_ne_error
    obtain ⟨relaxation, hroot⟩ := Session.exists_optimize_eq_ok s c j'
    dsimp only at h
    rw [hroot] at h
    dsimp only at h
    split at h
    · have haligned := Session.optimize_kept (Model.kept_aligned c)
        (Session.start_kept (Model.kept_aligned c) hstart) j'
      have htakes : (Node.mk (s.optimize c j').state relaxation .root).Takes
          (goal p).1.numVariables := ⟨_, haligned, (numVariables_goal p).symm⟩
      have hnot := explore_not_failed (c := c) (c.maxBranchDepth + 1) 0 htakes
        (s := { remarks := (goal p).2, journal := (s.optimize c j').journal })
        fun e hh => nomatch hh
      generalize explore c (goal p).1 _ _ _ _ = out at h hnot
      unfold conclude at h
      split at h
      · rename_i hfailed
        exact hnot _ hfailed
      · cases h
    · cases h
    · cases h

end

end BranchAndBound

/-! ## Values and basic rows -/

namespace Model

variable {m : Model ℚ} {c : Config ℚ} {i col : ℕ}

/-- The value that an optimum reports for a variable. -/
theorem getD_decisionValues_optimum (m : Model ℚ) (c : Config ℚ) (trail : Solution ℚ) (n i : ℕ) :
    ((m.optimum c trail).decisionValues n).getD i 0 =
      if i < n then Scalar.clean c.tolerance ((m.variableValues c.tolerance).getD i 0) else 0 := by
  rw [Solution.decisionValues, List.getD_eq_getElem?_getD, List.getElem?_map]
  split_ifs with hi
  · rw [List.getElem?_range hi, Option.map_some, Option.getD_some, m.value?_optimum,
      List.getD_eq_getElem?_getD]
    cases (m.variableValues c.tolerance)[i]? with
    | none => exact (Scalar.clean_same _).symm
    | some v => rfl
  · rw [List.getElem?_eq_none (by simpa using hi)]
    rfl

/-- A variable that an optimum gives a value other than zero is basic in some row, if it has a
column of its own. -/
theorem exists_basicRow {trail : Solution ℚ} {n : ℕ} (hcol : m.columns.directColumn? i = some col)
    (hne : ((m.optimum c trail).decisionValues n).getD i 0 ≠ 0) :
    ∃ row, m.tableau.basicRow col c.tolerance = some row := by
  obtain ⟨hlt, hpoint⟩ := ColumnMap.point_directColumn hcol (m.columnValue c.tolerance)
  cases hrow : m.tableau.basicRow col c.tolerance with
  | some row => exact ⟨row, rfl⟩
  | none =>
    refine absurd ?_ hne
    have hzero : (m.variableValues c.tolerance).getD i 0 = 0 :=
      hpoint.trans (columnValue_of_basicRow_eq_none hlt hrow)
    rw [getD_decisionValues_optimum, hzero, Scalar.clean_same, ite_self]

end Model

/-! ## Cutting planes -/

namespace CuttingPlane

variable {c : Config ℚ} {p : Problem ℚ} {g : Goal} {r : Run ℚ} {j : Journal ℚ}

/-- The variables to be integral are paired with columns of their own. -/
def Goal.Direct (g : Goal) (p : Problem ℚ) : Prop :=
  ∀ i col, (i, col) ∈ g.direct → (ColumnMap.ofProblem p).directColumn? i = some col

/-- The model of a session has the columns of the problem and rows of one length. -/
structure Sized (m : Model ℚ) (p : Problem ℚ) : Prop where
  columns_eq : m.columns = .ofProblem p
  rectangular : m.tableau.Rectangular

/-- The solution of a run is the optimum that its tableau shows. -/
structure Run.Reads (r : Run ℚ) (c : Config ℚ) (p : Problem ℚ) : Prop where
  sized : Sized r.session.model p
  optimum : ∃ trail, r.solution = r.session.model.optimum c trail

/-- A model keeps its columns and the length of its rows when it is optimized. -/
theorem Sized.optimize {s : Session ℚ} (h : Sized s.model p) (j : Journal ℚ) :
    Sized (s.optimize c j).state.model p := by
  refine Session.optimize_invariant (P := fun m => Sized m p) ?_ h j
  intro m phase row col t hm hplan hpivot
  obtain ⟨-, rfl⟩ := Tableau.pivot_eq_ok_abs hpivot
  exact ⟨hm.columns_eq, (hm.rectangular.eliminate (Model.row_range_of_plan hplan).2 col).1⟩

/-- An optimum that an optimization comes to is read off its tableau. -/
theorem Run.reads_of_optimize {s : Session ℚ} (h : Sized s.model p) {j : Journal ℚ}
    {sol : Solution ℚ} (hsol : (s.optimize c j).result = .ok sol) (hstatus : sol.status = .optimal)
    (hr : r.session = (s.optimize c j).state) (hsolution : r.solution = sol) : r.Reads c p := by
  obtain ⟨trail, v, rfl⟩ := Session.optimize_eq_ok hsol
  have hoptimum := hsolution.trans (Model.conclude_eq_optimum hstatus)
  rw [← hr] at hoptimum
  exact ⟨hr ▸ h.optimize j, _, hoptimum⟩

/-- The most fractional of the variables to be integral is basic in some row. -/
theorem Run.Reads.exists_sourceRow (h : r.Reads c p) (hg : g.Direct p)
    (hi : 0 ≤ c.integralityTolerance) {at_ : Fractional.Candidate ℚ}
    (hpick : r.pick c g = some at_) : ∃ row, r.sourceRow c g at_.index = some row := by
  obtain ⟨hmem, hfractional⟩ := Fractional.most_eq_some hpick
  obtain ⟨⟨i, col⟩, he, rfl⟩ := List.mem_map.1 hmem
  obtain ⟨trail, hsolution⟩ := h.optimum
  have hne : (r.solution.decisionValues g.numVariables).getD i 0 ≠ 0 := by
    intro hzero
    rw [Fractional.isIntegral, hzero] at hfractional
    have hround : Scalar.round (0 : ℚ) = 0 := by exact_mod_cast Scalar.round_intCast 0
    refine of_decide_eq_false hfractional ?_
    rw [hround, sub_zero, Scalar.abs_rat, abs_zero]
    exact hi
  rw [hsolution] at hne
  obtain ⟨row, hrow⟩ := Model.exists_basicRow (by rw [h.sized.columns_eq]; exact hg i col he) hne
  -- the pair that is looked up by the index is this one, as a variable has one column at most
  have hsome : (g.direct.find? (·.1 = i)).isSome :=
    List.find?_isSome.2 ⟨_, he, decide_eq_true rfl⟩
  obtain ⟨⟨i', col'⟩, hfind⟩ := Option.isSome_iff_exists.1 hsome
  obtain rfl : i' = i := by simpa using List.find?_some hfind
  obtain rfl : col' = col := Option.some.inj
    ((hg _ _ (List.mem_of_find?_eq_some hfind)).symm.trans (hg _ _ he))
  exact ⟨row, Option.bind_eq_some_iff.2 ⟨_, hfind, hrow⟩⟩

/-! ## Rounds of cuts -/

/-- A cut has a coefficient for every column. -/
theorem Run.Reads.length_cut (h : r.Reads c p) {index row : ℕ}
    (hrow : r.sourceRow c g index = some row) (at_ : Fractional.Candidate ℚ) :
    (r.cut c row at_).1.coefficients.length = r.session.model.tableau.rhsCol := by
  obtain ⟨⟨i, col⟩, -, hbasic⟩ := Option.bind_eq_some_iff.1 hrow
  exact GomoryCut.length_coefficients h.sized.rectangular (Tableau.basicRow_range hbasic).2 _

/-- The row of a cut has the length of the tableau that it comes to. -/
theorem Run.Reads.pushRow_cut (h : r.Reads c p) {index row : ℕ}
    (hrow : r.sourceRow c g index = some row) (at_ : Fractional.Candidate ℚ) :
    let cut := (r.cut c row at_).1
    r.session.model.tableau.insertColumn.pushRow (cut.coefficients ++ [1, cut.bound]) =
      .ok (r.addCut c row at_).session.model.tableau :=
  h.sized.rectangular.pushRow_grow (h.length_cut hrow at_) _

/-- A cut keeps the columns and leaves rows of one length. -/
theorem Run.Reads.sized_addCut (h : r.Reads c p) {index row : ℕ}
    (hrow : r.sourceRow c g index = some row) (at_ : Fractional.Candidate ℚ) :
    Sized (r.addCut c row at_).session.model p :=
  ⟨h.sized.columns_eq, h.sized.rectangular.grow (h.length_cut hrow at_) _⟩

/-- A round goes on with a run that reads its tableau, or ends with a solution. -/
inductive Round.Proceeds (c : Config ℚ) (p : Problem ℚ) : Round ℚ → Prop
  | next {r : Run ℚ} (h : r.Reads c p) : Proceeds c p (.next r)
  | ended {r : Run ℚ} {answer : Call (Trace ℚ) ℚ} {sol : Solution ℚ}
      (h : answer.result = .ok sol) : Proceeds c p (.ended r answer)

/-- Optimizing after a cut does not fail. -/
theorem Run.reoptimize_proceeds (h : Sized r.session.model p) :
    (r.reoptimize c).Proceeds c p := by
  obtain ⟨sol, hsol⟩ := Session.exists_optimize_eq_ok r.session c r.journal
  unfold Run.reoptimize
  dsimp only
  rw [hsol]
  dsimp only
  split
  · rename_i hstatus _
    exact .next (reads_of_optimize h hsol hstatus rfl rfl)
  · exact .ended rfl

/-- A round does not fail. -/
theorem Run.Reads.round (h : r.Reads c p) (hg : g.Direct p) (hi : 0 ≤ c.integralityTolerance)
    {at_ : Fractional.Candidate ℚ} (hpick : r.pick c g = some at_) :
    (r.round c g at_).Proceeds c p := by
  obtain ⟨row, hrow⟩ := h.exists_sourceRow hg hi hpick
  unfold Run.round
  dsimp only
  split_ifs
  · exact .ended rfl
  · exact .ended rfl
  · let asked : Run ℚ := { r with journal := (c.ask r.journal).2 }
    have hasked : asked.Reads c p := ⟨h.sized, h.optimum⟩
    have hsame : asked.sourceRow c g at_.index = some row := hrow
    rw [hsame]
    exact reoptimize_proceeds (hasked.sized_addCut hsame at_)

/-- Rounds of cuts do not fail. -/
theorem exists_iterate_eq_ok (hg : g.Direct p) (hi : 0 ≤ c.integralityTolerance) (left : ℕ)
    (h : r.Reads c p) : ∃ sol, (iterate c g left r).result = .ok sol := by
  refine iterate_rule (P := fun _ r => r.Reads c p)
    (Q := fun answer => ∃ sol, answer.result = .ok sol) (fun _ r at_ h hpick => ?_)
    (fun _ _ _ _ => ⟨_, rfl⟩) (fun _ _ => ⟨_, rfl⟩) left h
  have hround := h.round hg hi hpick
  generalize r.round c g at_ = round at hround
  cases hround with
  | next h => exact .next h
  | ended h => exact .ended ⟨_, h⟩

/-- A run can begin, as a problem with a session has a standard form. -/
theorem exists_begin_eq_ok {s : Session ℚ} {j' : Journal ℚ}
    (hstart : Session.start c p j = .ok (s, j')) (root : Call (Session ℚ) ℚ) (sol : Solution ℚ)
    (v : ℚ) : ∃ begun, begin c p root sol v = .ok begun := by
  unfold begin
  cases hf : StandardForm.ofProblem p with
  | error e =>
    rw [StandardForm.ofProblem_eq_error, ← Session.start_eq_error (c := c) (j := j), hstart] at hf
    cases hf
  | ok f => exact ⟨_, rfl⟩

/-- A run begins at the optimum that its tableau shows. -/
theorem begin_reads {s : Session ℚ} {j' : Journal ℚ} {sol : Solution ℚ} {v : ℚ}
    (hstart : Session.start c p j = .ok (s, j')) (hroot : (s.optimize c j').result = .ok sol)
    (hstatus : sol.status = .optimal) (h : begin c p (s.optimize c j') sol v = .ok (g, r)) :
    g.Direct p ∧ r.Reads c p := by
  have haligned := Session.start_kept (Model.kept_aligned c) hstart
  have hdirect : g.Direct p := fun i col hmem => ((mem_direct_of_begin h).1 hmem).2
  obtain ⟨f, -, -, rfl⟩ := begin_eq_ok h
  exact ⟨hdirect,
    Run.reads_of_optimize ⟨haligned.columns_eq, haligned.rectangular⟩ hroot hstatus rfl rfl⟩

/-- Every state of a run reads its tableau. -/
theorem Reaches.proceeds (hi : 0 ≤ c.integralityTolerance) {round : Round ℚ}
    (h : Reaches c p j g round) : g.Direct p ∧ round.Proceeds c p := by
  induction h with
  | begin hstart hroot hstatus hbegin =>
    obtain ⟨hg, hreads⟩ := begin_reads hstart hroot hstatus hbegin
    exact ⟨hg, .next hreads⟩
  | round _ hpick ih =>
    obtain ⟨hg, hproceeds⟩ := ih
    cases hproceeds with
    | next h => exact ⟨hg, h.round hg hi hpick⟩

/-- Cutting planes fail for the constraints of the problem only. -/
theorem solve_eq_error (hi : 0 ≤ c.integralityTolerance) {e : Error ℚ} :
    (solve c p j).result = .error e ↔ p.refusal? = some e := by
  rw [← Session.start_eq_error (c := c) (j := j), solve, solveFrom]
  cases hstart : Session.start c p j with
  | error e' => exact error_eq_error_iff
  | ok started =>
    obtain ⟨s, j'⟩ := started
    refine iff_of_false (fun h => ?_) ok_ne_error
    obtain ⟨sol, hroot⟩ := Session.exists_optimize_eq_ok s c j'
    dsimp only at h
    rw [hroot] at h
    dsimp only at h
    split at h
    · rename_i v hstatus _
      obtain ⟨⟨g, r⟩, hbegin⟩ := exists_begin_eq_ok hstart (s.optimize c j') sol v
      rw [hbegin] at h
      obtain ⟨hg, hreads⟩ := begin_reads hstart hroot hstatus hbegin
      obtain ⟨sol', hsol'⟩ := exists_iterate_eq_ok hg hi c.maxCuts hreads
      cases hsol'.symm.trans h
    · cases h

/-- When a run begins, the standard form has a row for every auxiliary column. -/
theorem length_rows_eq {s : Session ℚ} {j' : Journal ℚ} {f : StandardForm ℚ}
    (hstart : Session.start c p j = .ok (s, j')) (hf : StandardForm.ofProblem p = .ok f) :
    (s.optimize c j').state.model.aux.length = f.rows.length := by
  have haligned := Session.optimize_kept (Model.kept_aligned c)
    (Session.start_kept (Model.kept_aligned c) hstart) j'
  obtain ⟨-, -, -, hrows⟩ := StandardForm.ofProblem_eq_ok hf
  rw [haligned.aux_eq, AuxColumn.length_ofRows, hrows, List.length_map, Posed.rows, List.append_nil]

end CuttingPlane

/-! ## All solvers -/

/-- Malformed input is refused, and nothing else fails, whatever the tolerance of pivots and the
limits are. A problem is refused for the first constraint that has more coefficients than there are
variables, and a constraint that is added if no model was built before or for its coefficients.
Pivots that are planned are carried out, the rows that additions and cuts bring have the length of
the tableau, and a fractional variable that is to be cut off is basic in some row. -/
theorem solvers_refuse_iff {c : Config ℚ} (hi : 0 ≤ c.integralityTolerance)
    (history : List (Request ℚ × Journal ℚ)) (j : Journal ℚ) :
    let d := DualSimplex.run ⟨c, none⟩ history
    (∀ p e, ((d.solve p j).result = .error e ↔ p.refusal? = some e) ∧
      ((BranchAndBound.solve c p j).result = .error e ↔ p.refusal? = some e) ∧
      ((CuttingPlane.solve c p j).result = .error e ↔ p.refusal? = some e)) ∧
    (∀ k e, (d.addConstraint k j).result = .error e ↔
      ((∀ p, .solve p ∈ history.map (·.1) → ¬∃ m, Model.build c.bigM p = .ok m) ∧
        e = .noPriorSolve) ∨
      ∃ q, Request.posed history = some q ∧ q.problem.numVariables < k.coefficients.length ∧
        e = .dimensionMismatch q.problem.numVariables k.coefficients.length) ∧
    (∀ (m : Model ℚ) phase t row col, m.plan c.tolerance phase t = .pivot row col →
      t.pivot row col c.tolerance = .ok (t.eliminate row col)) ∧
    (∀ s (k : Constraint ℚ), d.session = some s →
      let entries := s.model.columns.rowEntries k s.model.aux.length
      s.model.tableau.insertColumn.pushRow (entries ++ [1, k.rowSign * k.rhs]) =
        .ok (s.model.tableau.grow entries (k.rowSign * k.rhs))) ∧
    (∀ p s j' f, Session.start c p j = .ok (s, j') → StandardForm.ofProblem p = .ok f →
      (s.optimize c j').state.model.aux.length = f.rows.length) ∧
    ∀ p g r at_, CuttingPlane.Reaches c p j g (.next r) → r.pick c g = some at_ →
      ∃ row, r.sourceRow c g at_.index = some row ∧
        let cut := (r.cut c row at_).1
        r.session.model.tableau.insertColumn.pushRow (cut.coefficients ++ [1, cut.bound]) =
          .ok (r.addCut c row at_).session.model.tableau := by
  intro d
  refine ⟨fun p e => ⟨DualSimplex.solve_eq_error, BranchAndBound.solve_eq_error,
    CuttingPlane.solve_eq_error hi⟩, fun k e => ?_, fun m phase t row col => Model.pivot_of_plan,
    fun s k hs => ?_, fun p s j' f => CuttingPlane.length_rows_eq,
    fun p g r at_ hreaches hpick => ?_⟩
  · simp only [Model.exists_build_iff, ← Request.posed_eq_none_iff]
    exact DualSimplex.addConstraint_eq_error history
  · have hholds := DualSimplex.Holds.run (Model.kept_aligned c) history
    replace hs : (DualSimplex.run ⟨c, none⟩ history).session = some s := hs
    generalize DualSimplex.run ⟨c, none⟩ history = d, Request.posed history = o at hs hholds
    cases hholds with
    | idle => cases hs
    | session h =>
      obtain rfl := Option.some.inj hs
      exact h.pushRow_rowEntries k _
  · obtain ⟨hg, hproceeds⟩ := hreaches.proceeds hi
    cases hproceeds with
    | next h =>
      obtain ⟨row, hrow⟩ := h.exists_sourceRow hg hi hpick
      exact ⟨row, hrow, h.pushRow_cut hrow at_⟩

/-- At the usual tolerances. Of four constraints on two variables the second and the third have too
many coefficients, and all solvers name the second. On `3 x₁ + 2 x₂` with `2 x₁ + 2 x₂ ≤ 7` and
`x₁ ≤ 2` the relaxation has `x₂ = 3 / 2`, which is basic in some row; no constraint on three
variables can be added, nor any constraint to a solver that has solved nothing. -/
theorem solvers_refuse_iff_wide :
    let wide : Problem ℚ :=
      { Problem.ofObjective .maximize [1, 1] with
        constraints := [⟨[1], .le, 4⟩, ⟨[1, 1, 1], .le, 2⟩, ⟨[1, 1, 1, 1], .le, 2⟩, ⟨[], .le, 0⟩] }
    let p : Problem ℚ :=
      { Problem.ofObjective .maximize [3, 2] with
        constraints := [⟨[2, 2], .le, 7⟩, ⟨[1, 0], .le, 2⟩] }
    let j : Journal ℚ := {}
    0 ≤ (Config.standard : Config ℚ).integralityTolerance ∧
    (DualSimplex.solve ⟨.standard, none⟩ wide j).result = .error (.dimensionMismatch 2 3) ∧
    (BranchAndBound.solve .standard wide j).result = .error (.dimensionMismatch 2 3) ∧
    (CuttingPlane.solve .standard wide j).result = .error (.dimensionMismatch 2 3) ∧
    (DualSimplex.addConstraint ⟨.standard, none⟩ ⟨[1, 1, 1], .le, 2⟩ j).result =
      .error .noPriorSolve ∧
    ((DualSimplex.run ⟨.standard, none⟩ [(.solve p, j)]).addConstraint
      ⟨[1, 1, 1], .le, 2⟩ j).result = .error (.dimensionMismatch 2 3) ∧
    ∃ g r at_, CuttingPlane.Reaches .standard p j g (.next r) ∧ r.pick .standard g = some at_ ∧
      at_.index = 1 ∧ ∃ row, r.sourceRow .standard g at_.index = some row := by
  intro wide p j
  have hi : 0 ≤ (Config.standard : Config ℚ).integralityTolerance := by decide +kernel
  obtain ⟨hsolve, hadd, -, -, -, hpicked⟩ := solvers_refuse_iff hi [] j
  obtain ⟨-, hadd', -⟩ := solvers_refuse_iff hi [(.solve p, j)] j
  have hwide : wide.refusal? = some (.dimensionMismatch 2 3) := rfl
  obtain ⟨hdual, hsearch, hcuts⟩ := hsolve wide (.dimensionMismatch 2 3)
  refine ⟨hi, hdual.2 hwide, hsearch.2 hwide, hcuts.2 hwide,
    (hadd _ _).2 (.inl ⟨fun _ hp => (nomatch hp), rfl⟩),
    (hadd' _ _).2 (.inr ⟨_, rfl, by decide, rfl⟩), ?_⟩
  have hrun : ((Session.start .standard p j).toOption.bind fun e =>
      (e.1.optimize .standard e.2).result.toOption.bind fun sol =>
        if sol.status = .optimal then
          (CuttingPlane.begin .standard p (e.1.optimize .standard e.2) sol 9).toOption.bind fun b =>
            (b.2.pick .standard b.1).map (·.index)
        else none) = some 1 := by decide +kernel
  obtain ⟨⟨s, j'⟩, hstart, hrun⟩ := Option.bind_eq_some_iff.1 hrun
  obtain ⟨sol, hroot, hrun⟩ := Option.bind_eq_some_iff.1 hrun
  obtain ⟨hstatus, hrun⟩ := Option.ite_none_right_eq_some.1 hrun
  obtain ⟨⟨g, r⟩, hbegin, hrun⟩ := Option.bind_eq_some_iff.1 hrun
  obtain ⟨at_, hpick, hindex⟩ := Option.map_eq_some_iff.1 hrun
  have hreaches := CuttingPlane.Reaches.begin (eq_ok_of_toOption hstart) (eq_ok_of_toOption hroot)
    hstatus (eq_ok_of_toOption hbegin)
  obtain ⟨row, hrow, -⟩ := hpicked p g r at_ hreaches hpick
  exact ⟨g, r, at_, hreaches, hpick, hindex, row, hrow⟩

end LinOpt
