import LinOpt.Proofs.Simplex.Dual.Session

/-!
# Histories of the dual solver

A solver is used by requests: to solve a problem, or to add a constraint to the problem solved last
and optimize again. `Request.pose` says which problem stands after a request, in terms of problems
alone; a request that is refused leaves it as it was.

Whatever the answers on the way were, the session of the solver represents the problem that stands
(`DualSimplex.Tracks.run`). So at tolerance zero an optimum that is reported is the best value over
the feasible points of that problem (`DualSimplex.optimal_isBest`). If it has no equality, the
verdicts that it is infeasible or unbounded are right as well (`DualSimplex.verdict_sound`).

Over any scalars, what a solver answers is concluded from the model of its session
(`DualSimplex.request_eq_ok`), and it is accepted or refused for the number of coefficients
(`Model.exists_build_iff`, `Model.exists_extend_iff`).
-/

namespace LinOpt

/-- What a dual solver is asked for. -/
inductive Request (α : Type) where
  | solve (p : Problem α)
  | add (k : Constraint α)

/-- No constraint has more coefficients than there are variables. -/
def Problem.Fits {α : Type} (p : Problem α) : Prop :=
  ∀ k ∈ p.constraints, k.coefficients.length ≤ p.vars.length

instance {α : Type} (p : Problem α) : Decidable p.Fits := by
  unfold Problem.Fits
  infer_instance

section Requests

variable {α : Type} [Scalar α]

/-- The problem that stands after a request, given the one before it. -/
def Request.pose : Request α → Option (Posed α) → Option (Posed α)
  | .solve p, before => if p.Fits then some ⟨p, []⟩ else before
  | .add _, none => none
  | .add k, some q =>
    match q.current.addConstraint k with
    | .ok _ => some (q.add k)
    | .error _ => some q

/-- The problem that stands after a history of requests. -/
def Request.posed (history : List (Request α × Journal α)) : Option (Posed α) :=
  history.foldl (fun o r => r.1.pose o) none

/-- One request to a solver. -/
def DualSimplex.request (d : DualSimplex α) (r : Request α) (j : Journal α) :
    Call (DualSimplex α) α :=
  match r with
  | .solve p => d.solve p j
  | .add k => d.addConstraint k j

/-- The solver after a history of requests, each with the journal it was given. -/
def DualSimplex.run (d : DualSimplex α) (history : List (Request α × Journal α)) : DualSimplex α :=
  history.foldl (fun d r => (d.request r.1 r.2).state) d

/-- The problem that stands after one request more. -/
theorem Request.posed_concat (history : List (Request α × Journal α)) (r : Request α)
    (j : Journal α) : posed (history ++ [(r, j)]) = r.pose (posed history) :=
  List.foldl_append

/-- The solver after one request more. -/
theorem DualSimplex.run_concat (d : DualSimplex α) (history : List (Request α × Journal α))
    (r : Request α) (j : Journal α) :
    d.run (history ++ [(r, j)]) = ((d.run history).request r j).state :=
  List.foldl_append

/-- The problem that stands is one that was asked for, grown by constraints. -/
theorem Request.posed_indexed {history : List (Request α × Journal α)}
    (hr : ∀ p j, (.solve p, j) ∈ history → p.Indexed) {q : Posed α} (hq : posed history = some q) :
    q.problem.Indexed := by
  induction history using List.reverseRecOn generalizing q with
  | nil => cases hq
  | append_singleton history r ih =>
    have ih := fun {q} => ih (q := q) fun p j hp => hr p j (List.mem_append_left _ hp)
    obtain ⟨r, j⟩ := r
    rw [posed_concat] at hq
    cases r with
    | solve p =>
      rw [pose] at hq
      split_ifs at hq
      · obtain rfl := Option.some.inj hq
        exact hr p j (List.mem_append_right _ List.mem_cons_self)
      · exact ih hq
    | add k =>
      cases hposed : posed history with
      | none => rw [hposed] at hq; cases hq
      | some q' =>
        rw [hposed, pose] at hq
        split at hq <;> obtain rfl := Option.some.inj hq <;> exact ih (q := q') hposed

end Requests

/-! ## Acceptance -/

section Acceptance

variable {α : Type} [Scalar α]

namespace ColumnMap

variable {m : ColumnMap}

/-- Coefficients are taken exactly if there are not too many. -/
theorem exists_toColumns_iff {as : List α} :
    (∃ bs, m.toColumns as = .ok bs) ↔ as.length ≤ m.numVariables := by
  unfold toColumns
  split_ifs with h
  · exact iff_of_false (by rintro ⟨_, hb⟩; cases hb) (not_le.2 h)
  · exact ⟨fun _ => not_lt.1 h, fun _ => ⟨_, rfl⟩⟩

/-- A constraint is taken exactly if its coefficients are. -/
theorem exists_constraintToColumns_iff {k : Constraint α} :
    (∃ k', m.constraintToColumns k = .ok k') ↔ k.coefficients.length ≤ m.numVariables := by
  rw [← exists_toColumns_iff, constraintToColumns]
  cases m.toColumns k.coefficients with
  | error e => exact iff_of_false (by rintro ⟨_, h⟩; cases h) (by rintro ⟨_, h⟩; cases h)
  | ok bs => exact ⟨fun _ => ⟨bs, rfl⟩, fun _ => ⟨_, rfl⟩⟩

/-- Constraints are taken together exactly if each is taken. -/
theorem exists_mapM_constraintToColumns_iff {ks : List (Constraint α)} :
    (∃ ks', ks.mapM m.constraintToColumns = .ok ks') ↔
      ∀ k ∈ ks, k.coefficients.length ≤ m.numVariables := by
  induction ks with
  | nil => exact ⟨fun _ k hk => (nomatch hk), fun _ => ⟨[], rfl⟩⟩
  | cons k ks ih =>
    rw [List.forall_mem_cons, ← ih, ← exists_constraintToColumns_iff, List.mapM_cons]
    cases m.constraintToColumns k with
    | error e => exact iff_of_false (by rintro ⟨_, h⟩; cases h) (by rintro ⟨⟨_, h⟩, _⟩; cases h)
    | ok k' =>
      cases ks.mapM m.constraintToColumns with
      | error e => exact iff_of_false (by rintro ⟨_, h⟩; cases h) (by rintro ⟨_, _, h⟩; cases h)
      | ok ks' => exact ⟨fun _ => ⟨⟨k', rfl⟩, ks', rfl⟩, fun _ => ⟨_, rfl⟩⟩

end ColumnMap

/-- The rows that bound binary variables fit. -/
theorem Problem.fits_iff {p : Problem α} :
    p.Fits ↔ ∀ k ∈ p.constraints ++ p.binaryBounds, k.coefficients.length ≤ p.vars.length := by
  refine ⟨fun h k hk => ?_, fun h k hk => h k (List.mem_append_left _ hk)⟩
  rcases List.mem_append.1 hk with hk | hk
  · exact h k hk
  · obtain ⟨v, -, rfl⟩ := List.mem_map.1 hk
    show (Scalar.unit p.numVariables v.index : List α).length ≤ _
    simp [Scalar.unit, Problem.numVariables]

/-- A problem has a model exactly if no constraint has too many coefficients. -/
theorem Model.exists_build_iff (bigM : α) (p : Problem α) :
    (∃ m, Model.build bigM p = .ok m) ↔ p.Fits := by
  have hn : (ColumnMap.ofProblem p).numVariables = p.vars.length := List.length_map _
  have hobjective : p.objective.length ≤ (ColumnMap.ofProblem p).numVariables := by
    rw [hn]
    exact (List.length_map _).le
  obtain ⟨objective, hobj⟩ := ColumnMap.exists_toColumns_iff.2 hobjective
  rw [Problem.fits_iff, ← hn, ← ColumnMap.exists_mapM_constraintToColumns_iff]
  dsimp only [Model.build, StandardForm.ofProblem, bind, Except.bind]
  rw [hobj]
  dsimp only
  cases (p.constraints ++ p.binaryBounds).mapM (ColumnMap.ofProblem p).constraintToColumns with
  | error e => exact iff_of_false (by rintro ⟨_, h⟩; cases h) (by rintro ⟨_, h⟩; cases h)
  | ok rows => exact ⟨fun _ => ⟨rows, rfl⟩, fun _ => ⟨_, rfl⟩⟩

/-- A session can be started exactly if no constraint has too many coefficients. -/
theorem Session.exists_start_iff (c : Config α) (p : Problem α) (j : Journal α) :
    (∃ started, start c p j = .ok started) ↔ p.Fits := by
  rw [← Model.exists_build_iff c.bigM, start]
  cases Model.build c.bigM p with
  | error e => exact iff_of_false (by rintro ⟨_, h⟩; cases h) (by rintro ⟨_, h⟩; cases h)
  | ok m => exact ⟨fun _ => ⟨m, rfl⟩, fun _ => ⟨_, rfl⟩⟩

/-- A problem takes a constraint exactly if it has not too many coefficients. -/
theorem Problem.exists_addConstraint_iff {p : Problem α} {k : Constraint α} :
    (∃ p', p.addConstraint k = .ok p') ↔ k.coefficients.length ≤ p.numVariables := by
  rw [addConstraint_eq]
  split_ifs with hlen
  · exact iff_of_false (by rintro ⟨_, h⟩; cases h) (not_le.2 hlen)
  · exact iff_of_true ⟨_, rfl⟩ (not_lt.1 hlen)

/-- A model takes a constraint exactly if its columns and its problem do. -/
theorem Model.exists_extend_iff {m : Model α} {c : Config α} {k : Constraint α} :
    (∃ m', m.extend c k = .ok m') ↔ k.coefficients.length ≤ m.columns.numVariables ∧
      k.coefficients.length ≤ m.problem.numVariables := by
  rw [← ColumnMap.exists_constraintToColumns_iff, ← Problem.exists_addConstraint_iff]
  unfold extend
  cases m.columns.constraintToColumns k with
  | error e => exact iff_of_false (by rintro ⟨_, h⟩; cases h) (by rintro ⟨⟨_, h⟩, _⟩; cases h)
  | ok row =>
    cases m.problem.addConstraint k with
    | error e => exact iff_of_false (by rintro ⟨_, h⟩; cases h) (by rintro ⟨_, _, h⟩; cases h)
    | ok p => exact iff_of_true ⟨_, rfl⟩ ⟨⟨row, rfl⟩, p, rfl⟩

end Acceptance

/-- A model takes a constraint exactly if its problem does. -/
theorem Model.Describes.exists_extend_iff {m : Model ℚ} {bigM : ℚ} {q : Posed ℚ}
    (h : m.Describes bigM q) (c : Config ℚ) (k : Constraint ℚ) :
    (∃ m', m.extend c k = .ok m') ↔ ∃ p, q.current.addConstraint k = .ok p := by
  have hn : m.columns.numVariables = m.problem.numVariables := by
    rw [h.columns_eq, h.problem_eq]
    exact List.length_map _
  rw [Model.exists_extend_iff, hn, and_self, h.problem_eq, Problem.exists_addConstraint_iff]

/-! ## What is answered -/

section Answers

variable {α : Type} [Scalar α]

/-- An optimum is read off the model. -/
theorem Model.conclude_eq_optimum {m : Model α} {c : Config α} {trail : Solution α} {v : Verdict α}
    (h : (m.conclude c trail v).status = .optimal) :
    m.conclude c trail v = m.optimum c { trail with
      values := {}, analysis := none, tableau := some m.tableau, counts := m.counts } := by
  unfold Model.conclude at h ⊢
  cases v with
  | done =>
    dsimp only at h ⊢
    split at h
    · cases h
    · rfl
  | infeasible | unbounded | limit | interrupted => cases h

/-- An optimum comes with the tableau it was read from and its analysis. -/
theorem Model.conclude_optimal {m : Model α} {c : Config α} {trail : Solution α} {v : Verdict α}
    (h : (m.conclude c trail v).status = .optimal) :
    (m.conclude c trail v).tableau = some m.tableau ∧
      (m.conclude c trail v).analysis = some (m.analyze c (m.variableValues c.tolerance)) := by
  rw [m.conclude_eq_optimum h]
  exact ⟨rfl, rfl⟩

/-- What is concluded shows the tableau of the model and its counts. -/
theorem Model.conclude_shows (m : Model α) (c : Config α) (trail : Solution α) (v : Verdict α) :
    (m.conclude c trail v).tableau = some m.tableau ∧
      (m.conclude c trail v).counts = m.counts := by
  unfold Model.conclude
  cases v with
  | done =>
    dsimp only
    split <;> exact ⟨rfl, rfl⟩
  | infeasible | unbounded | limit | interrupted => exact ⟨rfl, rfl⟩

/-- What an optimization answers is concluded from the model that it leaves. -/
theorem Session.optimize_eq_ok {s : Session α} {c : Config α} {j : Journal α} {sol : Solution α}
    (h : (s.optimize c j).result = .ok sol) :
    ∃ trail v, sol = (s.optimize c j).state.model.conclude c trail v := by
  unfold optimize at h ⊢
  generalize Progress.phases _ c s.model = out at h ⊢
  obtain ⟨p, verdict⟩ := out
  cases verdict with
  | error e => cases h
  | ok v => exact ⟨p.trail, v, (Except.ok.inj h).symm⟩

/-- What a solver answers is concluded from the model of its session. -/
theorem DualSimplex.request_eq_ok {d : DualSimplex α} {r : Request α} {j : Journal α}
    {sol : Solution α} (h : (d.request r j).result = .ok sol) :
    ∃ s trail v, (d.request r j).state.session = some s ∧
      sol = s.model.conclude d.config trail v := by
  cases r with
  | solve p =>
    simp only [DualSimplex.request, DualSimplex.solve] at h ⊢
    cases hstart : Session.start d.config p j with
    | error e => rw [hstart] at h; cases h
    | ok started =>
      rw [hstart] at h
      obtain ⟨trail, v, hsol⟩ := Session.optimize_eq_ok h
      exact ⟨_, trail, v, rfl, hsol⟩
  | add k =>
    simp only [DualSimplex.request, DualSimplex.addConstraint] at h ⊢
    cases hsession : d.session with
    | none => rw [hsession] at h; cases h
    | some s =>
      rw [hsession] at h
      simp only [DualSimplex.after, Session.addConstraint] at h ⊢
      cases hext : s.model.extend d.config k with
      | error e => rw [hext] at h; cases h
      | ok m =>
        rw [hext] at h
        obtain ⟨trail, v, hsol⟩ := Session.optimize_eq_ok h
        exact ⟨_, trail, v, rfl, hsol⟩

end Answers

/-! ## Optima of a model that represents a problem -/

/-- A session starts from the model of its problem. -/
theorem Session.start_represents {s : Session ℚ} {c : Config ℚ} {p : Problem ℚ} {j j' : Journal ℚ}
    (h : start c p j = .ok (s, j')) : s.model.Represents c.bigM ⟨p, []⟩ := by
  obtain ⟨m, hbuild, rfl, -⟩ := start_eq_ok h
  exact Model.represents_build hbuild

/-- Optimizing goes on representing the same problem. -/
theorem Session.optimize_represents {s : Session ℚ} {c : Config ℚ} {q : Posed ℚ}
    (ht : c.tolerance = 0) (h : s.model.Represents c.bigM q) (j : Journal ℚ) :
    (s.optimize c j).state.model.Represents c.bigM q ∧ ∀ sol, (s.optimize c j).result = .ok sol →
      (s.optimize c j).state.model.Answers sol := by
  obtain ⟨⟨t, hmodel, hcar⟩, hans⟩ := optimize_spec ht h.stands j
  refine ⟨?_, fun sol hsol => (hans sol hsol).1⟩
  rw [hmodel]
  exact h.carries hcar

/-- A constraint that the problem takes is added to what the session represents, and one that it
refuses changes nothing. -/
theorem Session.addConstraint_spec {s : Session ℚ} {c : Config ℚ} {q : Posed ℚ}
    (ht : c.tolerance = 0) (h : s.model.Represents c.bigM q) (k : Constraint ℚ) (j : Journal ℚ) :
    let call := s.addConstraint c k j
    ((∃ p, q.current.addConstraint k = .ok p) ∧ call.state.model.Represents c.bigM (q.add k) ∧
      ∀ sol, call.result = .ok sol → call.state.model.Answers sol) ∨
    ((∃ e, q.current.addConstraint k = .error e) ∧ call.state = s ∧
      ∃ e, call.result = .error e) := by
  have haccept := h.describes.exists_extend_iff c k
  unfold addConstraint
  cases hext : s.model.extend c k with
  | error e =>
    refine .inr ⟨?_, rfl, e, rfl⟩
    cases hadd : q.current.addConstraint k with
    | error e => exact ⟨e, rfl⟩
    | ok p =>
      obtain ⟨m, hm⟩ := haccept.2 ⟨p, hadd⟩
      cases hext.symm.trans hm
  | ok m =>
    obtain ⟨hrep, hans⟩ := optimize_represents ht (s := ⟨m, _, s.pivots⟩) (h.extend ht hext)
      (c.emit j (.constraintAdded ⟨k, (AuxColumn.ofRow s.model.counts k).name⟩))
    exact .inl ⟨haccept.1 ⟨m, hext⟩, hrep, hans⟩

/-- An optimum that a model answers with is the best value over the feasible points. -/
theorem Model.Represents.isBest {m : Model ℚ} {bigM : ℚ} {q : Posed ℚ} (h : m.Represents bigM q)
    (hq : q.problem.Indexed) {sol : Solution ℚ} (ha : m.Answers sol)
    (hopt : sol.status = .optimal) : ∃ v, sol.optimalValue = some v ∧
      q.current.sense.IsBest (q.current.objectiveValue '' {x | q.current.Feasible x}) v := by
  obtain ⟨hshows, hart, hvalue, -⟩ := ha.of_optimal hopt
  have hz : ∀ y ∈ m.Region (m.columns.Holds q.rows), q.penalized bigM y =
      PrimalSimplex.ofMaximized q.current.sense
        (q.current.objectiveValue (m.columns.point y)) := fun y hy =>
    Posed.penalized_region h.columns_eq h.aux_eq bigM hy.2.2
  rw [h.problem_eq] at hvalue
  refine ⟨_, hvalue, Sense.isBest_iff.2 ⟨?_, ?_⟩⟩
  · obtain ⟨y, hy, hzy, -⟩ := h.stands.exists_mem_region hshows.rhs_nonneg hart
    refine ⟨_, Posed.feasible_point hq h.columns_eq h.aux_eq hy, ?_⟩
    rw [← hzy, hz y hy, Sense.ofMaximized_ofMaximized]
  · rintro _ ⟨x, hx, rfl⟩
    obtain ⟨y, hy, rfl⟩ := Posed.exists_region hq h.columns_eq h.aux_eq hx
    rw [Sense.ofMaximized_ofMaximized, ← hz y hy]
    exact h.stands.le_optimum hshows hy

/-! ## Answers without equalities -/

/-- No constraint is an equality. -/
def Problem.NoEquality {α : Type} (p : Problem α) : Prop := ∀ k ∈ p.constraints, k.relation ≠ .eq

instance {α : Type} (p : Problem α) : Decidable p.NoEquality := by
  unfold Problem.NoEquality
  infer_instance

/-- Equalities among the rows come from the problem or from what was added. -/
theorem Posed.relation_ne_eq {q : Posed ℚ} (hp : q.problem.NoEquality)
    (hadded : ∀ k ∈ q.added, k.relation ≠ .eq) : ∀ k ∈ q.rows, k.relation ≠ .eq := by
  intro k hk
  rcases List.mem_append.1 hk with hk | hk
  · rcases List.mem_append.1 hk with hk | hk
    · exact hp k hk
    · obtain ⟨v, -, rfl⟩ := List.mem_map.1 hk
      exact Relation.noConfusion
  · exact hadded k hk

/-- Without equalities in the problem that stands there are none among the rows. -/
theorem Posed.relation_ne_eq_of_current {q : Posed ℚ} (h : q.current.NoEquality) :
    ∀ k ∈ q.rows, k.relation ≠ .eq :=
  relation_ne_eq (fun k hk => h k (List.mem_append_left _ hk))
    fun k hk => h (k.padTo q.problem.numVariables)
      (List.mem_append_right _ (List.mem_map_of_mem hk))

namespace Model

variable {m : Model ℚ} {bigM : ℚ} {q : Posed ℚ} {sol : Solution ℚ}

/-- Without equalities no column is artificial. -/
theorem Represents.isArtificial_eq_false (h : m.Represents bigM q)
    (hrows : ∀ k ∈ q.rows, k.relation ≠ .eq) (j : ℕ) : m.isArtificial j = false := by
  refine Bool.eq_false_iff.2 fun ha => ?_
  obtain ⟨k, row, -, hrow, heq⟩ := h.exists_equality ha
  exact hrows row (List.mem_of_getElem? hrow) heq

/-- A problem has no feasible point if a row of the tableau shows that it is infeasible. -/
theorem Represents.not_feasible_of_row (h : m.Represents bigM q) (hq : q.problem.Indexed) {row : ℕ}
    {b : ℚ} (hshows : m.Shows m.tableau (.infeasible row b)) (x : List ℚ) :
    ¬q.current.Feasible x := by
  intro hx
  obtain ⟨y, hy, -⟩ := Posed.exists_region hq h.columns_eq h.aux_eq hx
  rw [h.stands.region_eq_empty hshows] at hy
  exact hy

/-- Without equalities a problem that is called infeasible has no feasible point. -/
theorem Represents.not_feasible (h : m.Represents bigM q) (hq : q.problem.Indexed)
    (hrows : ∀ k ∈ q.rows, k.relation ≠ .eq) (ha : m.Answers sol) (hinf : sol.status = .infeasible)
    (x : List ℚ) : ¬q.current.Feasible x := by
  cases ha with
  | optimal hstatus | unbounded hstatus | stopped hstatus =>
    rw [hinf] at hstatus
    cases hstatus
  | infeasible _ _ hshows => exact h.not_feasible_of_row hq hshows x
  | artificial _ _ hart =>
    obtain ⟨j, hj, -⟩ := exists_isArtificial hart
    rw [h.isArtificial_eq_false hrows j] at hj
    cases hj

/-- Without equalities the objective of a problem that is called unbounded exceeds every bound. -/
theorem Represents.exists_feasible_gt (h : m.Represents bigM q) (hq : q.problem.Indexed)
    (hrows : ∀ k ∈ q.rows, k.relation ≠ .eq) (ha : m.Answers sol) (hunb : sol.status = .unbounded)
    (b : ℚ) : ∃ x, q.current.Feasible x ∧
      b < PrimalSimplex.ofMaximized q.current.sense (q.current.objectiveValue x) := by
  cases ha with
  | optimal hstatus | infeasible hstatus | artificial hstatus | stopped hstatus =>
    rw [hunb] at hstatus
    cases hstatus
  | unbounded _ _ hshows =>
    obtain ⟨y, hy, hgt⟩ := h.stands.exists_gt (h.isArtificial_eq_false hrows) hshows b
    refine ⟨_, Posed.feasible_point hq h.columns_eq h.aux_eq hy, ?_⟩
    rwa [← Posed.penalized_region h.columns_eq h.aux_eq bigM hy.2.2]

end Model

/-! ## Histories -/

namespace DualSimplex

/-- The session of a solver represents the problem that stands. -/
inductive Tracks (c : Config ℚ) : DualSimplex ℚ → Option (Posed ℚ) → Prop where
  | idle : Tracks c ⟨c, none⟩ none
  | session {s : Session ℚ} {q : Posed ℚ} (h : s.model.Represents c.bigM q) :
      Tracks c ⟨c, some s⟩ (some q)

variable {c : Config ℚ} {d : DualSimplex ℚ} {o : Option (Posed ℚ)}

/-- A solver keeps its settings. -/
theorem Tracks.config_eq (h : Tracks c d o) : d.config = c := by cases h <;> rfl

/-- A request keeps track of the problem that stands, and what is answered to it is what the model
of the session shows. -/
theorem Tracks.request (ht : c.tolerance = 0) (h : Tracks c d o) (r : Request ℚ) (j : Journal ℚ) :
    Tracks c (d.request r j).state (r.pose o) ∧ ∀ sol, (d.request r j).result = .ok sol →
      ∃ s, (d.request r j).state.session = some s ∧ s.model.Answers sol := by
  cases r with
  | solve p =>
    obtain ⟨conf, session⟩ := d
    obtain rfl : conf = c := by cases h <;> rfl
    have haccept := Session.exists_start_iff conf p j
    simp only [DualSimplex.request, Request.pose, DualSimplex.solve]
    cases hstart : Session.start conf p j with
    | error e =>
      rw [if_neg fun hf => by obtain ⟨_, hm⟩ := haccept.2 hf; cases hstart.symm.trans hm]
      refine ⟨?_, fun sol hsol => (nomatch hsol)⟩
      cases h with
      | idle => exact .idle
      | session hrep => exact .session hrep
    | ok started =>
      rw [if_pos (haccept.1 ⟨started, hstart⟩)]
      obtain ⟨hrep, hans⟩ :=
        Session.optimize_represents ht (Session.start_represents hstart) started.2
      exact ⟨.session hrep, fun sol hsol => ⟨_, rfl, hans sol hsol⟩⟩
  | add k =>
    cases h with
    | idle => exact ⟨.idle, fun sol hsol => (nomatch hsol)⟩
    | @session s q hrep =>
      simp only [DualSimplex.request, DualSimplex.addConstraint, Request.pose]
      obtain ⟨⟨p, hadd⟩, hrep', hans⟩ | ⟨⟨e, hadd⟩, hstate, e', hresult⟩ :=
        Session.addConstraint_spec ht hrep k j
      · rw [hadd]
        exact ⟨.session (q := q.add k) hrep', fun sol hsol => ⟨_, rfl, hans sol hsol⟩⟩
      · rw [hadd]
        refine ⟨?_, fun sol hsol => ?_⟩
        · rw [DualSimplex.after, hstate]
          exact .session hrep
        · cases hresult.symm.trans hsol

/-- A history of requests keeps track of the problem that stands. -/
theorem Tracks.run (ht : c.tolerance = 0) (history : List (Request ℚ × Journal ℚ)) :
    Tracks c (run ⟨c, none⟩ history) (Request.posed history) := by
  induction history using List.reverseRecOn with
  | nil => exact .idle
  | append_singleton history r ih =>
    rw [DualSimplex.run, Request.posed, List.foldl_append, List.foldl_append]
    exact (ih.request ht r.1 r.2).1

/-- What is answered to the last request of a history is what the session shows, and it represents
the problem that stands then. -/
theorem session_of_history (ht : c.tolerance = 0) (history : List (Request ℚ × Journal ℚ))
    {r : Request ℚ} {j : Journal ℚ} {sol : Solution ℚ}
    (hsol : ((run ⟨c, none⟩ history).request r j).result = .ok sol) :
    ∃ q s, Request.posed (history ++ [(r, j)]) = some q ∧
      run ⟨c, none⟩ (history ++ [(r, j)]) = ⟨c, some s⟩ ∧
      s.model.Represents c.bigM q ∧ s.model.Answers sol := by
  obtain ⟨htracks, hans⟩ := (Tracks.run ht history).request ht r j
  obtain ⟨s, hs, hans⟩ := hans sol hsol
  rw [Request.posed_concat, run_concat]
  generalize ((run ⟨c, none⟩ history).request r j).state = d, r.pose _ = o at hs htracks ⊢
  cases htracks with
  | idle => cases hs
  | session hrep =>
    obtain rfl := Option.some.inj hs
    exact ⟨_, _, rfl, rfl, hrep, hans⟩

/-- What is answered to the last request of a history is what a model of the problem shows that
stands then. -/
theorem answers_of_history (ht : c.tolerance = 0) (history : List (Request ℚ × Journal ℚ))
    {r : Request ℚ} {j : Journal ℚ} (hr : ∀ p j', (.solve p, j') ∈ history ++ [(r, j)] → p.Indexed)
    {sol : Solution ℚ} (hsol : ((run ⟨c, none⟩ history).request r j).result = .ok sol) :
    ∃ (q : Posed ℚ) (m : Model ℚ), Request.posed (history ++ [(r, j)]) = some q ∧
      q.problem.Indexed ∧ m.Represents c.bigM q ∧ m.Answers sol := by
  obtain ⟨q, s, hposed, -, hrep, hans⟩ := session_of_history ht history hsol
  exact ⟨q, s.model, hposed, Request.posed_indexed hr hposed, hrep, hans⟩

/-- An optimum that the solver reports after any history of requests is the best value of the
objective over the feasible points of the problem that stands, whatever the answers before it. -/
theorem optimal_isBest (ht : c.tolerance = 0) (history : List (Request ℚ × Journal ℚ))
    {r : Request ℚ} {j : Journal ℚ} (hr : ∀ p j', (.solve p, j') ∈ history ++ [(r, j)] → p.Indexed)
    {sol : Solution ℚ} (hsol : ((run ⟨c, none⟩ history).request r j).result = .ok sol)
    (hopt : sol.status = .optimal) :
    ∃ q v, Request.posed (history ++ [(r, j)]) = some q ∧ sol.optimalValue = some v ∧
      q.current.sense.IsBest (q.current.objectiveValue '' {x | q.current.Feasible x}) v := by
  obtain ⟨q, m, hposed, hq, hrep, hans⟩ := answers_of_history ht history hr hsol
  obtain ⟨v, hv, hbest⟩ := hrep.isBest hq hans hopt
  exact ⟨q, v, hposed, hv, hbest⟩

/-- A cover at least cost, `2 x₁ + 3 x₂` for `x₁ + x₂ ≥ 4`, and then with `x₂ ≥ 1`. -/
theorem optimal_isBest_cover :
    let cover : Problem ℚ :=
      { Problem.ofObjective .minimize [2, 3] with constraints := [⟨[1, 1], .ge, 4⟩] }
    let bound : Request ℚ := .add ⟨[0, 1], .ge, 1⟩
    let j : Journal ℚ := {}
    ∃ sol, ((run ⟨.exact, none⟩ [(.solve cover, j)]).request bound j).result = .ok sol ∧
      sol.optimalValue = some 9 ∧
      ∃ q v, Request.posed [(.solve cover, j), (bound, j)] = some q ∧
        sol.optimalValue = some v ∧
        q.current.sense.IsBest (q.current.objectiveValue '' {x | q.current.Feasible x}) v := by
  intro cover bound j
  have hrun : (((run ⟨.exact, none⟩ [(.solve cover, j)]).request bound j).result.toOption.map
      fun sol => (sol.status, sol.optimalValue)) = some (.optimal, some 9) := by decide +kernel
  have hindexed : ∀ p j', (.solve p, j') ∈ [(.solve cover, j)] ++ [(bound, j)] → p.Indexed := by
    intro p j' hp
    obtain ⟨rfl, -⟩ : p = cover ∧ j' = j := by simpa [bound] using hp
    exact Problem.Indexed.ofObjective .minimize [2, 3]
  cases hsol : ((run ⟨.exact, none⟩ [(.solve cover, j)]).request bound j).result with
  | error e => rw [hsol] at hrun; cases hrun
  | ok sol =>
    rw [hsol] at hrun
    obtain ⟨hopt, hvalue⟩ := Prod.mk.inj (Option.some.inj hrun)
    exact ⟨sol, rfl, hvalue, optimal_isBest rfl _ hindexed hsol hopt⟩

/-- If the problem that stands after a history of requests has no equality, it has no feasible point
when the answer is that it is infeasible, and feasible points of any objective value when the answer
is that it is unbounded, whatever the answers before. -/
theorem verdict_sound (ht : c.tolerance = 0) (history : List (Request ℚ × Journal ℚ))
    {r : Request ℚ} {j : Journal ℚ} (hr : ∀ p j', (.solve p, j') ∈ history ++ [(r, j)] → p.Indexed)
    {sol : Solution ℚ} (hsol : ((run ⟨c, none⟩ history).request r j).result = .ok sol) :
    ∃ q, Request.posed (history ++ [(r, j)]) = some q ∧ (q.current.NoEquality →
      (sol.status = .infeasible → ∀ x, ¬q.current.Feasible x) ∧
      (sol.status = .unbounded → ∀ b, ∃ x, q.current.Feasible x ∧
        q.current.sense.Beats (q.current.objectiveValue x) b)) := by
  obtain ⟨q, m, hposed, hq, hrep, hans⟩ := answers_of_history ht history hr hsol
  refine ⟨q, hposed, fun hno => ?_⟩
  have hrows := Posed.relation_ne_eq_of_current hno
  refine ⟨fun hinf => hrep.not_feasible hq hrows hans hinf, fun hunb b => ?_⟩
  obtain ⟨x, hx, hgt⟩ := hrep.exists_feasible_gt hq hrows hans hunb
    (PrimalSimplex.ofMaximized q.current.sense b)
  exact ⟨x, hx, Sense.beats_iff.2 hgt⟩

/-- The greatest `x₁ ≥ 1` does not exist, and with `x₁ ≤ 0` no value is left. -/
theorem verdict_sound_ray :
    let ray : Problem ℚ :=
      { Problem.ofObjective .maximize [1] with constraints := [⟨[1], .ge, 1⟩] }
    let bound : Request ℚ := .add ⟨[1], .le, 0⟩
    let j : Journal ℚ := {}
    (∃ sol q, ((run ⟨.exact, none⟩ []).request (.solve ray) j).result = .ok sol ∧
      sol.status = .unbounded ∧ Request.posed [(.solve ray, j)] = some q ∧
      ∀ b, ∃ x, q.current.Feasible x ∧ q.current.sense.Beats (q.current.objectiveValue x) b) ∧
    ∃ sol q, ((run ⟨.exact, none⟩ [(.solve ray, j)]).request bound j).result = .ok sol ∧
      sol.status = .infeasible ∧ Request.posed [(.solve ray, j), (bound, j)] = some q ∧
      ∀ x, ¬q.current.Feasible x := by
  intro ray bound j
  have hray : ray.Indexed := Problem.Indexed.ofObjective .maximize [1]
  constructor
  · have hrun : ((run ⟨.exact, none⟩ []).request (.solve ray) j).result.toOption.map (·.status) =
        some .unbounded := by decide +kernel
    have hno : (Request.posed [(.solve ray, j)]).all fun q => q.current.NoEquality := by
      decide +kernel
    obtain ⟨sol, hsol, hunb⟩ := exists_ok_of_map hrun
    obtain ⟨q, hq, hsound⟩ := verdict_sound rfl [] (by simpa using hray) hsol
    rw [List.nil_append] at hq
    rw [hq] at hno
    exact ⟨sol, q, hsol, hunb, hq, (hsound (of_decide_eq_true hno)).2 hunb⟩
  · have hrun : ((run ⟨.exact, none⟩ [(.solve ray, j)]).request bound j).result.toOption.map
        (·.status) = some .infeasible := by decide +kernel
    have hno : (Request.posed [(.solve ray, j), (bound, j)]).all fun q => q.current.NoEquality := by
      decide +kernel
    obtain ⟨sol, hsol, hinf⟩ := exists_ok_of_map hrun
    obtain ⟨q, hq, hsound⟩ := verdict_sound rfl [(.solve ray, j)] (by simpa [bound] using hray) hsol
    rw [List.singleton_append] at hq
    rw [hq] at hno
    exact ⟨sol, q, hsol, hinf, hq, (hsound (of_decide_eq_true hno)).1 hinf⟩

end DualSimplex
end LinOpt
