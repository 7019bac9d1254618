import LinOpt.Integer.BranchAndBound
import LinOpt.Proofs.Integer.Fractional
import LinOpt.Proofs.Integer.SearchLoop
import LinOpt.Proofs.Simplex.Dual.Vertex

/-!
# Branch-and-bound finds the best integral point

What is looked for are the feasible points that are integral where the problem asks for it. A node
stands for the problem with the bounds of its path added (`Node.Stands`). Dealing with a node keeps
the incumbent attained by such a point and never makes it worse (`Search.Advances`), and once the
search has left nothing out, the incumbent is at least as good as every such point of the node
(`Search.Covers`): the points of a node are those of its children (`covers_of_children`), and an
incumbent that matches a point is only replaced by a better one.

So an optimum that is reported is attained, and without equalities it is the best value unless the
search was cut short (`solve_correct`). With equalities a relaxation may be called infeasible
although it is not, because the penalty on artificial columns is finite.
-/

namespace LinOpt

/-- The objective values at the feasible points that are integral where the problem asks for it. -/
def Problem.integerValues (p : Problem ℚ) : Set ℚ :=
  p.objectiveValue '' {x | p.IntegerFeasible p.IsInteger x}

namespace BranchAndBound

variable {c : Config ℚ} {p : Problem ℚ} {g : Goal} {s s' : Search ℚ} {added : List (Constraint ℚ)}
  {node : Node ℚ}

/-! ## Search states -/

/-- The incumbent is at least as good as a value. -/
def Search.Matches (s : Search ℚ) (sense : Sense) (v : ℚ) : Prop :=
  ∃ best, s.incumbent = some best ∧ ¬sense.Beats v best.value

/-- Nothing was left out. -/
def Search.IsComplete (s : Search ℚ) : Prop := s.limited = false ∧ s.halt = none

/-- The integral points of the problem with some constraints added are matched. -/
def Search.Covers (s : Search ℚ) (p : Problem ℚ) (added : List (Constraint ℚ)) : Prop :=
  ∀ x, (Posed.mk p added).current.IntegerFeasible p.IsInteger x →
    s.Matches p.sense (p.objectiveValue x)

/-- The incumbent is attained, and an interrupt leaves something out. -/
structure Search.Sound (s : Search ℚ) (p : Problem ℚ) : Prop where
  attained : ∀ best, s.incumbent = some best → best.value ∈ p.integerValues
  interrupted : s.halt = some .interrupted → s.limited = true

/-- A search goes on from one state to another: it stays sound, what is matched stays matched, and
what is left out stays left out. -/
structure Search.Advances (s s' : Search ℚ) (p : Problem ℚ) : Prop where
  sound : s.Sound p → s'.Sound p
  matched : ∀ v, s.Matches p.sense v → s'.Matches p.sense v
  complete : s'.IsComplete → s.IsComplete

namespace Search

/-- A search without an incumbent is sound. -/
theorem sound_start (p : Problem ℚ) (remarks : List (Message ℚ)) (journal : Journal ℚ) :
    ({ remarks, journal } : Search ℚ).Sound p :=
  ⟨fun _ hb => (nomatch hb), fun hh => (nomatch hh)⟩

/-- What is not limited was not interrupted either. -/
theorem Sound.isComplete (h : s.Sound p) (hhalt : ∀ e, s.halt ≠ some (.failed e))
    (hlimited : s.limited = false) : s.IsComplete := by
  refine ⟨hlimited, ?_⟩
  cases hh : s.halt with
  | none => rfl
  | some halt =>
    cases halt with
    | failed e => exact absurd hh (hhalt e)
    | interrupted =>
      have := (h.interrupted hh).symm.trans hlimited
      cases this

/-- A search that covers the root matches every integral point. -/
theorem Covers.matches (h : s.Covers p []) : ∀ v ∈ p.integerValues, s.Matches p.sense v := by
  rintro _ ⟨x, hx, rfl⟩
  refine h x ?_
  rwa [Posed.current_nil]

/-- A search that does nothing gets no further, and not behind either. -/
theorem Advances.refl (s : Search ℚ) (p : Problem ℚ) : s.Advances s p :=
  ⟨id, fun _ => id, id⟩

/-- What a search gains in two steps it gains in all. -/
theorem Advances.trans {s'' : Search ℚ} (h : s.Advances s' p) (h' : s'.Advances s'' p) :
    s.Advances s'' p :=
  ⟨fun hs => h'.sound (h.sound hs), fun v hv => h'.matched v (h.matched v hv),
    fun hc => h.complete (h'.complete hc)⟩

/-- A step that keeps the incumbent advances the search if it only adds to what is left out. -/
theorem Advances.of_incumbent (hbest : s'.incumbent = s.incumbent)
    (hhalt : s'.halt = some .interrupted →
      s'.limited = true ∨ s'.halt = s.halt ∧ s'.limited = s.limited)
    (hcomplete : s'.IsComplete → s.IsComplete) : s.Advances s' p := by
  refine ⟨fun hs => ⟨fun best hb => hs.attained best (hbest ▸ hb), fun hi => ?_⟩, fun v hv => ?_,
    hcomplete⟩
  · rcases hhalt hi with hl | ⟨hh, hl⟩
    · exact hl
    · rw [hl]
      exact hs.interrupted (hh ▸ hi)
  · rwa [Matches, hbest]

/-- A step that only takes notes advances the search. -/
theorem Advances.of_eq (hbest : s'.incumbent = s.incumbent) (hlimited : s'.limited = s.limited)
    (hhalt : s'.halt = s.halt) : s.Advances s' p :=
  .of_incumbent hbest (fun _ => .inr ⟨hhalt, hlimited⟩) fun ⟨hl, hh⟩ => ⟨hlimited ▸ hl, hhalt ▸ hh⟩

/-- A step that leaves something out advances the search, and there is nothing to cover. -/
theorem Advances.of_limited (hbest : s'.incumbent = s.incumbent) (hlimited : s'.limited = true) :
    s.Advances s' p ∧ ¬s'.IsComplete := by
  have hnot : ¬s'.IsComplete := fun hc => by
    have := hlimited.symm.trans hc.1
    cases this
  exact ⟨.of_incumbent hbest (fun _ => .inl hlimited) fun hc => absurd hc hnot, hnot⟩

/-- An error halts the search, and there is nothing to cover. -/
theorem Advances.of_failed (hbest : s'.incumbent = s.incumbent) {e : Error ℚ}
    (hhalt : s'.halt = some (.failed e)) : s.Advances s' p ∧ ¬s'.IsComplete := by
  have hnot : ¬s'.IsComplete := fun hc => by
    have := hhalt.symm.trans hc.2
    cases this
  refine ⟨.of_incumbent hbest (fun hi => ?_) fun hc => absurd hc hnot, hnot⟩
  rw [hhalt] at hi
  cases hi

/-- What is covered stays covered. -/
theorem Covers.advance (h : s.Covers p added) (ha : s.Advances s' p) : s'.Covers p added :=
  fun x hx => ha.matched _ (h x hx)

/-- An incumbent that no feasible point beats covers. -/
theorem covers_of_not_beats {best : Incumbent ℚ} (hbest : s.incumbent = some best)
    (h : ∀ x, (Posed.mk p added).current.Feasible x →
      ¬p.sense.Beats (p.objectiveValue x) best.value) : s.Covers p added :=
  fun x hx => ⟨best, hbest, h x hx.feasible⟩

end Search

/-! ## Branching -/

/-- An integral point lies on one side of a split variable, so it is a point of one of the
children. -/
theorem covers_of_children {i : ℕ} {v : ℚ} (hi : p.IsInteger i)
    (hdown : s.Covers p (added ++ [.bound p.numVariables i .le (Scalar.floor v)]))
    (hup : s.Covers p (added ++ [.bound p.numVariables i .ge (Scalar.ceil v)])) :
    s.Covers p added := by
  intro x hx
  have hlen : x.length = p.numVariables := hx.feasible.length_eq
  have hlhs : ∀ r b, (Constraint.bound p.numVariables i r b).lhs x = x.getD i 0 := fun r b =>
    Constraint.lhs_bound hi.1 r b hlen
  obtain ⟨n, hn⟩ := hx.integral i hi
  rcases Fractional.le_floor_or_ceil_le n v with hle | hge
  · refine hdown x ⟨Posed.feasible_add_iff (q := ⟨p, added⟩).2 ⟨hx.feasible, ?_⟩, hx.integral⟩
    show (Constraint.bound p.numVariables i .le _).lhs x ≤ _ + 0
    rw [hlhs, hn, add_zero]
    exact hle
  · refine hup x ⟨Posed.feasible_add_iff (q := ⟨p, added⟩).2 ⟨hx.feasible, ?_⟩, hx.integral⟩
    show (Constraint.bound p.numVariables i .ge _).lhs x ≥ _ - 0
    rw [hlhs, hn, sub_zero]
    exact hge

/-! ## Nodes -/

/-- Exact settings, and the goal of a problem. -/
structure Setting (c : Config ℚ) (p : Problem ℚ) (g : Goal) : Prop where
  tolerance_eq : c.tolerance = 0
  integralityTolerance_eq : c.integralityTolerance = 0
  indexed : p.Indexed
  numVariables_eq : g.numVariables = p.numVariables
  sense_eq : g.sense = p.sense
  mem_integers : ∀ i, i ∈ g.integers ↔ p.IsInteger i

/-- A node stands for the problem with the bounds of its path added, and its solution says what its
session shows. -/
structure Node.Stands (node : Node ℚ) (c : Config ℚ) (p : Problem ℚ) (added : List (Constraint ℚ)) :
    Prop where
  represents : node.session.model.Represents c.bigM ⟨p, added⟩
  answers : node.session.model.Answers node.solution
  relation_ne_eq : ∀ k ∈ added, k.relation ≠ .eq

/-- At exact arithmetic a value improves on another if it beats it. -/
theorem improves_iff (ht : c.tolerance = 0) {sense : Sense} {v w : ℚ} :
    improves c sense v w ↔ sense.Beats v w := by
  cases sense <;> simp [improves, ht, Sense.Beats]

/-- The goal of a problem is that of its setting. -/
theorem setting_goal (ht : c.tolerance = 0) (hi : c.integralityTolerance = 0) (hp : p.Indexed) :
    Setting c p (goal p).1 := by
  have hmem : ∀ i, _ ↔ p.IsInteger i := fun i => Problem.mem_integers_iff hp (i := i)
  unfold goal
  dsimp only
  split_ifs at hmem ⊢
  · exact ⟨ht, hi, hp, rfl, rfl, hmem⟩
  · exact ⟨ht, hi, hp, rfl, rfl, hmem⟩

/-- The values that an optimal node reports. -/
theorem Node.Stands.decisionValues_eq (h : node.Stands c p added) (hs : Setting c p g)
    (hopt : node.solution.status = .optimal) :
    node.solution.decisionValues g.numVariables = node.session.model.variableValues 0 := by
  have hn : node.session.model.columns.numVariables = g.numVariables := by
    rw [h.represents.columns_eq, hs.numVariables_eq]
    exact List.length_map _
  obtain ⟨-, -, -, hvalues, -⟩ := h.answers.of_optimal hopt
  rw [← hn, Model.decisionValues_eq hvalues]

/-- The variable that a node is split at is to be integral. -/
theorem isInteger_of_pick (hs : Setting c p g) {sol : Solution ℚ} {at_ : Fractional.Candidate ℚ}
    (h : pick c g sol = some at_) : p.IsInteger at_.index := by
  obtain ⟨hmem, -⟩ := Fractional.most_eq_some h
  obtain ⟨i, hi, rfl⟩ := List.mem_map.1 hmem
  exact (hs.mem_integers i).1 hi

/-- The optimum of a node whose values are integral is attained by an integral point. -/
theorem Node.Stands.value_mem (h : node.Stands c p added) (hs : Setting c p g)
    (hopt : node.solution.status = .optimal) (hpick : pick c g node.solution = none) {v : ℚ}
    (hv : node.solution.optimalValue = some v) : v ∈ p.integerValues := by
  have hread := h.decisionValues_eq hs hopt
  have hint : ∀ i, p.IsInteger i → ∃ n : ℤ, (node.session.model.variableValues 0).getD i 0 = n := by
    intro i hi
    have hall := Fractional.most_eq_none_iff.1 hpick _
      (List.mem_map_of_mem ((hs.mem_integers i).2 hi))
    rw [hs.integralityTolerance_eq, Fractional.isIntegral_zero_iff, hread] at hall
    exact hall
  obtain ⟨hshows, hart, hvalue, -⟩ := h.answers.of_optimal hopt
  have hrep := h.represents
  obtain ⟨y, hy, hz, hvertex⟩ := hrep.exists_vertex hshows hart
  have hfeas := Posed.feasible_point hs.indexed hrep.columns_eq hrep.aux_eq hy
  refine ⟨_, ⟨Posed.feasible_problem hfeas, fun i hi => ?_⟩, ?_⟩
  · rcases hvertex i with h0 | hi'
    · exact ⟨0, by rw [h0, Int.cast_zero]⟩
    · rw [hi']
      exact hint i hi
  · rw [hv, hrep.problem_eq, ← hz,
      Posed.penalized_region hrep.columns_eq hrep.aux_eq c.bigM hy.2.2] at hvalue
    rw [Option.some.inj hvalue]
    exact (Sense.ofMaximized_ofMaximized _ _).symm

/-- What an optimal node shows is not beaten by its feasible points. -/
theorem Node.Stands.not_beats (h : node.Stands c p added) (hs : Setting c p g)
    (hopt : node.solution.status = .optimal) : ∃ v, node.solution.optimalValue = some v ∧
      ∀ x, (Posed.mk p added).current.Feasible x → ¬p.sense.Beats (p.objectiveValue x) v := by
  obtain ⟨v, hv, hbest⟩ := h.represents.isBest hs.indexed h.answers hopt
  exact ⟨v, hv, fun x hx => (Sense.isBest_iff_not_beats.1 hbest).2 _ ⟨x, hx, rfl⟩⟩

/-- A child stands for the problem with one bound more. -/
theorem Node.Stands.child (h : node.Stands c p added) (hs : Setting c p g) {k : Constraint ℚ}
    (hk : k.relation ≠ .eq) {j : Journal ℚ} {sol : Solution ℚ}
    (hsol : (node.session.addConstraint c k j).result = .ok sol) (path : BranchPath) :
    Node.Stands ⟨(node.session.addConstraint c k j).state, sol, path⟩ c p (added ++ [k]) := by
  obtain ⟨-, hrep, hans⟩ | ⟨-, -, e, hresult⟩ :=
    Session.addConstraint_spec hs.tolerance_eq h.represents k j
  · refine ⟨hrep, hans sol hsol, fun k' hk' => ?_⟩
    rcases List.mem_append.1 hk' with hk' | hk'
    · exact h.relation_ne_eq k' hk'
    · rw [List.mem_singleton.1 hk']
      exact hk
  · cases hresult.symm.trans hsol

/-! ## Visits -/

/-- The state after a visit, with the children that are left to search: a node without children is
covered unless something was left out, and otherwise the children are those of a split. -/
inductive Visited (c : Config ℚ) (p : Problem ℚ) (added : List (Constraint ℚ)) (s : Search ℚ) :
    Option (Node ℚ × Node ℚ) → Prop
  | closed (hcovers : p.NoEquality → s.IsComplete → s.Covers p added) : Visited c p added s none
  | branched {i : ℕ} {v : ℚ} {down up : Node ℚ} (hi : p.IsInteger i)
      (hdown : down.Stands c p (added ++ [.bound p.numVariables i .le (Scalar.floor v)]))
      (hup : up.Stands c p (added ++ [.bound p.numVariables i .ge (Scalar.ceil v)])) :
      Visited c p added s (some (down, up))

/-- A search that leaves a node out need not cover it. -/
theorem Visited.of_left_out (h : s.Advances s' p ∧ ¬s'.IsComplete) :
    s.Advances s' p ∧ Visited c p added s' none :=
  ⟨h.1, .closed fun _ hc => absurd hc h.2⟩

/-- A split halts the search or gives two children. -/
theorem split_spec (hs : Setting c p g) (h : node.Stands c p added) {at_ : Fractional.Candidate ℚ}
    (hi : p.IsInteger at_.index) (s : Search ℚ) :
    s.Advances (split c g node at_ s).1 p ∧
      Visited c p added (split c g node at_ s).1 (split c g node at_ s).2 := by
  unfold split
  dsimp only
  rw [hs.numVariables_eq]
  cases hdown : (node.session.addConstraint c _ s.journal).result with
  | error e => exact Visited.of_left_out (Search.Advances.of_failed rfl rfl)
  | ok downSolution =>
    dsimp only
    generalize (node.session.addConstraint c _ s.journal).journal = j
    cases hup : (node.session.addConstraint c _ j).result with
    | error e => exact Visited.of_left_out (Search.Advances.of_failed rfl rfl)
    | ok upSolution =>
      exact ⟨.of_eq rfl rfl rfl, .branched hi (h.child hs Relation.noConfusion hdown _)
        (h.child hs Relation.noConfusion hup _)⟩

/-- A node that can beat the incumbent becomes the incumbent or is split. -/
theorem open_spec (hs : Setting c p g) (h : node.Stands c p added)
    (hopt : node.solution.status = .optimal) {v : ℚ} (hv : node.solution.optimalValue = some v)
    (hbeats : ∀ best, s.incumbent = some best → p.sense.Beats v best.value) :
    s.Advances (visit.open_ c g node s v).1 p ∧
      Visited c p added (visit.open_ c g node s v).1 (visit.open_ c g node s v).2 := by
  unfold visit.open_
  cases hpick : pick c g node.solution with
  | some at_ =>
    obtain ⟨hadv, hvisited⟩ := split_spec hs h (isInteger_of_pick hs hpick)
      (s.note node.path (.branching v at_.index at_.value))
    have hnote : s.Advances (s.note node.path (.branching v at_.index at_.value)) p :=
      .of_eq rfl rfl rfl
    exact ⟨hnote.trans hadv, hvisited⟩
  | none =>
    have hbetter : s.improvedBy c g.sense v = true := by
      unfold Search.improvedBy
      cases hbest : s.incumbent with
      | none => rfl
      | some best =>
        rw [hs.sense_eq]
        exact (improves_iff hs.tolerance_eq).2 (hbeats best hbest)
    dsimp only
    rw [hbetter]
    have hbest : (s.takeIntegral c node v true).incumbent = some ⟨v, node.solution, node.path⟩ :=
      rfl
    obtain ⟨w, hw, hnot⟩ := h.not_beats hs hopt
    obtain rfl : v = w := Option.some.inj (hv.symm.trans hw)
    refine ⟨⟨fun hsound => ⟨fun best hb => ?_, hsound.interrupted⟩, fun w hw => ?_, id⟩,
      .closed fun _ _ => Search.covers_of_not_beats hbest hnot⟩
    · obtain rfl := Option.some.inj (hbest.symm.trans hb)
      exact h.value_mem hs hopt hpick hv
    · obtain ⟨best, hb, hnot⟩ := hw
      exact ⟨_, hbest, Sense.not_beats_trans hnot (hbeats best hb).not_beats⟩

/-- A visit deals with a node or leaves it to its children. Without equalities a node below a
bounded problem is not unbounded, and it is called infeasible only if it is. -/
theorem visit_spec (hs : Setting c p g) {b : ℚ}
    (hbound : ∀ x, p.Feasible x → PrimalSimplex.ofMaximized p.sense (p.objectiveValue x) ≤ b)
    (h : node.Stands c p added) (s : Search ℚ) :
    s.Advances (visit c g node s).1 p ∧
      Visited c p added (visit c g node s).1 (visit c g node s).2 := by
  have hrows : p.NoEquality → ∀ k ∈ (Posed.mk p added).rows, k.relation ≠ .eq := fun hp =>
    Posed.relation_ne_eq hp h.relation_ne_eq
  have hinfeasible : node.solution.status = .infeasible → s.Advances (visit c g node s).1 p ∧
      Visited c p added (visit c g node s).1 (visit c g node s).2 := by
    intro hstatus
    unfold visit
    rw [hstatus]
    exact ⟨.of_eq rfl rfl rfl, .closed fun hp _ x hx => absurd hx.feasible
      (h.represents.not_feasible hs.indexed (hrows hp) h.answers hstatus x)⟩
  cases h.answers with
  | optimal hstatus =>
    obtain ⟨v, hv, hnot⟩ := h.not_beats hs hstatus
    unfold visit
    rw [hstatus, hv]
    dsimp only
    cases hbest : s.incumbent with
    | none => exact open_spec hs h hstatus hv fun best hb => by rw [hbest] at hb; cases hb
    | some best =>
      dsimp only
      split_ifs with himp
      · rw [hs.sense_eq, improves_iff hs.tolerance_eq] at himp
        refine open_spec hs h hstatus hv fun best' hb => ?_
        obtain rfl := Option.some.inj (hbest.symm.trans hb)
        exact himp
      · rw [hs.sense_eq, improves_iff hs.tolerance_eq] at himp
        exact ⟨.of_eq rfl rfl rfl, .closed fun _ _ => Search.covers_of_not_beats hbest fun x hx =>
          Sense.not_beats_trans (hnot x hx) himp⟩
  | infeasible hstatus => exact hinfeasible hstatus
  | artificial hstatus => exact hinfeasible hstatus
  | unbounded hstatus =>
    unfold visit
    rw [hstatus]
    refine ⟨.of_eq rfl (by simp [Search.abandon, Search.remark, Search.count]) rfl,
      .closed fun hp _ => ?_⟩
    obtain ⟨x, hx, hgt⟩ := h.represents.exists_feasible_gt hs.indexed (hrows hp) h.answers hstatus b
    exact absurd (hbound x (Posed.feasible_problem hx)) (not_le.2 hgt)
  | stopped hstatus =>
    unfold visit
    rw [hstatus]
    exact Visited.of_left_out (Search.Advances.of_limited rfl (by simp [Search.abandon]))

/-! ## The search -/

/-- A node is dealt with: the search advances, and it covers the node if nothing was left out. -/
structure Search.Explores (s s' : Search ℚ) (p : Problem ℚ) (added : List (Constraint ℚ)) :
    Prop where
  advances : s.Advances s' p
  covers : p.NoEquality → s'.IsComplete → s'.Covers p added

namespace Search

/-- A search that was halted has left something out. -/
theorem Explores.of_halted (h : s.halt.isSome) : s.Explores s p added := by
  refine ⟨.refl s p, fun _ hc => ?_⟩
  rw [hc.2] at h
  cases h

/-- A search that leaves a part of the tree out owes nothing for it, as it is not complete. -/
theorem Explores.of_left_out (h : s.Advances s' p ∧ ¬s'.IsComplete) : s.Explores s' p added :=
  ⟨h.1, fun _ hc => absurd hc h.2⟩

/-- A node is dealt with if its children are, one after the other. -/
theorem Explores.of_children {s₁ s₂ : Search ℚ} {i : ℕ} {v : ℚ} (hi : p.IsInteger i)
    (h : s.Advances s₁ p)
    (hdown : s₁.Explores s₂ p (added ++ [.bound p.numVariables i .le (Scalar.floor v)]))
    (hup : s₂.Explores s' p (added ++ [.bound p.numVariables i .ge (Scalar.ceil v)])) :
    s.Explores s' p added := by
  refine ⟨h.trans (hdown.advances.trans hup.advances), fun hp hc => ?_⟩
  have hcovers := hdown.covers hp (hup.advances.complete hc)
  exact covers_of_children hi (hcovers.advance hup.advances) (hup.covers hp hc)

end Search

/-- The search below a node deals with the node, by induction on the depth left. -/
theorem explore_spec (hs : Setting c p g) {b : ℚ}
    (hbound : ∀ x, p.Feasible x → PrimalSimplex.ofMaximized p.sense (p.objectiveValue x) ≤ b)
    (left waiting : ℕ) (h : node.Stands c p added) (s : Search ℚ) :
    s.Explores (explore c g left waiting node s) p added := by
  induction left generalizing waiting node added s with
  | zero =>
    unfold explore
    dsimp only
    split_ifs with hhalt
    · exact .of_halted hhalt
    · exact .of_left_out (Search.Advances.of_limited rfl rfl)
    · exact .of_left_out (Search.Advances.of_limited rfl rfl)
  | succ left ih =>
    unfold explore
    dsimp only
    split_ifs with hhalt
    · exact .of_halted hhalt
    · exact .of_left_out (Search.Advances.of_limited rfl rfl)
    · have hstart : s.Advances (({ s with journal := (c.ask s.journal).2 } : Search ℚ).count
          fun n => { n with nodesExplored := n.nodesExplored + 1 }) p := .of_eq rfl rfl rfl
      generalize Search.count _ _ = s₀ at hstart ⊢
      obtain ⟨hadv, hvisited⟩ := visit_spec hs hbound h s₀
      generalize visit c g node s₀ = visited at hadv hvisited ⊢
      obtain ⟨s₁, children⟩ := visited
      cases hvisited with
      | closed hcovers => exact ⟨hstart.trans hadv, hcovers⟩
      | branched hi hdown hup =>
        exact .of_children hi (hstart.trans hadv) (ih _ hdown _) (ih _ hup _)

/-! ## Answers -/

/-- A search that was not halted by an error concludes with the value of its incumbent, and a
message if something was left out, or with the verdict that there is none. -/
theorem conclude_spec (c : Config ℚ) (g : Goal) (s : Search ℚ) {sol : Solution ℚ}
    (h : (conclude c g s).result = .ok sol) : (∀ e, s.halt ≠ some (.failed e)) ∧
      match s.incumbent with
      | some best => sol.status = .optimal ∧ sol.optimalValue = some best.value ∧
          (s.limited = true → .searchIncomplete ∈ sol.messages)
      | none => sol.status = if s.limited then .limitReached else .infeasible := by
  unfold conclude at h
  split at h
  · cases h
  · rename_i hhalt
    refine ⟨hhalt, ?_⟩
    obtain rfl := Except.ok.inj h
    rw [foldl_record_node]
    dsimp only [outcome, Search.emit, Search.remark, Solution.logAll]
    cases s.incumbent with
    | some best => exact ⟨rfl, rfl, fun hlimited => by simp [hlimited]⟩
    | none => rfl

/-- What is concluded from the search below the root. -/
theorem conclude_best (hs : Setting c p g) (h : node.Stands c p [])
    (hopt : node.solution.status = .optimal) {levels waiting : ℕ} {s : Search ℚ}
    (hsound : s.Sound p) {sol : Solution ℚ}
    (hsol : (conclude c g (explore c g levels waiting node s)).result = .ok sol) :
    (sol.status = .optimal → ∃ v, sol.optimalValue = some v ∧ v ∈ p.integerValues ∧
      (p.NoEquality → .searchIncomplete ∉ sol.messages → p.sense.IsBest p.integerValues v)) ∧
    (sol.status = .infeasible → p.NoEquality → p.integerValues = ∅) := by
  obtain ⟨b, hbound⟩ : ∃ b, ∀ x, p.Feasible x →
      PrimalSimplex.ofMaximized p.sense (p.objectiveValue x) ≤ b := by
    obtain ⟨v, -, hnot⟩ := h.not_beats hs hopt
    refine ⟨PrimalSimplex.ofMaximized p.sense v, fun x hx => ?_⟩
    have := hnot x (by rwa [Posed.current_nil])
    rwa [Sense.beats_iff, not_lt] at this
  have hspec := explore_spec hs hbound levels waiting h s
  generalize explore c g levels waiting node s = s' at hspec hsol
  have hsound := hspec.advances.sound hsound
  obtain ⟨hhalt, hout⟩ := conclude_spec c g s' hsol
  have hcovers : p.NoEquality → s'.limited = false →
      ∀ w ∈ p.integerValues, s'.Matches p.sense w := fun hne hlimited =>
    (hspec.covers hne (hsound.isComplete hhalt hlimited)).matches
  cases hbest : s'.incumbent with
  | some best =>
    rw [hbest] at hout
    obtain ⟨hstatus, hvalue, hmessage⟩ := hout
    refine ⟨fun _ => ⟨best.value, hvalue, hsound.attained best hbest, fun hne hmsg => ?_⟩,
      fun hinf => (nomatch hstatus.symm.trans hinf)⟩
    have hlimited : s'.limited = false := Bool.eq_false_iff.2 fun hl => hmsg (hmessage hl)
    refine Sense.isBest_iff_not_beats.2 ⟨hsound.attained best hbest, fun w hw => ?_⟩
    obtain ⟨best', hbest', hnot⟩ := hcovers hne hlimited w hw
    rw [Option.some.inj (hbest.symm.trans hbest')]
    exact hnot
  | none =>
    rw [hbest] at hout
    cases hlimited : s'.limited with
    | true =>
      have hout : sol.status = .limitReached := by rw [hout, hlimited]; rfl
      exact ⟨fun hopt => (nomatch hout.symm.trans hopt),
        fun hinf => (nomatch hout.symm.trans hinf)⟩
    | false =>
      have hout : sol.status = .infeasible := by rw [hout, hlimited]; rfl
      refine ⟨fun hopt => (nomatch hout.symm.trans hopt), fun _ hne => ?_⟩
      refine Set.eq_empty_iff_forall_notMem.2 fun w hw => ?_
      obtain ⟨best, hb, -⟩ := hcovers hne hlimited w hw
      cases hbest.symm.trans hb

/-- An optimum of branch-and-bound is attained by an integral point. Without equalities it is the
best value unless the search is called incomplete, and a problem that is called infeasible has no
integral point. -/
theorem solve_correct (ht : c.tolerance = 0) (hi : c.integralityTolerance = 0) (hp : p.Indexed)
    (j : Journal ℚ) {sol : Solution ℚ} (h : (solve c p j).result = .ok sol) :
    (sol.status = .optimal → ∃ v, sol.optimalValue = some v ∧ v ∈ p.integerValues ∧
      (p.NoEquality → .searchIncomplete ∉ sol.messages → p.sense.IsBest p.integerValues v)) ∧
    (sol.status = .infeasible → p.NoEquality → p.integerValues = ∅) := by
  unfold solve solveFrom at h
  cases hstart : Session.start c p j with
  | error e =>
    rw [hstart] at h
    cases h
  | ok started =>
    obtain ⟨session, j'⟩ := started
    rw [hstart] at h
    dsimp only at h
    obtain ⟨hrep, hans⟩ := Session.optimize_represents ht (Session.start_represents hstart) j'
    cases hroot : (session.optimize c j').result with
    | error e =>
      rw [hroot] at h
      cases h
    | ok relaxation =>
      have hans := hans relaxation hroot
      have hnode : Node.Stands ⟨(session.optimize c j').state, relaxation, .root⟩ c p [] :=
        ⟨hrep, hans, fun k hk => (nomatch hk)⟩
      rw [hroot] at h
      dsimp only at h
      cases hstatus : relaxation.status with
      | optimal =>
        rw [hstatus] at h
        have hs := setting_goal ht hi hp
        exact conclude_best hs hnode hstatus (Search.sound_start p _ _) h
      | infeasible =>
        rw [hstatus] at h
        obtain rfl := Except.ok.inj h
        refine ⟨fun hopt => (nomatch hopt), fun _ hne => ?_⟩
        refine Set.eq_empty_iff_forall_notMem.2 ?_
        rintro _ ⟨x, hx, rfl⟩
        refine hrep.not_feasible hp (Posed.relation_ne_eq hne hnode.relation_ne_eq) hans hstatus
          x ?_
        rw [Posed.current_nil]
        exact hx.feasible
      | unbounded =>
        rw [hstatus] at h
        obtain rfl := Except.ok.inj h
        have hlog : (relaxation.log .relaxationUnbounded).status = .unbounded := hstatus
        exact ⟨fun hopt => (nomatch hlog.symm.trans hopt),
          fun hinf => (nomatch hlog.symm.trans hinf)⟩
      | notSolved | limitReached =>
        rw [hstatus] at h
        obtain rfl := Except.ok.inj h
        exact ⟨fun hopt => (nomatch hopt), fun hinf => (nomatch hinf)⟩

/-- Two products from two materials, `2 x₁ + 3 x₂` with `2 x₁ + 4 x₂ ≤ 7` and `4 x₁ + 2 x₂ ≤ 9`: the
relaxation has optimum `37 / 6`, and the best integral point is `(1, 1)`. -/
theorem solve_correct_products :
    let products : Problem ℚ :=
      { Problem.ofObjective .maximize [2, 3] with
        constraints := [⟨[2, 4], .le, 7⟩, ⟨[4, 2], .le, 9⟩] }
    ∃ sol, (solve .exact products {}).result = .ok sol ∧ sol.status = .optimal ∧
      sol.optimalValue = some 5 ∧ products.sense.IsBest products.integerValues 5 := by
  intro products
  have hrun : (solve .exact products {}).result.toOption.map (fun s => (s.status, s.optimalValue,
      s.messages.all fun m => match m with | .searchIncomplete => false | _ => true)) =
      some (.optimal, some 5, true) := by decide +kernel
  have hindexed : products.Indexed := Problem.Indexed.ofObjective .maximize [2, 3]
  cases hsol : (solve .exact products {}).result with
  | error e => rw [hsol] at hrun; cases hrun
  | ok sol =>
    rw [hsol] at hrun
    obtain ⟨hopt, hrest⟩ := Prod.mk.inj (Option.some.inj hrun)
    obtain ⟨hvalue, hmessages⟩ := Prod.mk.inj hrest
    have hcomplete : .searchIncomplete ∉ sol.messages := fun hmem =>
      Bool.false_ne_true (List.all_eq_true.1 hmessages _ hmem)
    obtain ⟨v, hv, -, hbest⟩ := (solve_correct rfl rfl hindexed {} hsol).1 hopt
    obtain rfl : v = 5 := Option.some.inj (hv.symm.trans hvalue)
    exact ⟨sol, rfl, hopt, hvalue, hbest (by decide) hcomplete⟩

end BranchAndBound
end LinOpt
