import LinOpt.Method
import LinOpt.Proofs.Recording.Integer
import LinOpt.Proofs.Simplex.Dual.History

/-!
# Recording changes nothing but the steps

A caller sees the answers to its problems, the reports in the journal, and what a solver shows
besides: the counters of a search, the trace of its cuts, the packings found. One solver may solve
many problems. What it holds from earlier calls does not show in a later one (`Solver.call_eq`).

All of it is the same whether steps are recorded or not, for every sequence of problems and, with
the dual method, of added constraints (`Method.calls_of_recordSteps`): erased answers are the
answers of the silent solver, and erasure takes the steps of a solution and nothing else.
-/

namespace LinOpt

variable {α : Type} [Scalar α]

/-- The steps that an answer comes with. -/
def Answer.steps (a : Answer α) : List (Step α) :=
  match a.result with
  | .ok s => s.steps
  | .error _ => []

omit [Scalar α] in
/-- Without recorded steps there are none. -/
theorem Answer.steps_erase (a : Answer α) : a.erase.steps = [] := by
  obtain ⟨_ | s, j⟩ := a <;> rfl

/-- What a solver shows of its last call besides the answer. -/
inductive Extras (α : Type) where
  | none
  | search (stats : SearchStats)
  | cuts (trace : CuttingPlane.Trace α)
  | packings (candidates : List (Knapsack.Candidate α))

/-! ## Solvers that are used again -/

namespace Solver

/-- The method of a solver. -/
def method : Solver α → Method
  | .primal _ => .primal
  | .revised _ => .revised
  | .dual _ => .dual
  | .branchAndBound _ _ => .branchAndBound
  | .cuttingPlane _ _ => .cuttingPlane
  | .knapsack _ prune _ => .knapsack prune

/-- The configuration of a solver. -/
def config : Solver α → Config α
  | .primal c | .revised c | .branchAndBound c _ | .cuttingPlane c _ | .knapsack c _ _ => c
  | .dual d => d.config

/-- What a solver shows of its last call: what it counted, traced or found. -/
def extras : Solver α → Extras α
  | .primal _ | .revised _ | .dual _ => .none
  | .branchAndBound _ stats => .search stats
  | .cuttingPlane _ trace => .cuts trace
  | .knapsack _ _ candidates => .packings candidates

/-- A call of a solver, with what the solver shows after it. -/
def call (s : Solver α) (p : Problem α) (j : Journal α) : Call (Extras α) α :=
  ⟨(s.solve p j).toAnswer, (s.solve p j).state.extras⟩

/-- The calls of one solver for a sequence of problems: each call gets the solver and the journal
that the one before it leaves. -/
def calls : Solver α → Journal α → List (Problem α) → List (Call (Extras α) α)
  | _, _, [] => []
  | s, j, p :: ps => s.call p j :: calls (s.solve p j).state (s.solve p j).journal ps

omit [Scalar α] in
/-- A new solver has the method it is for. -/
theorem method_solver (m : Method) (c : Config α) : (m.solver c).method = m := by
  cases m <;> rfl

omit [Scalar α] in
/-- A new solver has the configuration it is given. -/
theorem config_solver (m : Method) (c : Config α) : (m.solver c).config = c := by
  cases m <;> rfl

/-- A solver keeps its method. -/
theorem method_solve (s : Solver α) (p : Problem α) (j : Journal α) :
    (s.solve p j).state.method = s.method := by cases s <;> rfl

/-- A solver keeps its configuration. -/
theorem config_solve (s : Solver α) (p : Problem α) (j : Journal α) :
    (s.solve p j).state.config = s.config := by
  cases s with
  | dual d =>
    show (d.solve p j).state.config = d.config
    unfold DualSimplex.solve
    cases Session.start d.config p j <;> rfl
  | primal | revised | branchAndBound | cuttingPlane | knapsack => rfl

end Solver

namespace Method

/-- The call of a new solver. -/
def call (m : Method) (c : Config α) (p : Problem α) (j : Journal α) : Call (Extras α) α :=
  (m.solver c).call p j

/-- The calls for a sequence of problems, all of one solver that is new at first. -/
def calls (m : Method) (c : Config α) (j : Journal α) (ps : List (Problem α)) :
    List (Call (Extras α) α) := (m.solver c).calls j ps

end Method

namespace Solver

/-- A solver that was used before answers like a new one, and shows the same after the call. What
was counted, traced or found is dropped at the start, and the dual solver builds its session anew
or refuses the problem without a look at the former one. -/
theorem call_eq (s : Solver α) (p : Problem α) (j : Journal α) :
    s.call p j = s.method.call s.config p j := by
  cases s with
  | dual d =>
    have hanswer : (d.solve p j).toAnswer = (DualSimplex.solve ⟨d.config, none⟩ p j).toAnswer := by
      unfold DualSimplex.solve
      cases Session.start d.config p j <;> rfl
    exact congrArg (fun a => (⟨a, .none⟩ : Call (Extras α) α)) hanswer
  | primal | revised | branchAndBound | cuttingPlane | knapsack => rfl

/-- Every call for a sequence of problems is the call of a new solver for one of them. -/
theorem mem_calls {s : Solver α} {j : Journal α} {ps : List (Problem α)} {call : Call (Extras α) α}
    (h : call ∈ s.calls j ps) :
    ∃ p ∈ ps, ∃ j', call = s.method.call s.config p j' := by
  induction ps generalizing s j with
  | nil => cases h
  | cons p ps ih =>
    obtain rfl | h := List.mem_cons.1 h
    · exact ⟨p, List.mem_cons_self, j, s.call_eq p j⟩
    · obtain ⟨p', hp', j', rfl⟩ := ih h
      rw [method_solve, config_solve]
      exact ⟨p', List.mem_cons_of_mem _ hp', j', rfl⟩

end Solver

/-- The calls of a method for a sequence of problems are calls of new solvers, though one solver
makes them all. -/
theorem Method.mem_calls {m : Method} {c : Config α} {j : Journal α} {ps : List (Problem α)}
    {call : Call (Extras α) α} (h : call ∈ m.calls c j ps) :
    ∃ p ∈ ps, ∃ j', call = m.call c p j' := by
  have hcall := Solver.mem_calls h
  rwa [Solver.method_solver, Solver.config_solver] at hcall

/-! ## Recording -/

namespace Solver

/-- A solver with recording switched off and without the steps it has recorded. -/
def erase : Solver α → Solver α
  | .primal c => .primal c.silent
  | .revised c => .revised c.silent
  | .dual d => .dual d.erase
  | .branchAndBound c stats => .branchAndBound c.silent stats
  | .cuttingPlane c trace => .cuttingPlane c.silent trace
  | .knapsack c prune candidates => .knapsack c.silent prune candidates

omit [Scalar α] in
/-- A new solver has recorded nothing. -/
theorem erase_solver (m : Method) (c : Config α) : (m.solver c).erase = m.solver c.silent := by
  cases m <;> rfl

omit [Scalar α] in
/-- What a solver shows of its last call has no steps. -/
theorem extras_erase (s : Solver α) : s.erase.extras = s.extras := by cases s <;> rfl

/-- Without recording every solver goes on as it does otherwise, without the steps. -/
theorem solve_erase (s : Solver α) (p : Problem α) (j : Journal α) :
    s.erase.solve p j = (s.solve p j).erase erase := by
  cases s with
  | primal c =>
    exact congrArg (fun a => (⟨a, .primal c.silent⟩ : Call (Solver α) α))
      (PrimalSimplex.solve_erase c p j)
  | revised c =>
    exact congrArg (fun a => (⟨a, .revised c.silent⟩ : Call (Solver α) α))
      (RevisedSimplex.solve_erase c p j)
  | dual d =>
    exact congrArg (fun call => (⟨call.toAnswer, .dual call.state⟩ : Call (Solver α) α))
      (d.solve_erase p j)
  | branchAndBound c stats =>
    exact congrArg
      (fun call => (⟨call.toAnswer, .branchAndBound c.silent call.state⟩ : Call (Solver α) α))
      (BranchAndBound.solve_erase c p j)
  | cuttingPlane c trace =>
    exact congrArg
      (fun call => (⟨call.toAnswer, .cuttingPlane c.silent call.state⟩ : Call (Solver α) α))
      (CuttingPlane.solve_erase c p j)
  | knapsack c prune candidates =>
    exact congrArg
      (fun call => (⟨call.toAnswer, .knapsack c.silent prune call.state⟩ : Call (Solver α) α))
      (Knapsack.solve_erase c prune p j)

/-- Nor do the calls differ, with what the solver shows after them. -/
theorem call_erase (s : Solver α) (p : Problem α) (j : Journal α) :
    s.erase.call p j = (s.call p j).erase id := by
  unfold call
  rw [solve_erase]
  exact congrArg (fun e => (⟨(s.solve p j).toAnswer.erase, e⟩ : Call (Extras α) α))
    (extras_erase (s.solve p j).state)

/-- So it does for a sequence of problems: the solvers and the journals that are handed on agree. -/
theorem calls_erase (s : Solver α) (j : Journal α) (ps : List (Problem α)) :
    s.erase.calls j ps = (s.calls j ps).map (Call.erase id) := by
  induction ps generalizing s j with
  | nil => rfl
  | cons p ps ih =>
    unfold calls
    rw [List.map_cons, ← ih, call_erase, solve_erase]
    rfl

end Solver

namespace DualSimplex

/-- The answers to a sequence of requests, each with the journal that the one before it leaves. -/
def answers (d : DualSimplex α) : Journal α → List (Request α) → List (Answer α)
  | _, [] => []
  | j, r :: rs =>
    let call := d.request r j
    call.toAnswer :: answers call.state call.journal rs

/-- The dual method answers to a request as it does otherwise, without the steps. -/
theorem request_erase (d : DualSimplex α) (r : Request α) (j : Journal α) :
    d.erase.request r j = (d.request r j).erase erase := by
  cases r with
  | solve p => exact d.solve_erase p j
  | add k => exact d.addConstraint_erase k j

/-- Without recording a solver answers as it does otherwise, without the steps. -/
theorem answers_erase (d : DualSimplex α) (j : Journal α) (rs : List (Request α)) :
    d.erase.answers j rs = (d.answers j rs).map Answer.erase := by
  induction rs generalizing d j with
  | nil => rfl
  | cons r rs ih =>
    unfold answers
    rw [List.map_cons, ← ih, request_erase]
    rfl

end DualSimplex

/-- Whether steps are recorded changes nothing but the steps: for every sequence of problems the
calls of every method agree in all else, what they leave besides included, and so do the answers of
the dual solver to every sequence of problems and additions. Without recording there are no
steps. -/
theorem Method.calls_of_recordSteps (c : Config α) (b : Bool) :
    (∀ (m : Method) (j : Journal α) (ps : List (Problem α)),
      (m.calls { c with recordSteps := b } j ps).map (Call.erase id) =
        (m.calls c j ps).map (Call.erase id)) ∧
    (∀ (j : Journal α) (rs : List (Request α)),
      (DualSimplex.answers ⟨{ c with recordSteps := b }, none⟩ j rs).map Answer.erase =
        (DualSimplex.answers ⟨c, none⟩ j rs).map Answer.erase) ∧
    (∀ (m : Method) (j : Journal α) (ps : List (Problem α)),
      ∀ call ∈ m.calls { c with recordSteps := false } j ps, call.steps = []) ∧
    ∀ (j : Journal α) (rs : List (Request α)),
      ∀ a ∈ DualSimplex.answers ⟨{ c with recordSteps := false }, none⟩ j rs, a.steps = [] := by
  have hcalls : ∀ (m : Method) (c : Config α) (j : Journal α) (ps : List (Problem α)),
      m.calls c.silent j ps = (m.calls c j ps).map (Call.erase id) := fun m c j ps => by
    unfold Method.calls
    rw [← Solver.calls_erase, Solver.erase_solver]
  have hanswers := fun c j rs => DualSimplex.answers_erase (α := α) ⟨c, none⟩ j rs
  refine ⟨fun m j ps => ?_, fun j rs => ?_, fun m j ps call hcall => ?_, fun j rs a ha => ?_⟩
  · rw [← hcalls m { c with recordSteps := b }, ← hcalls m c]
    rfl
  · rw [← hanswers { c with recordSteps := b }, ← hanswers c]
    rfl
  · rw [show { c with recordSteps := false } = c.silent from rfl, hcalls m c] at hcall
    obtain ⟨call, -, rfl⟩ := List.mem_map.1 hcall
    exact call.steps_erase
  · replace ha : a ∈ (DualSimplex.erase ⟨c, none⟩).answers j rs := ha
    rw [hanswers c] at ha
    obtain ⟨a, -, rfl⟩ := List.mem_map.1 ha
    exact a.steps_erase

end LinOpt
