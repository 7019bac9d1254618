import LinOpt.Proofs.Simplex.Dual.History
import LinOpt.Proofs.Simplex.Primal

/-!
# The parts of a model

A model keeps a problem, a column map, a tableau, a list of auxiliary columns and counters of them
side by side, and they have to line up: a row of the tableau for every auxiliary column, an
auxiliary column for every constraint, bound and addition, and counters that count them
(`Model.Aligned`). Building a model lines them up (`Model.aligned_build`), and planned pivots and
additions keep them so (`Model.Aligned.pivot`, `Model.Aligned.extend`). None of this takes anything
of the scalars for granted, so it holds of rounded and undefined values as well.

An invariant of models that says as much of the problem and the columns is carried through a history
of requests once and for all (`DualSimplex.Holds.run`). So after any history the parts of the model
line up, and an optimum names every variable and every auxiliary column once
(`DualSimplex.run_linedUp`).
-/

namespace LinOpt

variable {α : Type} [Scalar α]

/-! ## Lining up -/

/-- The parts of a model line up with the rows of a problem. -/
structure Model.Aligned (m : Model α) (q : Posed α) : Prop where
  problem_eq : m.problem = q.current
  columns_eq : m.columns = .ofProblem q.problem
  aux_eq : m.aux = AuxColumn.ofRows q.rows
  counted : m.Counted
  rectangular : m.tableau.Rectangular
  numRows_eq : m.tableau.numRows = m.aux.length + 1
  numCols_eq : m.tableau.numCols = m.numDecisions + m.aux.length + 1

/-- A tableau of `r` rows and `n` columns. -/
structure Tableau.HasSize (t : Tableau α) (r n : ℕ) : Prop where
  rectangular : t.Rectangular
  numRows_eq : t.numRows = r
  numCols_eq : t.numCols = n

namespace Tableau.HasSize

variable {t : Tableau α} {r n : ℕ}

/-- A pivot keeps the size. -/
theorem eliminate (h : t.HasSize r n) {row : ℕ} (hrow : row < t.numRows) (col : ℕ) :
    (t.eliminate row col).HasSize r n := by
  obtain ⟨hrect, hcols⟩ := h.rectangular.eliminate hrow col
  exact ⟨hrect, (numRows_eliminate _ _ _).trans h.numRows_eq, hcols.trans h.numCols_eq⟩

/-- A penalty keeps the size. -/
theorem penalize (h : t.HasSize r n) {row : ℕ} (hrow : row < t.numRows) (col : ℕ) (bigM : α) :
    (t.penalize row col bigM).HasSize r n := by
  obtain ⟨hrect, hcols⟩ := h.rectangular.penalize (c := col) hrow bigM
  exact ⟨hrect, (numRows_penalize _ _ _ _).trans h.numRows_eq, hcols.trans h.numCols_eq⟩

/-- Subtracting a multiple of a row keeps the size. -/
theorem subtractRow (h : t.HasSize r n) (target : ℕ) {source : ℕ} (hsource : source < t.numRows)
    (factor : α) : (t.subtractRow target source factor).HasSize r n := by
  obtain ⟨hrect, hcols⟩ := h.rectangular.subtractRow target hsource factor
  exact ⟨hrect, (numRows_subtractRow _ _ _ _).trans h.numRows_eq, hcols.trans h.numCols_eq⟩

/-- Negating a row keeps the size. -/
theorem negateRow (h : t.HasSize r n) (row : ℕ) : (t.negateRow row).HasSize r n := by
  obtain ⟨hrect, hcols⟩ := h.rectangular.negateRow row
  exact ⟨hrect, (numRows_negateRow _ _).trans h.numRows_eq, hcols.trans h.numCols_eq⟩

/-- A column and a row more. -/
theorem grow (h : t.HasSize r n) {entries : List α} (hentries : entries.length = n + 1) :
    (t.insertColumn.appendRow entries).HasSize (r + 1) (n + 1) := by
  obtain ⟨hrect, hcols⟩ := h.rectangular.insertColumn
  rw [h.numCols_eq] at hcols
  refine ⟨hrect.appendRow (hentries.trans hcols.symm), ?_, hcols⟩
  rw [numRows_appendRow, numRows_insertColumn, h.numRows_eq]

/-- Clearing the new row takes multiples of rows of the tableau. -/
theorem clearBasics (h : t.HasSize r n) (tolerance : α) (row : ℕ) {basics : List (Option ℕ)}
    (hbasics : ∀ b, some b ∈ basics → b < r) :
    (Model.clearBasics tolerance row basics t).HasSize r n := by
  refine List.foldlRecOn _ _ (motive := fun t : Tableau α => t.HasSize r n) h fun t ht e he => ?_
  obtain ⟨basic, col⟩ := e
  cases basic with
  | none => exact ht
  | some b =>
    dsimp only
    split_ifs
    · refine ht.subtractRow row ?_ _
      rw [ht.numRows_eq]
      exact hbasics b (List.fst_mem_of_mem_zipIdx he)
    · exact ht

/-- Penalties on artificial columns leave the size. -/
theorem penalties (h : t.HasSize r n) (bigM : α) (decisions : ℕ) {aux : List (AuxColumn × ℕ)}
    (haux : ∀ e ∈ aux, e.2 + 1 < r) :
    (aux.foldl (fun t e => if e.1.kind = .artificial
      then t.penalize (e.2 + 1) (decisions + e.2) bigM else t) t).HasSize r n := by
  refine List.foldlRecOn _ _ (motive := fun t : Tableau α => t.HasSize r n) h fun t ht e he => ?_
  split_ifs
  · refine ht.penalize ?_ _ _
    rw [ht.numRows_eq]
    exact haux e he
  · exact ht

end Tableau.HasSize

namespace Model

variable {m : Model α} {q : Posed α}

/-- The tableau has a row for every auxiliary column and the objective, and a column for every name
and the right-hand sides. -/
theorem Aligned.hasSize (h : m.Aligned q) :
    m.tableau.HasSize (m.aux.length + 1) (m.numDecisions + m.aux.length + 1) :=
  ⟨h.rectangular, h.numRows_eq, h.numCols_eq⟩

/-- A tableau of the same size lines up as well. -/
theorem Aligned.of_hasSize (h : m.Aligned q) {t : Tableau α}
    (ht : t.HasSize (m.aux.length + 1) (m.numDecisions + m.aux.length + 1)) :
    ({ m with tableau := t } : Model α).Aligned q :=
  ⟨h.problem_eq, h.columns_eq, h.aux_eq, h.counted, ht.rectangular, ht.numRows_eq, ht.numCols_eq⟩

/-- As many coefficients are taken as there are variables in the problem. -/
theorem Aligned.numVariables_eq (h : m.Aligned q) :
    m.columns.numVariables = q.problem.numVariables := by
  rw [h.columns_eq]
  exact List.length_map _

/-- A plain tableau has a column for every row beside those of the standard form. -/
theorem hasSize_plainTableau {f : StandardForm α} {n : ℕ} (hobj : f.objective.length = n)
    (hrows : ∀ r ∈ f.rows, r.coefficients.length = n) :
    (plainTableau f).HasSize (f.rows.length + 1) (n + f.rows.length + 1) := by
  have hrect := rectangular_plainTableau hobj hrows
  refine ⟨hrect, congrArg (· + 1) (List.length_mapIdx ..), ?_⟩
  rw [← hrect.rhsCol_succ, rhsCol_plainTableau hobj]

/-- The parts of a model line up when it is built. -/
theorem aligned_build {bigM : α} {p : Problem α} (h : build bigM p = .ok m) :
    m.Aligned ⟨p, []⟩ := by
  rw [build_eq] at h
  cases hf : StandardForm.ofProblem p with
  | error e => rw [hf] at h; cases h
  | ok f =>
    rw [hf] at h
    obtain ⟨hcol, -, hobj, hrows⟩ := StandardForm.ofProblem_eq_ok hf
    have hposed : (⟨p, []⟩ : Posed α).rows = p.constraints ++ p.binaryBounds := List.append_nil _
    have haux : AuxColumn.ofRows f.rows = AuxColumn.ofRows (⟨p, []⟩ : Posed α).rows := by
      rw [hrows, ofRows_map_spreadRow, hposed]
    have hlen : f.objective.length = f.columns.numColumns := by
      rw [hobj]
      exact ColumnMap.length_spreadAll _ _
    have hplain := hasSize_plainTableau hlen fun r hr => by
      rw [hrows] at hr
      obtain ⟨row, -, rfl⟩ := List.mem_map.1 hr
      exact ColumnMap.length_spreadRow _ _
    have hbelow : ∀ e ∈ (AuxColumn.ofRows f.rows).zipIdx, e.2 + 1 < f.rows.length + 1 := by
      intro e he
      have hlt := List.snd_lt_of_mem_zipIdx he
      rw [AuxColumn.length_ofRows] at hlt
      omega
    have hsize := hplain.penalties bigM f.columns.numColumns hbelow
    obtain rfl := Except.ok.inj h
    refine ⟨(Posed.current_nil p).symm, hcol, haux, rfl, hsize.rectangular, ?_, ?_⟩
    · rw [AuxColumn.length_ofRows]
      exact hsize.numRows_eq
    · rw [AuxColumn.length_ofRows]
      exact hsize.numCols_eq

/-- Planned pivots leave the size of the tableau. -/
theorem Aligned.pivot (h : m.Aligned q) {tolerance : α} {phase : Phase} {row col : ℕ}
    {t : Tableau α} (hplan : m.plan tolerance phase m.tableau = .pivot row col)
    (hpivot : m.tableau.pivot row col tolerance = .ok t) :
    ({ m with tableau := t } : Model α).Aligned q := by
  obtain ⟨-, rfl⟩ := Tableau.pivot_eq_ok_abs hpivot
  exact h.of_hasSize (h.hasSize.eliminate (row_range_of_plan hplan).2 col)

/-- A constraint comes to the tableau with one row and one column. -/
theorem Aligned.extendTableau (h : m.Aligned q) (c : Config α) (k : Constraint α) :
    (m.extendTableau c (m.columns.spreadRow k)).HasSize (m.aux.length + 2)
      (m.numDecisions + m.aux.length + 2) := by
  have hlen : (m.columns.spreadRow k).coefficients.length = m.numDecisions :=
    ColumnMap.length_spreadRow _ _
  have hentries : ((m.columns.spreadRow k).coefficients.map
      ((m.columns.spreadRow k).rowSign * ·) ++ List.replicate m.aux.length 0 ++
        [1, (m.columns.spreadRow k).rowSign * k.rhs]).length =
          m.numDecisions + m.aux.length + 1 + 1 := by simp [hlen, Nat.add_assoc]
  have hbasics : ∀ b, some b ∈ (List.range m.numDecisions).map
      (m.tableau.basicRow · c.tolerance) → b < m.aux.length + 2 := by
    intro b hb
    obtain ⟨j, -, hj⟩ := List.mem_map.1 hb
    have hlt := (Tableau.basicRow_range hj).2
    rw [h.numRows_eq] at hlt
    exact Nat.lt_succ_of_lt hlt
  have hcleared := (h.hasSize.grow hentries).clearBasics c.tolerance m.tableau.numRows hbasics
  have hrow : ∀ {t : Tableau α}, t.HasSize (m.aux.length + 2) (m.numDecisions + m.aux.length + 2) →
      m.tableau.numRows < t.numRows := by
    intro t ht
    rw [ht.numRows_eq, h.numRows_eq]
    exact Nat.lt_succ_self _
  unfold Model.extendTableau
  dsimp only
  split_ifs
  · exact (hcleared.negateRow _).penalize (hrow (hcleared.negateRow _)) _ _
  · exact hcleared.penalize (hrow hcleared) _ _
  · exact hcleared.negateRow _
  · exact hcleared

/-- A constraint that a model takes lines up with the others. -/
theorem Aligned.extend (h : m.Aligned q) {m' : Model α} {c : Config α} {k : Constraint α}
    (hk : m.extend c k = .ok m') : m'.Aligned (q.add k) := by
  have hcounted := h.counted.extend hk
  obtain ⟨p, hp, rfl⟩ := extend_eq_ok hk
  have hsize := h.extendTableau c k
  refine ⟨?_, h.columns_eq, ?_, hcounted, hsize.rectangular, ?_, ?_⟩
  · rw [h.problem_eq] at hp
    exact Posed.addConstraint_current hp
  · rw [Posed.rows_add, ← h.counted.ofRows_concat h.aux_eq]
  · rw [List.length_append, List.length_singleton]
    exact hsize.numRows_eq
  · rw [List.length_append, List.length_singleton]
    exact hsize.numCols_eq

end Model

/-! ## Written out -/

namespace Model

variable {m : Model α} {q : Posed α}

/-- How the parts of a model line up, written out. -/
structure LinedUp (m : Model α) (q : Posed α) : Prop where
  columns_eq : m.columns = .ofProblem q.problem
  /-- The objective row, and one row for every auxiliary column. -/
  numRows_eq : m.tableau.numRows = m.aux.length + 1
  length_row : ∀ r ∈ m.tableau.rows, r.length = m.columns.numColumns + m.aux.length + 1
  decision_eq : m.counts.decision = m.columns.numColumns
  ofKind_eq : ∀ kind, m.counts.ofKind kind = (m.aux.filter (·.kind = kind)).length
  text_eq : ∀ (kind : AuxKind) (j : ℕ) (a : AuxColumn),
    (m.aux.filter (·.kind = kind))[j]? = some a →
      a.name.text = String.singleton kind.letter ++ toString (j + 1)
  /-- One auxiliary column for every constraint, every binary variable and every addition. -/
  length_aux : m.aux.length = (q.problem.constraints ++ q.problem.binaryBounds ++ q.added).length
  of_row : ∀ (k : ℕ) (row : Constraint α) (a : AuxColumn),
    (q.problem.constraints ++ q.problem.binaryBounds ++ q.added)[k]? = some row →
      m.aux[k]? = some a → a.kind = row.relation.auxKind ∧
        (a.negated ↔ row.relation = .ge ∨ row.relation = .eq ∧ row.rhs < 0)

/-- What lines up does so in every detail. -/
theorem Aligned.linedUp (h : m.Aligned q) : m.LinedUp q where
  columns_eq := h.columns_eq
  numRows_eq := h.numRows_eq
  length_row r hr := by
    rcases List.mem_cons.1 hr with rfl | hr
    · exact h.numCols_eq
    · exact (h.rectangular.2 r hr).trans h.numCols_eq
  decision_eq := by
    rw [h.counted]
    exact Counts.decision_ofColumns _ _
  ofKind_eq kind := by
    rw [h.counted]
    exact Counts.ofKind_ofColumns _ _ kind
  text_eq kind j a ha := by
    rw [h.aux_eq] at ha
    exact AuxColumn.text_of_kind ha
  length_aux := by
    rw [h.aux_eq, AuxColumn.length_ofRows]
    rfl
  of_row k row a hrow ha := by
    rw [h.aux_eq] at ha
    exact AuxColumn.of_getElem?_ofRows hrow ha

/-- The columns that an optimum has values for: the variables, and the auxiliary columns. -/
def columnNames (m : Model α) : List ColumnName :=
  (List.range m.columns.numVariables).map .decision ++ m.aux.map (·.name)

omit [Scalar α] in
/-- No column has a text of its own for a name. -/
theorem ne_other_of_mem_columnNames {name : ColumnName} (h : name ∈ m.columnNames) (s : String) :
    name ≠ .other s := by
  rintro rfl
  rcases List.mem_append.1 h with h | h
  · obtain ⟨i, -, hi⟩ := List.mem_map.1 h
    cases hi
  · obtain ⟨a, -, ha⟩ := List.mem_map.1 h
    cases ha

/-- No two columns have one name. -/
theorem Aligned.nodup_columnNames (h : m.Aligned q) : m.columnNames.Nodup := by
  rw [columnNames, h.aux_eq]
  refine List.nodup_append.2 ⟨List.nodup_range.map fun _ _ => ColumnName.decision.inj,
    AuxColumn.nodup_name_ofRows _, ?_⟩
  rintro name hname _ hname' rfl
  obtain ⟨i, -, rfl⟩ := List.mem_map.1 hname
  obtain ⟨a, -, ha⟩ := List.mem_map.1 hname'
  cases ha

/-- No two columns are written alike. -/
theorem Aligned.nodup_texts (h : m.Aligned q) : (m.columnNames.map ColumnName.text).Nodup :=
  h.nodup_columnNames.map_on fun _ ha _ hb =>
    ColumnName.text_inj (ne_other_of_mem_columnNames ha) (ne_other_of_mem_columnNames hb)

/-- An optimum has a value for every column, in their order: no value takes the place of another. -/
theorem Aligned.names_optimum (h : m.Aligned q) (c : Config α) (s : Solution α) :
    (m.optimum c s).values.entries.map (·.1) = m.columnNames := by
  let decisions := (m.variableValues c.tolerance).mapIdx fun i v =>
    (ColumnName.decision i, Scalar.clean c.tolerance v)
  let others := (m.auxValues c.tolerance).map fun e => (e.1.name, Scalar.clean c.tolerance e.2)
  have hlen : (m.variableValues c.tolerance).length = m.columns.numVariables :=
    ColumnMap.length_gatherAll _ _
  have hdecisions : decisions.map (·.1) =
      (List.range m.columns.numVariables).map ColumnName.decision := by
    refine List.ext_getElem (by simp [decisions, hlen]) fun i _ _ => ?_
    simp [decisions]
  have hothers : others.map (·.1) = m.aux.map AuxColumn.name := by
    refine List.ext_getElem (by simp [others, auxValues]) fun i _ _ => ?_
    simp [others, auxValues]
  have hnames : decisions.map (·.1) ++ others.map (·.1) = m.columnNames := by
    rw [hdecisions, hothers, columnNames]
  have hnodup := hnames ▸ h.nodup_columnNames
  have hfirst : (({} : Valuation α).insertAll decisions).entries = decisions :=
    Valuation.entries_insertAll (v := {}) (List.nodup_append.1 hnodup).1
  have hentries : (m.optimum c s).values.entries = decisions ++ others := by
    have hall := Valuation.entries_insertAll (v := ({} : Valuation α).insertAll decisions)
      (by rw [hfirst, List.map_append]; exact hnodup)
    rw [hfirst] at hall
    exact hall
  rw [hentries, List.map_append, hnames]

/-- An optimum has one value for every variable and one for every auxiliary column, in order, and no
two of their names are written alike. -/
theorem Aligned.texts_optimum (h : m.Aligned q) (c : Config α) (s : Solution α) :
    let texts := (m.optimum c s).values.entries.map (·.1.text)
    texts = ((List.range q.problem.numVariables).map fun i => "x" ++ toString (i + 1)) ++
      m.aux.map (·.name.text) ∧ texts.Nodup := by
  have htexts : (m.optimum c s).values.entries.map (·.1.text) =
      m.columnNames.map ColumnName.text := by
    rw [← h.names_optimum c s, List.map_map]
    rfl
  refine ⟨?_, htexts ▸ h.nodup_texts⟩
  rw [htexts, columnNames, h.numVariables_eq, List.map_append, List.map_map, List.map_map]
  refine congrArg (· ++ _) (List.map_congr_left fun i _ => ?_)
  exact ColumnName.numbered_eq _ _

end Model

/-! ## Invariants of models -/

/-- What building a model, adding to it and planned pivots keep of models and their problems. -/
structure Model.Kept (c : Config α) (P : Model α → Posed α → Prop) : Prop where
  problem_eq : ∀ {m q}, P m q → m.problem = q.current
  columns_eq : ∀ {m q}, P m q → m.columns = .ofProblem q.problem
  build : ∀ {p m}, Model.build c.bigM p = .ok m → P m ⟨p, []⟩
  extend : ∀ {m q k m'}, P m q → m.extend c k = .ok m' → P m' (q.add k)
  pivot : ∀ {m q phase row col t}, P m q → m.plan c.tolerance phase m.tableau = .pivot row col →
    m.tableau.pivot row col c.tolerance = .ok t → P { m with tableau := t } q

/-- The parts of models stay lined up. -/
theorem Model.kept_aligned (c : Config α) : Model.Kept c (Model.Aligned (α := α)) where
  problem_eq h := h.problem_eq
  columns_eq h := h.columns_eq
  build := aligned_build
  extend h := h.extend
  pivot h := h.pivot

namespace Session

variable {c : Config α} {P : Model α → Posed α → Prop} {s : Session α} {q : Posed α}

/-- What is kept holds of the model that a session starts with. -/
theorem start_kept (hP : Model.Kept c P) {p : Problem α} {j j' : Journal α}
    (h : start c p j = .ok (s, j')) : P s.model ⟨p, []⟩ := by
  obtain ⟨m, hbuild, rfl, -⟩ := start_eq_ok h
  exact hP.build hbuild

/-- What planned pivots keep of a model holds of the one that an optimization leaves. -/
theorem optimize_invariant {P : Model α → Prop}
    (hpivot : ∀ {m phase row col t}, P m → m.plan c.tolerance phase m.tableau = .pivot row col →
      m.tableau.pivot row col c.tolerance = .ok t → P { m with tableau := t })
    (h : P s.model) (j : Journal α) : P (s.optimize c j).state.model := by
  have hend := Progress.phases_invariant c s.model
    (P := fun t => P { s.model with tableau := t })
    (fun phase t row col t' ht hplan htake =>
      hpivot (m := { s.model with tableau := t }) ht hplan htake)
    ⟨s.model.tableau, s.trail, s.pivots, j⟩ h
  unfold optimize
  generalize Progress.phases _ c s.model = out at hend
  obtain ⟨p, verdict⟩ := out
  cases verdict with
  | error e => exact hend
  | ok v => exact hend

/-- What is kept holds of the model that an optimization leaves. -/
theorem optimize_kept (hP : Model.Kept c P) (h : P s.model q) (j : Journal α) :
    P (s.optimize c j).state.model q :=
  optimize_invariant (P := fun m => P m q) hP.pivot h j

/-- A model takes a constraint exactly if its problem does. -/
theorem exists_extend_iff_pose (hP : Model.Kept c P) {m : Model α} (h : P m q) (k : Constraint α) :
    (∃ m', m.extend c k = .ok m') ↔ ∃ p, q.current.addConstraint k = .ok p := by
  have hn : m.columns.numVariables = m.problem.numVariables := by
    rw [hP.columns_eq h, hP.problem_eq h]
    exact List.length_map _
  rw [Model.exists_extend_iff, hn, and_self, hP.problem_eq h, Problem.exists_addConstraint_iff]

/-- What is kept holds after a constraint came, of the problem that stands then. -/
theorem addConstraint_kept (hP : Model.Kept c P) (h : P s.model q) (k : Constraint α)
    (j : Journal α) : ∃ q', (Request.add k).pose (some q) = some q' ∧
      P (s.addConstraint c k j).state.model q' := by
  have haccept := exists_extend_iff_pose hP h k
  simp only [addConstraint, Request.pose]
  cases hext : s.model.extend c k with
  | error e =>
    cases hadd : q.current.addConstraint k with
    | error e => exact ⟨q, rfl, h⟩
    | ok p =>
      obtain ⟨m, hm⟩ := haccept.2 ⟨p, hadd⟩
      cases hext.symm.trans hm
  | ok m =>
    obtain ⟨p, hadd⟩ := haccept.1 ⟨m, hext⟩
    rw [hadd]
    exact ⟨q.add k, rfl, optimize_kept hP (s := ⟨m, _, s.pivots⟩) (hP.extend h hext) _⟩

end Session

namespace DualSimplex

/-- An invariant of models holds of the session of a solver and the problem that stands. -/
inductive Holds (c : Config α) (P : Model α → Posed α → Prop) :
    DualSimplex α → Option (Posed α) → Prop where
  | idle : Holds c P ⟨c, none⟩ none
  | session {s : Session α} {q : Posed α} (h : P s.model q) : Holds c P ⟨c, some s⟩ (some q)

variable {c : Config α} {P : Model α → Posed α → Prop} {d : DualSimplex α} {o : Option (Posed α)}

omit [Scalar α] in
/-- A solver keeps its settings. -/
theorem Holds.config_eq (h : Holds c P d o) : d.config = c := by cases h <;> rfl

/-- What is kept holds after a request, whatever the answer. -/
theorem Holds.request (hP : Model.Kept c P) (h : Holds c P d o) (r : Request α) (j : Journal α) :
    Holds c P (d.request r j).state (r.pose o) := by
  cases r with
  | solve p =>
    obtain ⟨conf, session⟩ := d
    obtain rfl : conf = c := h.config_eq
    have haccept := Session.exists_start_iff conf p j
    simp only [DualSimplex.request, Request.pose, DualSimplex.solve]
    cases hstart : Session.start conf p j with
    | error e =>
      rw [if_neg fun hf => by obtain ⟨_, hm⟩ := haccept.2 hf; cases hstart.symm.trans hm]
      cases h with
      | idle => exact .idle
      | session h => exact .session h
    | ok started =>
      rw [if_pos (haccept.1 ⟨started, hstart⟩)]
      exact .session (Session.optimize_kept hP (Session.start_kept hP hstart) _)
  | add k =>
    cases h with
    | idle => exact .idle
    | session h =>
      obtain ⟨q', hq', hkept⟩ := Session.addConstraint_kept hP h k j
      rw [hq']
      exact .session hkept

/-- What is kept holds after any history of requests. -/
theorem Holds.run (hP : Model.Kept c P) (history : List (Request α × Journal α)) :
    Holds c P (run ⟨c, none⟩ history) (Request.posed history) := by
  induction history using List.reverseRecOn with
  | nil => exact .idle
  | append_singleton history r ih =>
    rw [DualSimplex.run, Request.posed, List.foldl_append, List.foldl_append]
    exact ih.request hP r.1 r.2

/-- What is kept holds of the session that answers a request and of the problem that stands then. -/
theorem exists_kept (hP : Model.Kept c P) (history : List (Request α × Journal α)) {r : Request α}
    {j : Journal α} {sol : Solution α}
    (hsol : ((run ⟨c, none⟩ history).request r j).result = .ok sol) :
    ∃ q s trail v, Request.posed (history ++ [(r, j)]) = some q ∧
      (run ⟨c, none⟩ (history ++ [(r, j)])).session = some s ∧ P s.model q ∧
      sol = s.model.conclude c trail v := by
  have hbefore := Holds.run hP history
  have hafter := hbefore.request hP r j
  obtain ⟨s, trail, v, hs, hconclude⟩ := request_eq_ok hsol
  rw [hbefore.config_eq] at hconclude
  rw [Request.posed_concat, run_concat]
  generalize ((run ⟨c, none⟩ history).request r j).state = d, r.pose _ = o at hs hafter
  cases hafter with
  | idle => cases hs
  | session h =>
    obtain rfl := Option.some.inj hs
    exact ⟨_, _, trail, v, rfl, rfl, h, hconclude⟩

/-- After any history of requests, whatever was answered on the way, the model of the solver lines
up with the problem that stands if the last request has a solution. The solution shows its tableau
and its counts, and an optimum has one value for every variable and one for every auxiliary column,
under names that are written apart. -/
theorem run_linedUp (history : List (Request α × Journal α)) {r : Request α} {j : Journal α}
    {sol : Solution α} (hsol : ((run ⟨c, none⟩ history).request r j).result = .ok sol) :
    ∃ q s, Request.posed (history ++ [(r, j)]) = some q ∧
      (run ⟨c, none⟩ (history ++ [(r, j)])).session = some s ∧ s.model.LinedUp q ∧
      sol.tableau = some s.model.tableau ∧ sol.counts = s.model.counts ∧
      (sol.status = .optimal → sol.values.entries.map (·.1.text) =
        ((List.range q.problem.numVariables).map fun i => "x" ++ toString (i + 1)) ++
          s.model.aux.map (·.name.text) ∧ (sol.values.entries.map (·.1.text)).Nodup) := by
  obtain ⟨q, s, trail, v, hq, hs, haligned, rfl⟩ :=
    exists_kept (Model.kept_aligned c) history hsol
  refine ⟨q, s, hq, hs, haligned.linedUp, ?_, ?_, fun hopt => ?_⟩
  · exact (s.model.conclude_shows c trail v).1
  · exact (s.model.conclude_shows c trail v).2
  · rw [Model.conclude_eq_optimum hopt]
    exact haligned.texts_optimum c _

/-- The least `x₁ + x₂` for a free `x₁` and a binary `x₂` under `x₁ + x₂ = -1`, and then with
`x₁ ≥ -2` and `x₂ ≤ 1`: three decision columns, and auxiliary columns `a1`, `s1`, `e1` and `s2`. -/
theorem run_linedUp_mixed :
    let p : Problem ℚ :=
      { sense := .minimize
        vars := [⟨0, 1, .unrestricted⟩, ⟨1, 1, .binary⟩]
        constraints := [⟨[1, 1], .eq, -1⟩] }
    let j : Journal ℚ := {}
    let lower : Request ℚ := .add ⟨[1], .ge, -2⟩
    let upper : Request ℚ := .add ⟨[0, 1], .le, 1⟩
    ∃ (sol : Solution ℚ) (q : Posed ℚ) (s : Session ℚ),
      ((run ⟨.exact, none⟩ [(.solve p, j), (lower, j)]).request upper j).result = .ok sol ∧
      sol.status = .optimal ∧ q.rows.length = 4 ∧ s.model.LinedUp q ∧
      sol.values.entries.map (·.1.text) = ["x1", "x2", "a1", "s1", "e1", "s2"] ∧
      sol.counts = ⟨3, 2, 1, 1⟩ := by
  intro p j lower upper
  have hrun : ((run ⟨.exact, none⟩ [(.solve p, j), (lower, j)]).request upper j).result.toOption.map
      (fun sol => (sol.status, sol.values.entries.map (·.1.text), sol.counts)) =
        some (.optimal, ["x1", "x2", "a1", "s1", "e1", "s2"], ⟨3, 2, 1, 1⟩) := by decide +kernel
  obtain ⟨sol, hsol, hread⟩ := exists_ok_of_map hrun
  obtain ⟨hopt, htexts, hcounts⟩ : sol.status = .optimal ∧
      sol.values.entries.map (·.1.text) = ["x1", "x2", "a1", "s1", "e1", "s2"] ∧
      sol.counts = ⟨3, 2, 1, 1⟩ := by simpa using hread
  obtain ⟨q, s, hq, -, hlined, -⟩ := run_linedUp _ hsol
  obtain rfl : _ = q := Option.some.inj hq
  exact ⟨sol, _, s, hsol, hopt, rfl, hlined, htexts, hcounts⟩

end DualSimplex
end LinOpt
