import LinOpt.Proofs.Solution.Valuation
import LinOpt.Proofs.StandardForm.Point
import LinOpt.Simplex.Dual.Model

/-!
# Counting and naming auxiliary columns

A model keeps a counter for every kind of auxiliary column: building, extending and appending raise
the counter of the kind that comes and number the new column by it. What there is to count is the
list of auxiliary columns itself (`Counts.ofColumns`). A model is `Model.Counted` if its counters
say what a count of its columns says. That is so of a model that was built (`Model.build_eq`), and
it stays so when a constraint (`Model.Counted.extend`) or a cut (`Model.Counted.appendRow`) comes.

Counters that are right number the columns of every kind `1, 2, …` in the order of their rows
(`AuxColumn.map_number_ofRows`), so no two columns have one name (`AuxColumn.nodup_name_ofRows`).
-/

namespace LinOpt

/-! ## Counting -/

namespace Counts

/-- Raising the counter of a kind leaves the other counters. -/
theorem ofKind_add (c : Counts) (kind kind' : AuxKind) :
    (c.add kind).ofKind kind' = c.ofKind kind' + if kind = kind' then 1 else 0 := by
  cases kind <;> cases kind' <;> rfl

/-- Raising a counter leaves the number of decision columns. -/
theorem decision_add (c : Counts) (kind : AuxKind) : (c.add kind).decision = c.decision := by
  cases kind <;> rfl

/-- The counters of a list of auxiliary columns, counted afresh. -/
def ofColumns (decision : ℕ) (aux : List AuxColumn) : Counts :=
  aux.foldl (fun counts a => counts.add a.kind) { decision }

/-- One column more is counted last. -/
theorem ofColumns_concat (decision : ℕ) (aux : List AuxColumn) (a : AuxColumn) :
    ofColumns decision (aux ++ [a]) = (ofColumns decision aux).add a.kind :=
  List.foldl_concat ..

/-- Auxiliary columns are counted by kind. -/
theorem ofKind_ofColumns (decision : ℕ) (aux : List AuxColumn) (kind : AuxKind) :
    (ofColumns decision aux).ofKind kind = (aux.filter (·.kind = kind)).length := by
  induction aux using List.reverseRecOn with
  | nil => cases kind <;> rfl
  | append_singleton aux a ih =>
    rw [ofColumns_concat, ofKind_add, ih, List.filter_append, List.length_append]
    by_cases ha : a.kind = kind <;> simp [ha]

/-- Counting auxiliary columns leaves the number of decision columns. -/
theorem decision_ofColumns (decision : ℕ) (aux : List AuxColumn) :
    (ofColumns decision aux).decision = decision := by
  induction aux using List.reverseRecOn with
  | nil => rfl
  | append_singleton aux a ih => rw [ofColumns_concat, decision_add, ih]

end Counts

variable {α : Type} [Scalar α]

/-! ## The auxiliary columns of rows -/

namespace AuxColumn

/-- The auxiliary columns of a list of rows, each numbered behind those counted before it. -/
def ofRows (rows : List (Constraint α)) : List AuxColumn :=
  rows.foldl (fun aux row => aux ++ [.ofRow (.ofColumns 0 aux) row]) []

/-- Counters that count the columns before a row number its column, whatever the decision
columns. -/
theorem ofRow_ofColumns (decision : ℕ) (aux : List AuxColumn) (row : Constraint α) :
    ofRow (.ofColumns decision aux) row =
      ⟨row.relation.auxKind, (aux.filter (·.kind = row.relation.auxKind)).length + 1,
        row.isNegated⟩ := by
  rw [ofRow, Counts.ofKind_add, Counts.ofKind_ofColumns, if_pos rfl]

/-- One row more has one column more. -/
theorem ofRows_concat (rows : List (Constraint α)) (row : Constraint α) (decision : ℕ) :
    ofRows (rows ++ [row]) = ofRows rows ++ [.ofRow (.ofColumns decision (ofRows rows)) row] := by
  rw [ofRow_ofColumns, ← ofRow_ofColumns 0, ofRows, List.foldl_concat]
  rfl

/-- The counters that are carried along number the columns of a list of rows and count them. -/
theorem foldl_pushRow (decision : ℕ) (rows : List (Constraint α)) :
    rows.foldl pushRow ([], { decision }) =
      (ofRows rows, Counts.ofColumns decision (ofRows rows)) := by
  induction rows using List.reverseRecOn with
  | nil => rfl
  | append_singleton rows row ih =>
    rw [List.foldl_concat, ih, ofRows_concat rows row decision, Counts.ofColumns_concat]
    rfl

/-- There is one column for every row. -/
@[simp] theorem length_ofRows (rows : List (Constraint α)) :
    (ofRows rows).length = rows.length := by
  induction rows using List.reverseRecOn with
  | nil => rfl
  | append_singleton rows row ih => simp [ofRows_concat _ _ 0, ih]

/-- What an auxiliary column has of its row alone can be read off the row. -/
theorem map_ofRows {β : Type} {f : AuxColumn → β} {g : Constraint α → β}
    (h : ∀ counts row, f (ofRow counts row) = g row) (rows : List (Constraint α)) (k : ℕ) :
    (ofRows rows)[k]?.map f = rows[k]?.map g := by
  induction rows using List.reverseRecOn with
  | nil => rfl
  | append_singleton rows row ih =>
    rw [ofRows_concat _ _ 0]
    rcases Nat.lt_trichotomy k rows.length with hk | hk | hk
    · rw [List.getElem?_append_left hk, List.getElem?_append_left (by simpa using hk), ih]
    · have hk' : k = (ofRows rows).length := by rw [length_ofRows, hk]
      rw [hk, List.getElem?_concat_length, ← hk, hk', List.getElem?_concat_length]
      exact congrArg some (h _ _)
    · rw [List.getElem?_eq_none, List.getElem?_eq_none]
      · rfl
      all_goals
        simp
        omega

/-- Every row has the kind of auxiliary column that its relation calls for. -/
theorem kind_ofRows (rows : List (Constraint α)) (k : ℕ) :
    (ofRows rows)[k]?.map (·.kind) = rows[k]?.map (·.relation.auxKind) :=
  map_ofRows (fun _ _ => rfl) rows k

/-- The auxiliary column of a row is marked negated exactly if the row was negated. -/
theorem negated_ofRows (rows : List (Constraint α)) (k : ℕ) :
    (ofRows rows)[k]?.map (·.negated) = rows[k]?.map (·.isNegated) :=
  map_ofRows (fun _ _ => rfl) rows k

/-- What the auxiliary column of a row is, apart from its number. -/
theorem of_getElem?_ofRows {rows : List (Constraint α)} {k : ℕ} {row : Constraint α} {a : AuxColumn}
    (hrow : rows[k]? = some row) (ha : (ofRows rows)[k]? = some a) :
    a.kind = row.relation.auxKind ∧
      (a.negated ↔ row.relation = .ge ∨ row.relation = .eq ∧ row.rhs < 0) := by
  have hkind := kind_ofRows rows k
  have hneg := negated_ofRows rows k
  rw [hrow, ha, Option.map_some, Option.map_some, Option.some_inj] at hkind hneg
  refine ⟨hkind, ?_⟩
  rw [hneg, Constraint.isNegated]
  cases row.relation <;> simp

/-! ## Numbers and names -/

/-- The columns of one kind are numbered from one, in order. -/
theorem map_number_ofRows (rows : List (Constraint α)) (kind : AuxKind) :
    ((ofRows rows).filter (·.kind = kind)).map (·.number) =
      List.range' 1 ((ofRows rows).filter (·.kind = kind)).length := by
  induction rows using List.reverseRecOn with
  | nil => rfl
  | append_singleton rows row ih =>
    rw [ofRows_concat _ _ 0, ofRow_ofColumns, List.filter_append, List.map_append, ih,
      List.length_append]
    by_cases hkind : row.relation.auxKind = kind
    · simp only [hkind, decide_true, List.filter_cons_of_pos, List.filter_nil, List.map_singleton,
        List.length_singleton]
      rw [List.range'_concat, Nat.one_mul, Nat.add_comm 1]
    · simp [hkind]

/-- The column number `j` of a kind is written as the letter of the kind and `j`. -/
theorem text_of_kind {rows : List (Constraint α)} {kind : AuxKind} {j : ℕ} {a : AuxColumn}
    (h : ((ofRows rows).filter (·.kind = kind))[j]? = some a) :
    a.name.text = String.singleton kind.letter ++ toString (j + 1) := by
  have hkind : a.kind = kind := by simpa using (List.mem_filter.1 (List.mem_of_getElem? h)).2
  have hnumber := congrArg (·[j]?) (map_number_ofRows rows kind)
  have hj := (List.getElem?_eq_some_iff.1 h).1
  simp only [List.getElem?_map, h, Option.map_some, List.getElem?_range' hj, Option.some_inj]
    at hnumber
  rw [← ColumnName.numbered_eq, name, ColumnName.text, hkind, hnumber, Nat.one_mul, Nat.add_comm]

/-- No two auxiliary columns have one name: those of one kind have different numbers. -/
theorem nodup_name_ofRows (rows : List (Constraint α)) : ((ofRows rows).map name).Nodup := by
  induction rows using List.reverseRecOn with
  | nil => exact List.nodup_nil
  | append_singleton rows row ih =>
    rw [ofRows_concat _ _ 0, List.map_append, List.map_singleton]
    refine List.nodup_append.2 ⟨ih, List.nodup_singleton _, fun n hn n' hn' => ?_⟩
    obtain ⟨a, ha, rfl⟩ := List.mem_map.1 hn
    obtain rfl := List.mem_singleton.1 hn'
    intro heq
    obtain ⟨hkind, hnumber⟩ := ColumnName.auxiliary.inj heq
    rw [ofRow_ofColumns] at hkind hnumber
      -- the number of a column among those of its kind is at most their number
    have hmem : a.number ∈ ((ofRows rows).filter (·.kind = row.relation.auxKind)).map (·.number) :=
      List.mem_map_of_mem (List.mem_filter.2 ⟨ha, decide_eq_true hkind⟩)
    rw [map_number_ofRows, hnumber, List.mem_range'_1] at hmem
    exact absurd hmem.2 (by dsimp only; omega)

end AuxColumn

/-! ## Models that count right -/

namespace Model

/-- The counters of a model count its columns. -/
def Counted (m : Model α) : Prop := m.counts = .ofColumns m.numDecisions m.aux

variable {m : Model α}

/-- A model that counts right numbers the column of the next row behind those that it has. -/
theorem Counted.ofRows_concat (h : m.Counted) {rows : List (Constraint α)}
    (haux : m.aux = AuxColumn.ofRows rows) (row : Constraint α) :
    m.aux ++ [.ofRow m.counts row] = AuxColumn.ofRows (rows ++ [row]) := by
  rw [AuxColumn.ofRows_concat rows row m.numDecisions, ← haux, h]

/-- Counters that are right stay so when the counter of the next row is raised with its column. -/
theorem Counted.pushRow (h : m.Counted) (row : Constraint α) :
    m.counts.add row.relation.auxKind =
      .ofColumns m.numDecisions (m.aux ++ [.ofRow m.counts row]) := by
  rw [Counts.ofColumns_concat, ← h]
  rfl

/-- A model that is built has the auxiliary columns of its rows, and counts them right. -/
theorem build_eq (bigM : α) (p : Problem α) :
    build bigM p = (StandardForm.ofProblem p).map fun f =>
      let aux := AuxColumn.ofRows f.rows
      { problem := p
        columns := f.columns
        tableau := aux.zipIdx.foldl (fun t e => if e.1.kind = .artificial
          then t.penalize (e.2 + 1) (f.columns.numColumns + e.2) bigM else t) (plainTableau f)
        aux
        counts := .ofColumns f.columns.numColumns aux } := by
  unfold build
  congr 1
  funext f
  rw [AuxColumn.foldl_pushRow]

/-- A model that a row was appended to goes on counting right. -/
theorem Counted.appendRow (h : m.Counted) (coefficients : List α) (rhs : α) :
    (m.appendRow coefficients rhs).Counted :=
  h.pushRow ⟨coefficients, .le, rhs⟩

end Model
end LinOpt
