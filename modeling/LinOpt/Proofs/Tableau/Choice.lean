import LinOpt.Proofs.Tableau.Basis

/-!
# Entering and leaving

What the choices of the simplex method find: the least admitted entry of a list, if there is one
(`mostNegative_eq_some`, `leastRatio_eq_some`), and so the column that enters and the row that
leaves (`Rectangular.enteringWhere_eq_some`, `leaving_eq_some`). At tolerance zero a pivot on the
row that leaves keeps the right-hand sides from turning negative
(`Rectangular.rhs_nonneg_eliminate`). Two lists whose entries are admitted and beat alike lead to
the same choice, ties included (`firstBest_rename`).
-/

namespace LinOpt

namespace Selection

section Any

variable {β : Type} {admits : β → Bool}

/-- Without a choice so far, nothing is chosen where nothing is admitted. -/
theorem firstBestFrom_eq_none (beats : β → β → Bool) :
    ∀ (entries : List (Option β)) (i : ℕ) (best : Option (ℕ × β)),
      firstBestFrom admits beats i best entries = none ↔
        best = none ∧ ∀ v, some v ∈ entries → admits v = false
  | [], _, best => by simp [firstBestFrom]
  | none :: rest, i, best => by simp [firstBestFrom, firstBestFrom_eq_none beats rest]
  | some v :: rest, i, best => by
    cases best with
    | none =>
      by_cases hv : admits v
      · simp [firstBestFrom, firstBestFrom_eq_none beats rest, hv]
      · simp [firstBestFrom, firstBestFrom_eq_none beats rest, hv]
    | some b =>
      have h : (if beats v b.2 then some (i, v) else some b) ≠ none := by split <;> simp
      simp [firstBestFrom, firstBestFrom_eq_none beats rest, h]

/-- What is chosen is the choice so far or an entry of the list. -/
theorem firstBestFrom_getElem? {beats : β → β → Bool} {k : ℕ} {v : β} {entries : List (Option β)}
    {i : ℕ} {best : Option (ℕ × β)} (h : firstBestFrom admits beats i best entries = some (k, v)) :
    best = some (k, v) ∨ i ≤ k ∧ entries[k - i]? = some (some v) := by
  induction entries generalizing i best with
  | nil => exact .inl h
  | cons entry rest ih =>
    have hlater : i + 1 ≤ k ∧ rest[k - (i + 1)]? = some (some v) →
        i ≤ k ∧ (entry :: rest)[k - i]? = some (some v) := by
      rintro ⟨hik, he⟩
      refine ⟨Nat.le_of_succ_le hik, ?_⟩
      rwa [show k - i = k - (i + 1) + 1 by omega, List.getElem?_cons_succ]
    cases entry with
    | none => exact (ih h).imp_right hlater
    | some w =>
      unfold firstBestFrom at h
      rcases ih h with hbest | hk
      · split_ifs at hbest
        · obtain ⟨rfl, rfl⟩ := Prod.mk.inj (Option.some.inj hbest)
          exact .inr ⟨le_rfl, by rw [Nat.sub_self]; rfl⟩
        · exact .inl hbest
      · exact .inr (hlater hk)

/-- A choice without one to start from is an entry of the list. -/
theorem firstBest_getElem? {beats : β → β → Bool} {k : ℕ} {v : β} {entries : List (Option β)}
    (h : firstBest admits beats entries = some (k, v)) : entries[k]? = some (some v) :=
  ((firstBestFrom_getElem? h).resolve_left nofun).2

section Rename

variable {γ : Type} {beats : β → β → Bool} {admits' : γ → Bool} {beats' : γ → γ → Bool} (g : β → γ)
  (hadmits : ∀ v, admits' (g v) = admits v) (hbeats : ∀ v w, beats' (g v) (g w) = beats v w)
  (hdown : ∀ v w, admits w → beats v w → admits v) {entries : List (Option β)}
  {entries' : List (Option γ)}
  (hentries : List.Forall₂ (fun e e' => e' = e.map g ∨ e = none ∧ ∃ w, e' = some w ∧
    admits' w = false ∧ ∀ v, admits v → beats' w (g v) = false) entries entries')

include hadmits hbeats hdown hentries

/-- Entries may be renamed to others that are admitted and beat alike. An entry that is neither
admitted nor beats one that is may be left out. -/
theorem firstBestFrom_rename {i : ℕ} {best : Option (ℕ × β)}
    (hbest : ∀ b, best = some b → admits b.2) :
    firstBestFrom admits' beats' i (best.map fun b => (b.1, g b.2)) entries' =
      (firstBestFrom admits beats i best entries).map fun b => (b.1, g b.2) := by
  induction hentries generalizing i best with
  | nil => rfl
  | @cons e e' rest rest' hentry _ ih =>
    rcases hentry with rfl | ⟨rfl, w, rfl, hw, hbeaten⟩
    · cases e with
      | none => exact ih hbest
      | some v =>
        cases best with
        | none =>
          by_cases hv : admits v
          · have hrest := @ih (i + 1) (some (i, v)) (by simpa using hv)
            simpa [firstBestFrom, hadmits, hv] using hrest
          · simpa [firstBestFrom, hadmits, hv] using @ih (i + 1) none (by simp)
        | some b =>
          by_cases hv : beats v b.2
          · have hrest := @ih (i + 1) (some (i, v)) (by simpa using hdown v b.2 (hbest b rfl) hv)
            simpa [firstBestFrom, hbeats, hv] using hrest
          · simpa [firstBestFrom, hbeats, hv] using @ih (i + 1) (some b) hbest
    · cases best with
      | none => simpa [firstBestFrom, hw] using @ih (i + 1) none (by simp)
      | some b => simpa [firstBestFrom, hbeaten b.2 (hbest b rfl)] using @ih (i + 1) (some b) hbest

/-- Choosing does not depend on how entries are written. -/
theorem firstBest_rename : firstBest admits' beats' entries' =
    (firstBest admits beats entries).map fun b => (b.1, g b.2) :=
  firstBestFrom_rename g hadmits hbeats hdown hentries fun b (hb : none = some b) => nomatch hb

end Rename

end Any

variable {admits : ℚ → Bool}

/-- A choice among the one so far and entries from position `i` on: it is admitted, it is one of
them, and it is the least. -/
structure Chosen (admits : ℚ → Bool) (best : Option (ℕ × ℚ)) (i : ℕ) (entries : List (Option ℚ))
    (k : ℕ) (v : ℚ) : Prop where
  admitted : admits v
  source : best = some (k, v) ∨ i ≤ k ∧ entries[k - i]? = some (some v)
  le_best : ∀ b, best = some b → v ≤ b.2
  le : ∀ w, some w ∈ entries → admits w → v ≤ w

/-- A choice behind an entry is one from the entry on, if the choice so far takes account of it. -/
theorem Chosen.cons {best best' : Option (ℕ × ℚ)} {i k : ℕ} {entry : Option ℚ}
    {rest : List (Option ℚ)} {v : ℚ} (h : Chosen admits best' (i + 1) rest k v)
    (hsource : ∀ b, best' = some b → best = some b ∨ b.1 = i ∧ entry = some b.2)
    (hbest : ∀ b, best = some b → ∃ b', best' = some b' ∧ b'.2 ≤ b.2)
    (hentry : ∀ u, entry = some u → admits u → ∃ b', best' = some b' ∧ b'.2 ≤ u) :
    Chosen admits best i (entry :: rest) k v := by
  refine ⟨h.admitted, ?_, fun b hb => ?_, fun w hw haw => ?_⟩
  · rcases h.source with hb | ⟨hik, he⟩
    · rcases hsource _ hb with hold | ⟨hk, hnew⟩
      · exact .inl hold
      · refine .inr ⟨hk.ge, ?_⟩
        rw [show k - i = 0 from Nat.sub_eq_zero_of_le hk.le, hnew]
        rfl
    · refine .inr ⟨Nat.le_of_succ_le hik, ?_⟩
      rw [show k - i = k - (i + 1) + 1 by omega, List.getElem?_cons_succ]
      exact he
  · obtain ⟨b', hb', hlb⟩ := hbest b hb
    exact (h.le_best b' hb').trans hlb
  · rcases List.mem_cons.1 hw with hwe | hw
    · obtain ⟨b', hb', hlb⟩ := hentry w hwe.symm haw
      exact (h.le_best b' hb').trans hlb
    · exact h.le w hw haw

/-- What is chosen is the choice so far or an entry, and least among both. Entries that lie below an
admitted one are admitted, so only the first choice asks. -/
theorem firstBestFrom_eq_some (hdown : ∀ v w, admits w → v < w → admits v) {k : ℕ} {v : ℚ}
    {entries : List (Option ℚ)} {i : ℕ} {best : Option (ℕ × ℚ)}
    (hadmits : ∀ b, best = some b → admits b.2)
    (h : firstBestFrom admits (fun v w => decide (v < w)) i best entries = some (k, v)) :
    Chosen admits best i entries k v := by
  induction entries generalizing i best with
  | nil =>
    obtain rfl : best = some (k, v) := h
    exact ⟨hadmits _ rfl, .inl rfl, fun b hb => (congrArg Prod.snd (Option.some.inj hb)).le,
      by simp⟩
  | cons entry rest ih =>
    cases entry with
    | none =>
      exact (ih hadmits h).cons (fun _ hb => .inl hb) (fun b hb => ⟨b, hb, le_rfl⟩) (by simp)
    | some u =>
      cases best with
      | none =>
        by_cases hu : admits u
        · have hrest : Chosen admits (some (i, u)) (i + 1) rest k v :=
            ih (by simp [hu]) (by simpa [firstBestFrom, hu] using h)
          exact hrest.cons (by simp) (by simp) (by simp)
        · have hrest : Chosen admits none (i + 1) rest k v :=
            ih (by simp) (by simpa [firstBestFrom, hu] using h)
          exact hrest.cons (by simp) (by simp) (by simp [hu])
      | some b =>
        by_cases hub : u < b.2
        · have hu : admits u := hdown u b.2 (hadmits b rfl) hub
          have hrest : Chosen admits (some (i, u)) (i + 1) rest k v :=
            ih (by simp [hu]) (by simpa [firstBestFrom, hub] using h)
          exact hrest.cons (by simp) (by simpa using hub.le) (by simp)
        · have hrest : Chosen admits (some b) (i + 1) rest k v :=
            ih hadmits (by simpa [firstBestFrom, hub] using h)
          exact hrest.cons (fun _ hb => .inl hb) (fun b hb => ⟨b, hb, le_rfl⟩)
            (by simpa using fun _ => not_lt.1 hub)

/-- The least admitted entry is at the position and has the value that are chosen. -/
theorem firstBest_eq_some (hdown : ∀ v w, admits w → v < w → admits v) {entries : List (Option ℚ)}
    {k : ℕ} {v : ℚ} (h : firstBest admits (fun v w => decide (v < w)) entries = some (k, v)) :
    entries[k]? = some (some v) ∧ admits v ∧ ∀ w, some w ∈ entries → admits w → v ≤ w := by
  have hchosen := firstBestFrom_eq_some hdown (by simp) h
  exact ⟨(hchosen.source.resolve_left (by simp)).2, hchosen.admitted, hchosen.le⟩

end Selection

namespace Tableau

variable {t : Tableau ℚ} {tolerance : ℚ}

/-! ## Least entries -/

/-- Nothing is chosen if no entry is below the negative tolerance. -/
theorem mostNegative_eq_none {entries : List (Option ℚ)} :
    mostNegative tolerance entries = none ↔ ∀ v, some v ∈ entries → -tolerance ≤ v := by
  rw [mostNegative, Selection.firstBest, Selection.firstBestFrom_eq_none]
  simp

/-- The most negative entry lies below the tolerance and below all entries. -/
theorem mostNegative_eq_some {entries : List (Option ℚ)} {k : ℕ} {v : ℚ}
    (h : mostNegative tolerance entries = some (k, v)) :
    entries[k]? = some (some v) ∧ v < -tolerance ∧ ∀ w, some w ∈ entries → v ≤ w := by
  obtain ⟨he, hv, hle⟩ := Selection.firstBest_eq_some
    (fun v w hw hvw => decide_eq_true (hvw.trans (of_decide_eq_true hw))) h
  have hv := of_decide_eq_true hv
  refine ⟨he, hv, fun w hw => ?_⟩
  by_cases hwt : w < -tolerance
  · exact hle w hw (decide_eq_true hwt)
  · exact hv.le.trans (not_lt.1 hwt)

/-- Nothing is chosen if there is no ratio. -/
theorem leastRatio_eq_none {ratios : List (Option ℚ)} :
    leastRatio ratios = none ↔ ∀ v, some v ∉ ratios := by
  rw [leastRatio, Selection.firstBest, Selection.firstBestFrom_eq_none]
  simp only [true_and]
  refine forall_congr' fun v => ⟨fun h hv => ?_, fun h hv => absurd hv h⟩
  exact Bool.noConfusion (h hv)

/-- The least ratio is a ratio of the list and none is below it. -/
theorem leastRatio_eq_some {ratios : List (Option ℚ)} {k : ℕ} {v : ℚ}
    (h : leastRatio ratios = some (k, v)) :
    ratios[k]? = some (some v) ∧ ∀ w, some w ∈ ratios → v ≤ w := by
  obtain ⟨he, -, hle⟩ := Selection.firstBest_eq_some (fun _ _ _ _ => rfl) h
  exact ⟨he, fun w hw => hle w hw rfl⟩

/-! ## The entering column -/

/-- The entries of the objective row, without its right-hand side. -/
theorem Rectangular.getElem?_reducedCosts (h : t.Rectangular) (j : ℕ) :
    t.reducedCosts[j]? = if j < t.rhsCol then some (t.entry 0 j) else none := by
  have hcol := h.rhsCol_succ
  split_ifs with hj
  · have hlt : j < t.objective.length := by show j < t.numCols; omega
    rw [reducedCosts, List.getElem?_take_of_lt hj, List.getElem?_eq_getElem hlt, entry_def]
    exact congrArg some (List.getD_eq_getElem _ _ hlt).symm
  · rw [reducedCosts, List.getElem?_eq_none]
    rw [List.length_take]
    omega

/-- The eligible entries of the objective row. -/
theorem Rectangular.mem_eligible (h : t.Rectangular) {eligible : ℕ → Bool} {v : ℚ} :
    some v ∈ t.reducedCosts.mapIdx (fun j v => if eligible j then some v else none) ↔
      ∃ j, j < t.rhsCol ∧ eligible j ∧ t.entry 0 j = v := by
  rw [List.mem_iff_getElem?]
  refine exists_congr fun j => ?_
  rw [List.getElem?_mapIdx, h.getElem?_reducedCosts]
  by_cases hj : j < t.rhsCol <;> by_cases he : eligible j <;> simp [hj, he]

/-- No column enters if no eligible entry of the objective row lies below the tolerance. -/
theorem Rectangular.enteringWhere_eq_none (h : t.Rectangular) {eligible : ℕ → Bool} :
    t.enteringWhere tolerance eligible = none ↔
      ∀ j, j < t.rhsCol → eligible j → -tolerance ≤ t.entry 0 j := by
  rw [enteringWhere, Option.map_eq_none_iff, mostNegative_eq_none]
  constructor
  · exact fun hv j hj he => hv _ (h.mem_eligible.2 ⟨j, hj, he, rfl⟩)
  · intro hj v hv
    obtain ⟨j, hlt, he, rfl⟩ := h.mem_eligible.1 hv
    exact hj j hlt he

/-- The column that enters is eligible and has the least entry of the objective row. -/
theorem Rectangular.enteringWhere_eq_some (h : t.Rectangular) {eligible : ℕ → Bool} {c : ℕ}
    (hc : t.enteringWhere tolerance eligible = some c) :
    c < t.rhsCol ∧ eligible c ∧ t.entry 0 c < -tolerance ∧
      ∀ j, j < t.rhsCol → eligible j → t.entry 0 c ≤ t.entry 0 j := by
  obtain ⟨⟨k, v⟩, hkv, rfl⟩ := Option.map_eq_some_iff.1 hc
  obtain ⟨he, hv, hle⟩ := mostNegative_eq_some hkv
  rw [List.getElem?_mapIdx, h.getElem?_reducedCosts] at he
  by_cases hk : k < t.rhsCol
  · by_cases hel : eligible k
    · obtain rfl : t.entry 0 k = v := by simpa [hk, hel] using he
      exact ⟨hk, hel, hv, fun j hj hej => hle _ (h.mem_eligible.2 ⟨j, hj, hej, rfl⟩)⟩
    · simp [hk, hel] at he
  · simp [hk] at he

/-- At an optimal tableau no column enters, whatever the scalars. -/
theorem IsOptimal.entering_eq_none {α : Type} [Scalar α] [Scalar.Signed α] {t : Tableau α}
    {tolerance : α} (h : t.IsOptimal tolerance) : t.entering tolerance = none := by
  refine Option.map_eq_none_iff.2
    ((Selection.firstBestFrom_eq_none _ _ _ _).2 ⟨rfl, fun v hv => ?_⟩)
  obtain ⟨j, hj, hentry⟩ := List.mem_mapIdx.1 hv
  rw [if_pos rfl] at hentry
  rw [← Option.some.inj hentry]
  exact decide_eq_false (Scalar.Signed.not_lt _ _ (h _ (List.getElem_mem hj)))

/-- Optimality is that no column of any kind enters. -/
theorem Rectangular.isOptimal_iff (h : t.Rectangular) :
    t.IsOptimal tolerance ↔ ∀ j, j < t.rhsCol → -tolerance ≤ t.entry 0 j := by
  unfold IsOptimal
  constructor
  · intro ho j hj
    refine ho _ (List.mem_of_getElem? (i := j) ?_)
    rw [h.getElem?_reducedCosts, if_pos hj]
  · intro ho v hv
    obtain ⟨j, hj⟩ := List.mem_iff_getElem?.1 hv
    rw [h.getElem?_reducedCosts] at hj
    split_ifs at hj with hlt
    obtain rfl := Option.some.inj hj
    exact ho j hlt

/-- At tolerance zero a tableau is optimal if row `0` is nowhere negative. -/
theorem Rectangular.isOptimal_zero_iff (h : t.Rectangular) :
    t.IsOptimal 0 ↔ ∀ j, j < t.rhsCol → 0 ≤ t.entry 0 j := by
  rw [h.isOptimal_iff, neg_zero]

/-- At tolerance zero no column enters if row `0` is nowhere negative. -/
theorem Rectangular.entering_zero_eq_none (h : t.Rectangular) :
    t.entering 0 = none ↔ ∀ j, j < t.rhsCol → 0 ≤ t.entry 0 j := by
  rw [entering, h.enteringWhere_eq_none, neg_zero]
  exact forall₂_congr fun j _ => forall_prop_of_true rfl

/-! ## The leaving row -/

/-- The ratios of the rows with an entry above the tolerance. -/
theorem mem_ratios {α : Type} [Scalar α] {t : Tableau α} {tolerance : α} {c i : ℕ} {v : α} :
    (t.constraints.map fun r =>
        let v := r.getD c 0
        if v > tolerance then some (r.getD t.rhsCol 0 / v) else none)[i]? = some (some v) ↔
      i < t.numConstraints ∧ tolerance < t.entry (i + 1) c ∧
        t.rhs (i + 1) / t.entry (i + 1) c = v := by
  rw [rhs_def, entry_def, entry_def, row_succ, List.getElem?_map]
  rcases Nat.lt_or_ge i t.constraints.length with hi | hi
  · rw [List.getElem?_eq_getElem hi, List.getD_eq_getElem _ _ hi, Option.map_some, Option.some_inj]
    dsimp only
    split_ifs with hv
    · rw [Option.some_inj]
      exact ⟨fun h => ⟨hi, hv, h⟩, fun h => h.2.2⟩
    · exact ⟨fun h => (nomatch h), fun h => absurd h.2.1 hv⟩
  · rw [List.getElem?_eq_none hi]
    exact ⟨fun h => (nomatch h), fun h => absurd h.1 (not_lt.2 hi)⟩

/-- No row leaves if the column has no entry above the tolerance. -/
theorem leaving_eq_none {c : ℕ} (h : t.leaving c tolerance = none) (i : ℕ)
    (hi : i < t.numConstraints) : t.entry (i + 1) c ≤ tolerance := by
  rw [leaving, Option.map_eq_none_iff, leastRatio_eq_none] at h
  by_contra hlt
  exact h _ (List.mem_of_getElem? (mem_ratios.2 ⟨hi, not_le.1 hlt, rfl⟩))

/-- The row that leaves is a constraint row, whatever the scalars. -/
theorem leaving_range {α : Type} [Scalar α] {t : Tableau α} {tolerance : α} {c r : ℕ}
    (h : t.leaving c tolerance = some r) : 0 < r ∧ r < t.numRows := by
  obtain ⟨⟨i, v⟩, hiv, rfl⟩ := Option.map_eq_some_iff.1 h
  exact ⟨Nat.succ_pos i, Nat.succ_lt_succ (mem_ratios.1 (Selection.firstBest_getElem? hiv)).1⟩

/-- The row that leaves has an entry above the tolerance, whatever the scalars. -/
theorem lt_entry_of_leaving {α : Type} [Scalar α] {t : Tableau α} {tolerance : α} {c r : ℕ}
    (h : t.leaving c tolerance = some r) : tolerance < t.entry r c := by
  obtain ⟨⟨i, v⟩, hiv, rfl⟩ := Option.map_eq_some_iff.1 h
  exact (mem_ratios.1 (Selection.firstBest_getElem? hiv)).2.1

/-- The row that leaves has an entry above the tolerance, and no such row has a lesser ratio. -/
theorem leaving_eq_some {c r : ℕ} (h : t.leaving c tolerance = some r) :
    ∃ i, r = i + 1 ∧ i < t.numConstraints ∧ tolerance < t.entry (i + 1) c ∧
      ∀ k, k < t.numConstraints → tolerance < t.entry (k + 1) c →
        t.rhs (i + 1) / t.entry (i + 1) c ≤ t.rhs (k + 1) / t.entry (k + 1) c := by
  obtain ⟨⟨i, v⟩, hiv, rfl⟩ := Option.map_eq_some_iff.1 h
  obtain ⟨he, hle⟩ := leastRatio_eq_some hiv
  obtain ⟨hi, hpos, rfl⟩ := mem_ratios.1 he
  exact ⟨i, rfl, hi, hpos, fun k hk hkp =>
    hle _ (List.mem_of_getElem? (mem_ratios.2 ⟨hk, hkp, rfl⟩))⟩

/-- At tolerance zero a pivot by the ratio test leaves no right-hand side negative. -/
theorem Rectangular.rhs_nonneg_eliminate (h : t.Rectangular) (hrhs : ∀ i, 0 ≤ t.rhs (i + 1))
    {c r : ℕ} (hr : t.leaving c 0 = some r) (i : ℕ) : 0 ≤ (t.eliminate r c).rhs (i + 1) := by
  obtain ⟨k, rfl, hk, hpos, hle⟩ := leaving_eq_some hr
  have hp : t.entry (k + 1) c ≠ 0 := hpos.ne'
  have hcol : (t.eliminate (k + 1) c).rhsCol = t.rhsCol :=
    congrArg (· - 1) (h.eliminate (lt_numRows_of_entry_ne hp) c).2
  rw [rhs_def, hcol, h.entry_eliminate hp]
  have hq : 0 ≤ t.rhs (k + 1) / t.entry (k + 1) c := div_nonneg (hrhs k) hpos.le
  split_ifs with hik
  · exact hq
  · rcases le_or_gt (t.entry (i + 1) c) 0 with hneg | hic
    · have := mul_nonneg (neg_nonneg.2 hneg) hq
      have := hrhs i
      rw [rhs_def] at *
      linarith
    · have hi : i < t.numConstraints := Nat.lt_of_succ_lt_succ (lt_numRows_of_entry_ne hic.ne')
      have hmul := mul_le_mul_of_nonneg_left (hle i hi hic) hic.le
      rw [mul_div_cancel₀ _ hic.ne', rhs_def, rhs_def] at hmul
      linarith

end Tableau
end LinOpt
