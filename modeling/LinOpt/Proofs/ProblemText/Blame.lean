import LinOpt.Proofs.ProblemText.Grammar
import LinOpt.Proofs.ProblemText.Rows
import LinOpt.Scalar.Rational

/-!
# Where a text is refused

A text that is no problem is refused at its first row that is not what it should be: the objective,
a constraint or the restrictions (`ProblemText.Misfit`). The error quotes a token of this row with
its place, or points behind the last one, or says how many coefficients or restrictions there are
(`ProblemText.parse_error`). Numbers and constraints that were read are never refused.
-/

namespace LinOpt.ProblemText

/-- Of two steps after one another the first one fails, or the second does after it. -/
theorem bind_eq_error_iff {ε β γ : Type} {x : Except ε β} {f : β → Except ε γ} {e : ε} :
    (x >>= f) = .error e ↔ x = .error e ∨ ∃ b, x = .ok b ∧ f b = .error e := by
  cases x with
  | error e' =>
    refine ⟨fun h => .inl (congrArg _ (Except.error.inj h)), ?_⟩
    rintro (h | ⟨_, h, _⟩)
    · exact congrArg _ (Except.error.inj h)
    · cases h
  | ok b =>
    refine ⟨fun h => .inr ⟨b, rfl, h⟩, ?_⟩
    rintro (h | ⟨_, hb, h⟩)
    · cases h
    · exact Except.ok.inj hb ▸ h

variable {α : Type} {l : Line} {ts : List Token} {e : ParseError α}

/-! ## Lines -/

/-- The error is about a token of the line or about its end. -/
inductive PointsInto (l : Line) : ParseError α → Prop
  | token {expected : Expectation} {t : Token} (mem : t ∈ l.tokens) :
      PointsInto l (.unexpectedToken expected (some t.text) t.span)
  | restriction {t : Token} (mem : t ∈ l.tokens) :
      PointsInto l (.unknownRestriction t.text t.span)
  | stop {expected : Expectation} : PointsInto l (.unexpectedToken expected none l.stop)

/-- What is found in place of something else is a token of the line, or its end. -/
theorem pointsInto_unexpected {β : Type} {expected : Expectation} (hts : ts ⊆ l.tokens)
    (h : (unexpected l expected ts : Except (ParseError α) β) = .error e) : PointsInto l e := by
  cases ts with
  | nil =>
    cases h
    exact .stop
  | cons t ts =>
    cases h
    exact .token (hts List.mem_cons_self)

/-- What follows a complete line is one of its tokens. -/
theorem pointsInto_expectEnd (hts : ts ⊆ l.tokens) (h : expectEnd l ts = .error e) :
    PointsInto l e := by
  rw [expectEnd] at h
  split_ifs at h
  exact pointsInto_unexpected hts h

/-- What is no restriction is a token of the line. -/
theorem pointsInto_readRestrictions (h : readRestrictions l = .error e) : PointsInto l e := by
  obtain ⟨number, tokens⟩ := l
  suffices hmem : ∃ t ∈ tokens, e = .unknownRestriction t.text t.span by
    obtain ⟨t, ht, rfl⟩ := hmem
    exact .restriction ht
  rw [readRestrictions] at h
  dsimp only at h
  induction tokens with
  | nil => cases h
  | cons t ts ih =>
    rw [List.mapM_cons] at h
    rcases bind_eq_error_iff.1 h with h | ⟨r, -, h⟩
    · split at h
      · cases h
      · exact ⟨t, List.mem_cons_self, (Except.error.inj h).symm⟩
    · rcases bind_eq_error_iff.1 h with h | ⟨_, -, h⟩
      · obtain ⟨u, hu, he⟩ := ih h
        exact ⟨u, List.mem_cons_of_mem t hu, he⟩
      · cases h

/-- The last line is refused at a token or for the number of its restrictions. -/
theorem pointsInto_restrict {p : Problem α} (h : restrict p l = .error e) :
    PointsInto l e ∨ (l.tokens.length ≠ p.numVariables ∧
      e = .restrictionCount p.numVariables l.tokens.length) := by
  rw [restrict] at h
  rcases bind_eq_error_iff.1 h with h | ⟨rs, hread, h⟩
  · exact .inl (pointsInto_readRestrictions h)
  · have hlength := (readRestrictions_eq_ok_iff.1 hread).length_eq
    rw [← hlength] at h
    split_ifs at h with hcount
    · exact .inr ⟨hcount, (Except.error.inj h).symm⟩
    · rw [Problem.withRestrictions_eq, if_neg (hlength ▸ hcount)] at h
      cases h

variable [Scalar α]

/-- Every number of the line has a value, so that no number is refused. -/
theorem pointsInto_readNumber (hl : Readable l.tokens) (hts : ts ⊆ l.tokens)
    (h : readNumber l ts = .error e) : PointsInto l e := by
  cases ts with
  | nil => exact pointsInto_unexpected hts h
  | cons t ts =>
    rw [readNumber] at h
    split_ifs at h with hkind
    · exact pointsInto_unexpected hts h
    · obtain ⟨d, hd⟩ := hl t (hts List.mem_cons_self) (not_not.1 hkind)
      rw [Decimal.ofChars?_eq_some_iff.2 hd] at h
      cases h

/-- What is left after a number are tokens of the line. -/
theorem subset_of_readNumber {v : α} {rest : List Token} (h : readNumber l ts = .ok (v, rest)) :
    rest ⊆ ts := by
  obtain ⟨t, rfl, -⟩ := readNumber_eq_ok_iff.1 h
  exact List.subset_cons_self t rest

/-- What breaks a pair off is a token of the line, or its end. -/
theorem pointsInto_readPairs (hl : Readable l.tokens) : ∀ {ts : List Token}, ts ⊆ l.tokens →
    readPairs l ts = .error e → PointsInto l e
  | [], _, h => by cases h
  | t :: rest, hts, h => by
    rw [readPairs] at h
    cases hs : (sign? t.kind : Option α) with
    | none =>
      simp only [hs] at h
      cases h
    | some s =>
      have hrest := List.subset_of_cons_subset hts
      simp only [hs] at h
      cases rest with
      | nil => exact pointsInto_unexpected hrest h
      | cons n rest =>
        rcases bind_eq_error_iff.1 h with h | ⟨_, -, h⟩
        · exact pointsInto_readNumber hl hrest h
        · rcases bind_eq_error_iff.1 h with h | ⟨_, -, h⟩
          · exact pointsInto_readPairs hl (List.subset_of_cons_subset hrest) h
          · cases h

/-- What is left after pairs are tokens of the line. -/
theorem subset_of_readPairs {vs : List α} {rest : List Token}
    (h : readPairs l ts = .ok (vs, rest)) : rest ⊆ ts := by
  obtain ⟨us, rfl, -⟩ := coefficients_of_readPairs h
  exact List.subset_append_right us rest

/-- An objective is refused with a place in its line. -/
theorem pointsInto_readObjective (hl : Readable l.tokens) (h : readObjective l = .error e) :
    PointsInto l e := by
  have hself := List.Subset.refl l.tokens
  rw [readObjective] at h
  cases htokens : l.tokens with
  | nil =>
    simp only [htokens] at h
    exact pointsInto_unexpected (List.nil_subset _) h
  | cons t ts =>
    rw [htokens] at hself
    have hts := List.subset_of_cons_subset hself
    simp only [htokens] at h
    cases hs : sense? t.kind with
    | none =>
      simp only [hs] at h
      exact pointsInto_unexpected (htokens ▸ hself) h
    | some s =>
      simp only [hs] at h
      rcases bind_eq_error_iff.1 h with h | ⟨⟨as, rest⟩, hpairs, h⟩
      · exact pointsInto_readPairs hl (htokens ▸ hts) h
      · have hrest := List.Subset.trans (subset_of_readPairs hpairs) (htokens ▸ hts)
        dsimp only at h
        split_ifs at h
        · exact pointsInto_unexpected hrest h
        · rcases bind_eq_error_iff.1 h with h | ⟨_, -, h⟩
          · exact pointsInto_expectEnd hrest h
          · cases h

/-- The last number of a line, with what comes in front of it. -/
theorem pointsInto_readLast (hl : Readable l.tokens) (hts : ts ⊆ l.tokens) {σ : α}
    (h : (readNumber l ts >>= fun r => expectEnd l r.2 >>= fun _ => .ok (σ * r.1)) = .error e) :
    PointsInto l e := by
  rcases bind_eq_error_iff.1 h with h | ⟨⟨v, rest⟩, hnumber, h⟩
  · exact pointsInto_readNumber hl hts h
  · rcases bind_eq_error_iff.1 h with h | ⟨_, -, h⟩
    · exact pointsInto_expectEnd (List.Subset.trans (subset_of_readNumber hnumber) hts) h
    · cases h

/-- A right-hand side is refused with a place in its line. -/
theorem pointsInto_readRhs (hl : Readable l.tokens) (hts : ts ⊆ l.tokens)
    (h : readRhs l ts = .error e) : PointsInto l e := by
  by_cases hs : ∃ t ∈ ts.head?, ∃ σ : α, IsSign t.kind σ
  · obtain ⟨t, ht, σ, hs⟩ := hs
    obtain ⟨us, rfl⟩ := List.head?_eq_some_iff.1 ht
    rw [readRhs_of_isSign hs] at h
    exact pointsInto_readLast hl (List.subset_of_cons_subset hts) h
  · have hstop : ∀ t ∈ ts.head?, ∀ σ : α, ¬IsSign t.kind σ :=
      fun t ht σ hσ => hs ⟨t, ht, σ, hσ⟩
    rw [readRhs_of_stop hstop] at h
    exact pointsInto_readLast hl hts h

/-- The number of pairs that a line begins with. -/
def LeadingPairs (n : ℕ) (ks : List TokenKind) : Prop :=
  ∃ pairs rest, ks = pairs ++ rest ∧ Pairs n pairs ∧ ∀ k ∈ rest.head?, ¬(k = .plus ∨ k = .minus)

/-- The pairs that are read are as many as the line starts with. -/
theorem leadingPairs_of_readPairs (hl : Readable ts) {as : List α} {rest : List Token}
    (h : readPairs l ts = .ok (as, rest)) : LeadingPairs as.length (ts.map Token.kind) := by
  obtain ⟨us, rfl, hpairs, hstop⟩ := coefficients_of_readPairs h
  refine ⟨us.map Token.kind, rest.map Token.kind, List.map_append,
    (exists_coefficients_iff (List.forall_mem_append.1 hl).1).1 ⟨as, hpairs, rfl⟩, ?_⟩
  rw [List.head?_map]
  intro k hk
  obtain ⟨t, ht, rfl⟩ := Option.map_eq_some_iff.1 hk
  exact fun hsign => (exists_isSign_iff (α := α).2 hsign).elim (hstop t ht)

/-- The line has a number of coefficients that is not the one of the variables. -/
def Miscounts (n : ℕ) (l : Line) (e : ParseError α) : Prop :=
  ∃ found, found ≠ n ∧ LeadingPairs found (l.tokens.map Token.kind) ∧
    e = .coefficientCount l.number n found

/-- A constraint line is refused at a token or for the number of its coefficients. -/
theorem pointsInto_readConstraint {n : ℕ} (hl : Readable l.tokens)
    (h : readConstraint n l = .error e) : PointsInto l e ∨ Miscounts n l e := by
  rw [readConstraint] at h
  rcases bind_eq_error_iff.1 h with h | ⟨⟨as, rest⟩, hpairs, h⟩
  · exact .inl (pointsInto_readPairs hl (List.Subset.refl _) h)
  · have hrest := subset_of_readPairs hpairs
    dsimp only at h
    split_ifs at h with hlength
    · exact .inr ⟨as.length, hlength, leadingPairs_of_readPairs hl hpairs,
        (Except.error.inj h).symm⟩
    · refine .inl ?_
      cases rest with
      | nil => exact pointsInto_unexpected hrest h
      | cons t rest =>
        cases hr : relation? t.kind with
        | none =>
          simp only [hr] at h
          exact pointsInto_unexpected hrest h
        | some r =>
          simp only [hr] at h
          rcases bind_eq_error_iff.1 h with h | ⟨_, -, h⟩
          · exact pointsInto_readRhs hl (List.subset_of_cons_subset hrest) h
          · cases h

/-- A constraint that was read is added. -/
theorem pointsInto_addLine {p : Problem α} (hl : Readable l.tokens) (h : addLine p l = .error e) :
    PointsInto l e ∨ Miscounts p.numVariables l e := by
  rw [addLine] at h
  rcases bind_eq_error_iff.1 h with h | ⟨c, hread, h⟩
  · exact pointsInto_readConstraint hl h
  · cases (addConstraint_of_length (readConstraint_eq_ok_iff.1 hread).2).symm.trans h

/-! ## Roles -/

/-- The kinds of an objective line over `n` variables. -/
def IsObjective (n : ℕ) (ks : List TokenKind) : Prop :=
  ∃ sense pairs, ks = sense :: pairs ∧ (sense = .max ∨ sense = .min) ∧ 0 < n ∧ Pairs n pairs

/-- The kinds of a line that restricts `n` variables. -/
def IsRestrictions (n : ℕ) (ks : List TokenKind) : Prop :=
  ks.length = n ∧ ∀ k ∈ ks, k = .plus ∨ k = .minus ∨ k = .urs ∨ k = .int ∨ k = .bin

/-- Whether a line is read as an objective depends on the kinds of its tokens alone. -/
theorem exists_readObjective_iff {n : ℕ} (hl : Readable l.tokens) :
    (∃ p : Problem α, readObjective l = .ok p ∧ p.numVariables = n) ↔
      IsObjective n (l.tokens.map Token.kind) := by
  simp only [readObjective_eq_ok_iff]
  constructor
  · rintro ⟨_, ⟨s, as, hline, rfl⟩, rfl⟩
    rw [numVariables_ofObjective]
    generalize l.tokens = tokens at hl hline
    cases hline with
    | mk hsense hpairs hne =>
      exact ⟨_, _, List.map_cons, exists_isSense_iff.1 ⟨s, hsense⟩, List.length_pos_iff.2 hne,
        (exists_coefficients_iff (List.forall_mem_cons.1 hl).2).1 ⟨as, hpairs, rfl⟩⟩
  · rintro ⟨sense, pairs, hkinds, hsense, hpos, hpairs⟩
    obtain ⟨t, ts, htokens, rfl, rfl⟩ := List.map_eq_cons_iff.1 hkinds
    rw [htokens] at hl ⊢
    obtain ⟨s, hs⟩ := exists_isSense_iff.2 hsense
    obtain ⟨as, has, rfl⟩ :=
      (exists_coefficients_iff (α := α) (List.forall_mem_cons.1 hl).2).2 hpairs
    exact ⟨_, ⟨s, as, .mk hs has (List.length_pos_iff.1 hpos), rfl⟩, numVariables_ofObjective s as⟩

/-- Whether a line is read as a constraint depends on the kinds of its tokens alone. -/
theorem exists_addLine_iff {p : Problem α} (hl : Readable l.tokens) :
    (∃ q, addLine p l = .ok q) ↔ IsConstraint p.numVariables (l.tokens.map Token.kind) := by
  rw [← exists_constraintLine_iff (α := α) hl]
  simp only [addLine_eq_ok_iff]
  constructor
  · rintro ⟨_, c, hline, hlength, -⟩
    exact ⟨c, hline, hlength⟩
  · rintro ⟨c, hline, hlength⟩
    exact ⟨_, c, hline, hlength, rfl⟩

omit [Scalar α] in
/-- Whether a line is read as restrictions depends on the kinds of its tokens alone. -/
theorem exists_restrict_iff {p : Problem α} :
    (∃ q, restrict p l = .ok q) ↔ IsRestrictions p.numVariables (l.tokens.map Token.kind) := by
  simp only [restrict_eq_ok_iff]
  rw [IsRestrictions, List.length_map, List.forall_mem_map]
  constructor
  · rintro ⟨_, rs, hrs, hlength, -⟩
    refine ⟨hrs.length_eq.trans hlength, fun t ht => ?_⟩
    obtain ⟨r, hr, -⟩ := exists_forall₂_iff.1 ⟨rs, hrs, fun _ _ => trivial⟩ t ht
    exact exists_isRestriction_iff.1 ⟨r, hr⟩
  · rintro ⟨hlength, hkinds⟩
    obtain ⟨rs, hrs, -⟩ := exists_forall₂_iff.2 fun t ht =>
      (exists_isRestriction_iff.2 (hkinds t ht)).imp fun _ hr => And.intro hr trivial
    exact ⟨_, rs, hrs, hrs.length_eq.symm.trans hlength, rfl⟩

/-- Constraint lines are refused at the first one that is none. -/
theorem exists_of_foldlM_eq_error {β γ ε : Type} {f : β → γ → Except ε β} {xs : List γ} {b : β}
    {e : ε} (h : xs.foldlM f b = .error e) : ∃ front x rest b', xs = front ++ x :: rest ∧
      front.foldlM f b = .ok b' ∧ f b' x = .error e := by
  induction xs generalizing b with
  | nil => cases h
  | cons x xs ih =>
    rw [List.foldlM_cons] at h
    rcases bind_eq_error_iff.1 h with h | ⟨b', hb', h⟩
    · exact ⟨[], x, xs, b, rfl, rfl, h⟩
    · obtain ⟨front, y, rest, b'', rfl, hfront, hy⟩ := ih h
      exact ⟨x :: front, y, rest, b'', rfl, bind_eq_ok_iff.2 ⟨b', hb', hfront⟩, hy⟩

/-- Lines that were added are constraints, and none of them is a variable. -/
theorem isConstraint_of_foldlM {ls : List Line} {p q : Problem α}
    (hls : ∀ l ∈ ls, Readable l.tokens) (h : ls.foldlM addLine p = .ok q) :
    q.numVariables = p.numVariables ∧
      ∀ l ∈ ls, IsConstraint p.numVariables (l.tokens.map Token.kind) := by
  induction ls generalizing p with
  | nil =>
    cases h
    exact ⟨rfl, List.forall_mem_nil _⟩
  | cons l ls ih =>
    obtain ⟨hl, hls⟩ := List.forall_mem_cons.1 hls
    rw [List.foldlM_cons] at h
    obtain ⟨p', hline, h⟩ := bind_eq_ok_iff.1 h
    obtain ⟨c, -, -, rfl⟩ := addLine_eq_ok_iff.1 hline
    obtain ⟨hnum, hlines⟩ := ih hls h
    exact ⟨hnum, List.forall_mem_cons.2 ⟨(exists_addLine_iff hl).1 ⟨_, hline⟩, hlines⟩⟩

/-! ## Rows -/

/-- The kinds of the tokens of a row. -/
def Row.kinds (r : Row) : List TokenKind := r.content.map Token.kind

/-- A part of a text, at its place inside a row. -/
structure Quoted (cs : List Char) (r : Row) (part : List Char) (s : Span) : Prop where
  slice : Slice 0 cs s part
  start_lt_stop : s.start < s.stop
  start_le : r.start ≤ s.start
  stop_le : s.stop ≤ r.start + byteLength r.chars

/-- The error quotes a token of the row or points behind the last one. -/
inductive PointsAt (cs : List Char) (r : Row) : ParseError α → Prop
  | token {expected : Expectation} {part : List Char} {s : Span} (quoted : Quoted cs r part s) :
      PointsAt cs r (.unexpectedToken expected (some part) s)
  | restriction {part : List Char} {s : Span} (quoted : Quoted cs r part s) :
      PointsAt cs r (.unknownRestriction part s)
  | stop {expected : Expectation} {front rest : List Char} {s : Span}
      (chars : r.chars = front ++ rest) (vacant : Vacant rest) (slice : Slice 0 cs s [])
      (start : s.start = r.start + byteLength front) :
      PointsAt cs r (.unexpectedToken expected none s)

variable {cs : List Char} {r : Row}

/-- The content of a row is what is written of its tokens. -/
theorem exists_cut_content (r : Row) :
    ∃ ts, Cut r.start r.chars [] ts ∧ r.content = written ts := by
  obtain ⟨ts, hcut⟩ := exists_cut r.start r.chars
  refine ⟨ts, hcut, ?_⟩
  rw [Row.content, hcut.tokensFrom_eq, written, List.filter_append]
  exact List.append_nil _

/-- The numbers of a row have values. -/
theorem readable_content (r : Row) : Readable r.line.tokens := by
  obtain ⟨ts, hcut, hcontent⟩ := exists_cut_content r
  intro t ht
  rw [Row.line, hcontent] at ht
  exact (hcut.proper t (List.mem_filter.1 ht).1).numeral

/-- Slices of a row are slices of the text. -/
theorem Row.Stands.slice (hr : r.Stands cs) {s : Span} {part : List Char}
    (h : Slice r.start r.chars s part) : Slice 0 cs s part := by
  obtain ⟨after, rfl, -⟩ := hr.behind
  rw [List.append_assoc]
  refine Slice.append_left r.before ((Nat.zero_add (byteLength r.before)).symm ▸ ?_)
  exact h.append_right after

/-- A token of a row is quoted from it. -/
theorem Row.Stands.quoted (hr : r.Stands cs) {t : Token} (ht : t ∈ r.line.tokens) :
    Quoted cs r t.text t.span := by
  obtain ⟨ts, hcut, hcontent⟩ := exists_cut_content r
  rw [Row.line, hcontent] at ht
  obtain ⟨hne, hslice⟩ := hcut.slice t (List.mem_filter.1 ht).1
  exact ⟨hr.slice hslice, hslice.start_lt_stop hne, hslice.bounds.1, hslice.bounds.2.2⟩

/-- Behind the last token of a row there is nothing but blanks and a comment. -/
theorem Cut.exists_vacant {position : ℕ} (h : Cut position cs [] ts) (hcs : '\n' ∉ cs) {t : Token}
    (ht : (written ts).getLast? = some t) :
    ∃ front rest, cs = front ++ rest ∧ Vacant rest ∧ t.span.stop = position + byteLength front := by
  generalize hbehind : ([] : List Char) = behind at h
  induction h with
  | blanks => cases ht
  | @token position gap further rest behind c kind ts hgap hc hread hlater ih =>
    subst hbehind
    have hrest : '\n' ∉ rest := fun h => hcs (List.mem_append_right _ h)
    have hwritten : written (tokensFrom (position + byteLength (gap ++ c :: further)) rest) =
        written ts := by
      rw [hlater.tokensFrom_eq, written, List.filter_append]
      exact List.append_nil _
    have hbelow : (written ts).getLast? = some t → ∃ front below,
        gap ++ c :: further ++ rest = front ++ below ∧ Vacant below ∧
          t.span.stop = position + byteLength front := by
      intro hlast
      obtain ⟨front, below, rfl, hvacant, hstop⟩ := ih hrest hlast rfl
      refine ⟨gap ++ c :: further ++ front, below, (List.append_assoc ..).symm, hvacant, ?_⟩
      rw [hstop, byteLength_append (gap ++ c :: further), Nat.add_assoc]
    rw [written, List.filter_cons] at ht
    split_ifs at ht
    · cases hts : written ts with
      | nil =>
        change ((_ : Token) :: written ts).getLast? = some t at ht
        rw [hts] at ht
        cases ht
        exact ⟨gap ++ c :: further, rest, rfl,
          (written_tokensFrom_eq_nil_iff hrest).1 (hwritten.trans hts), rfl⟩
      | cons u us =>
        refine hbelow ?_
        change ((_ : Token) :: written ts).getLast? = some t at ht
        rwa [hts, List.getLast?_cons_cons, ← hts] at ht
    · exact hbelow ht

omit [Scalar α] in
/-- A place in the line of a row is a place in the row. -/
theorem Row.Stands.pointsAt (hr : r.Stands cs) (hvacant : ¬Vacant r.chars)
    (h : PointsInto r.line e) : PointsAt cs r e := by
  cases h with
  | token ht => exact .token (hr.quoted ht)
  | restriction ht => exact .restriction (hr.quoted ht)
  | stop =>
    obtain ⟨ts, hcut, hcontent⟩ := exists_cut_content r
    have hne : r.content ≠ [] := fun h =>
      hvacant ((written_tokensFrom_eq_nil_iff hr.newline).1 h)
    obtain ⟨t, ht⟩ := List.getLast?_isSome.2 hne |> Option.isSome_iff_exists.1
    obtain ⟨front, rest, hchars, hrest, hstop⟩ :=
      hcut.exists_vacant hr.newline (hcontent ▸ ht)
    have hspan : r.line.stop =
        ⟨r.start + byteLength front, r.start + byteLength (front ++ [])⟩ := by
      have hlast : r.line.tokens.getLast? = some t := ht
      rw [Line.stop, hlast, List.append_nil, ← hstop]
      rfl
    exact .stop hchars hrest
      (hr.slice ⟨front, rest, by rw [hchars, List.append_nil], hspan⟩) (by rw [hspan])

/-- The rows of a text do not make up a problem: the first that is not what it should be is
blamed. -/
inductive Misfit (cs : List Char) (first : Row) (middle : List Row) (last : Row) :
    ParseError α → Prop
  | objective {e : ParseError α} (misfit : ∀ n, ¬IsObjective n first.kinds)
      (points : PointsAt cs first e) : Misfit cs first middle last e
  | constraint {n : ℕ} {front rest : List Row} {r : Row} {e : ParseError α}
      (objective : IsObjective n first.kinds) (split : middle = front ++ r :: rest)
      (constraints : ∀ r ∈ front, IsConstraint n r.kinds) (misfit : ¬IsConstraint n r.kinds)
      (points : PointsAt cs r e ∨ Miscounts n r.line e) : Misfit cs first middle last e
  | restrictions {n : ℕ} {e : ParseError α} (objective : IsObjective n first.kinds)
      (constraints : ∀ r ∈ middle, IsConstraint n r.kinds) (misfit : ¬IsRestrictions n last.kinds)
      (points : PointsAt cs last e ∨
        last.kinds.length ≠ n ∧ e = .restrictionCount n last.kinds.length) :
      Misfit cs first middle last e

/-- How a text is refused. -/
structure Refused (cs : List Char) (e : ParseError α) : Prop where
  unexpectedEnd : e = .unexpectedEnd ↔ writtenRows cs = []
  missingLines : e = .missingLines ↔ ∃ r, writtenRows cs = [r]
  misfit : ∀ first middle last, writtenRows cs = first :: (middle ++ [last]) →
    Misfit cs first middle last e
  stands : ∀ r ∈ writtenRows cs, r.Stands cs
  invalidNumber : ∀ text, e ≠ .invalidNumber text
  problem : ∀ error, e ≠ .problem error

omit [Scalar α] in
/-- What is said of a row is none of the other errors. -/
theorem Misfit.shape {first last : Row} {middle : List Row} (h : Misfit cs first middle last e) :
    e ≠ .unexpectedEnd ∧ e ≠ .missingLines ∧ (∀ text, e ≠ .invalidNumber text) ∧
      ∀ error, e ≠ .problem error := by
  have hpoints : ∀ {r : Row}, PointsAt cs r e → e ≠ .unexpectedEnd ∧ e ≠ .missingLines ∧
      (∀ text, e ≠ .invalidNumber text) ∧ ∀ error, e ≠ .problem error := by
    rintro r (_ | _ | _) <;> exact ⟨nofun, nofun, nofun, nofun⟩
  cases h with
  | objective _ points => exact hpoints points
  | constraint _ _ _ _ points =>
    rcases points with points | ⟨found, -, -, rfl⟩
    · exact hpoints points
    · exact ⟨nofun, nofun, nofun, nofun⟩
  | restrictions _ _ _ points =>
    rcases points with points | ⟨-, rfl⟩
    · exact hpoints points
    · exact ⟨nofun, nofun, nofun, nofun⟩

/-- Rows that were read in vain have one that is blamed. -/
theorem misfit_of_readLines {first last : Row} {middle : List Row}
    (hrows : ∀ r ∈ first :: (middle ++ [last]), r.Stands cs ∧ ¬Vacant r.chars)
    (h : readLines ((first :: (middle ++ [last])).map Row.line) = .error e) :
    Misfit cs first middle last e := by
  obtain ⟨hfirst, htail⟩ := List.forall_mem_cons.1 hrows
  obtain ⟨hmiddle, hlast⟩ := List.forall_mem_append.1 htail
  rw [List.map_cons, List.map_append, List.map_cons, List.map_nil, readLines_concat] at h
  rcases bind_eq_error_iff.1 h with h | ⟨p, hp, h⟩
  · refine .objective (fun n hobjective => ?_)
      (hfirst.1.pointsAt hfirst.2 (pointsInto_readObjective (readable_content first) h))
    obtain ⟨p, hp, -⟩ :=
      (exists_readObjective_iff (α := α) (readable_content first)).2 hobjective
    cases hp.symm.trans h
  have hobjective : IsObjective p.numVariables first.kinds :=
    (exists_readObjective_iff (readable_content first)).1 ⟨p, hp, rfl⟩
  rcases bind_eq_error_iff.1 h with h | ⟨q, hq, h⟩
  · obtain ⟨front, l, rest, q, hsplit, hfront, h⟩ := exists_of_foldlM_eq_error h
    obtain ⟨front, rest, rfl, rfl, hrest⟩ := List.map_eq_append_iff.1 hsplit
    obtain ⟨r, rest, rfl, rfl, rfl⟩ := List.map_eq_cons_iff.1 hrest
    obtain ⟨hstands, hvacant⟩ := hmiddle r (List.mem_append_right _ List.mem_cons_self)
    obtain ⟨hnum, hlines⟩ := isConstraint_of_foldlM
      (List.forall_mem_map.2 fun r _ => readable_content r) hfront
    rw [← hnum] at hobjective hlines
    have hconstraints : ∀ r ∈ front, IsConstraint q.numVariables r.kinds :=
      fun r hr => hlines _ (List.mem_map_of_mem hr)
    refine .constraint hobjective rfl hconstraints (fun hfits => ?_)
      ((pointsInto_addLine (readable_content r) h).imp_left (hstands.pointsAt hvacant))
    obtain ⟨_, hok⟩ := (exists_addLine_iff (readable_content r)).2 hfits
    cases hok.symm.trans h
  · obtain ⟨hnum, hlines⟩ := isConstraint_of_foldlM
      (List.forall_mem_map.2 fun r _ => readable_content r) hq
    obtain ⟨hstands, hvacant⟩ := hlast last (List.mem_singleton_self last)
    rw [← hnum] at hobjective hlines
    have hconstraints : ∀ r ∈ middle, IsConstraint q.numVariables r.kinds :=
      fun r hr => hlines _ (List.mem_map_of_mem hr)
    refine .restrictions hobjective hconstraints (fun hfits => ?_)
      ((pointsInto_restrict h).imp (hstands.pointsAt hvacant) ?_)
    · obtain ⟨_, hok⟩ := (exists_restrict_iff (p := q) (l := last.line)).2 hfits
      cases hok.symm.trans h
    · rw [Row.kinds, List.length_map]
      exact id

/-- An error says where the text is refused: it has no line or only one, or its first line that is
not what it should be is blamed. -/
theorem parse_error {text : String} (h : parse text = .error e) : Refused text.toList e := by
  have hstands : ∀ r ∈ writtenRows text.toList, r.Stands text.toList ∧ ¬Vacant r.chars :=
    fun r hr => ⟨stands_of_mem_writtenRows hr, by simpa using (List.mem_filter.1 hr).2⟩
  rw [parse, lines_tokens] at h
  cases hrows : writtenRows text.toList with
  | nil =>
    rw [hrows] at h
    cases h
    exact ⟨iff_of_true rfl hrows, iff_of_false (by rintro ⟨⟩) (by simp [hrows]), by simp [hrows],
      fun r hr => (hstands r hr).1, by rintro _ ⟨⟩, by rintro _ ⟨⟩⟩
  | cons first rest =>
    rcases List.eq_nil_or_concat rest with rfl | ⟨middle, last, rfl⟩
    · rw [hrows] at h
      cases h
      exact ⟨iff_of_false (by rintro ⟨⟩) (by simp [hrows]), iff_of_true rfl ⟨first, hrows⟩,
        by simp [hrows], fun r hr => (hstands r hr).1, by rintro _ ⟨⟩, by rintro _ ⟨⟩⟩
    · rw [List.concat_eq_append] at hrows
      have hmisfit := misfit_of_readLines (hrows ▸ hstands) (hrows ▸ h)
      obtain ⟨hend, hmissing, hnumber, hproblem⟩ := hmisfit.shape
      refine ⟨iff_of_false hend (by simp [hrows]), iff_of_false hmissing (by simp [hrows]), ?_,
        fun r hr => (hstands r hr).1, hnumber, hproblem⟩
      intro first' middle' last' hrows'
      obtain ⟨rfl, htail⟩ := List.cons.inj (hrows.symm.trans hrows')
      obtain ⟨rfl, hlast⟩ := List.append_inj' htail rfl
      obtain rfl := List.singleton_inj.1 hlast
      exact hmisfit

/-- The third row has no relation; its place counts the bytes of the comment above it. -/
theorem parse_error_relation :
    parse "max + 1\n// größe\n+ 1 ≤ 4\n+" =
        .error (.unexpectedToken .relation (some ['≤']) ⟨23, 26⟩ : ParseError ℚ) ∧
      Refused "max + 1\n// größe\n+ 1 ≤ 4\n+".toList
        (.unexpectedToken .relation (some ['≤']) ⟨23, 26⟩ : ParseError ℚ) := by
  have hlines : lines (tokens "max + 1\n// größe\n+ 1 ≤ 4\n+") =
      [⟨1, [⟨.max, ⟨0, 3⟩, ['m', 'a', 'x']⟩, ⟨.plus, ⟨4, 5⟩, ['+']⟩, ⟨.number, ⟨6, 7⟩, ['1']⟩]⟩,
        ⟨3, [⟨.plus, ⟨19, 20⟩, ['+']⟩, ⟨.number, ⟨21, 22⟩, ['1']⟩, ⟨.error, ⟨23, 26⟩, ['≤']⟩,
          ⟨.number, ⟨27, 28⟩, ['4']⟩]⟩,
        ⟨4, [⟨.plus, ⟨29, 30⟩, ['+']⟩]⟩] := by
    decide +kernel
  have hparse : parse "max + 1\n// größe\n+ 1 ≤ 4\n+" =
      .error (.unexpectedToken .relation (some ['≤']) ⟨23, 26⟩ : ParseError ℚ) := by
    rw [parse, hlines]
    rfl
  exact ⟨hparse, parse_error hparse⟩

end LinOpt.ProblemText
