import LinOpt.ProblemText.Parser
import LinOpt.Proofs.ProblemText.Span

/-!
# Rows of a text

Newlines separate the rows of a text. No token goes over the end of a row, so that each row has
tokens of its own (`ProblemText.Cut.newline`), and the lines that are read are the rows that are not
vacant, with their numbers (`ProblemText.lines_tokens`): a row is vacant if it has nothing but
blanks and a comment.
-/

namespace LinOpt.ProblemText

/-- A row without its newline, and the text before it. -/
structure Row where
  before : List Char
  chars : List Char

/-- Rows are counted from one. -/
def Row.number (r : Row) : ℕ := r.before.count '\n' + 1

/-- Bytes of the text before a row. -/
def Row.start (r : Row) : ℕ := byteLength r.before

/-- The rows of a text behind another one, from inside a row on. -/
def rowsFrom (before current : List Char) : List Char → List Row
  | [] => [⟨before, current⟩]
  | c :: cs =>
    if c = '\n' then ⟨before, current⟩ :: rowsFrom (before ++ current ++ [c]) [] cs
    else rowsFrom before (current ++ [c]) cs

/-- The rows of a text. -/
def rows (cs : List Char) : List Row := rowsFrom [] [] cs

/-- Nothing but blanks and a comment. -/
def Vacant (cs : List Char) : Prop :=
  cs.dropWhile isBlank = [] ∨ ['/', '/'] <+: cs.dropWhile isBlank

instance : DecidablePred Vacant := fun _ => inferInstanceAs (Decidable (_ ∨ _))

/-- The rows that something is written in. -/
def writtenRows (cs : List Char) : List Row := (rows cs).filter fun r => ¬Vacant r.chars

/-- The tokens of a line, without comments. -/
def written (ts : List Token) : List Token := ts.filter fun t => t.kind ≠ .comment ∧ t.kind ≠ .eof

/-- The tokens that are written in a row. -/
def Row.content (r : Row) : List Token := written (tokensFrom r.start r.chars)

/-- The line that a row is read as. -/
def Row.line (r : Row) : Line := ⟨r.number, r.content⟩

variable {cs row : List Char} {t : Token} {ts us : List Token} {position : ℕ}

/-! ## Newlines and comments -/

/-- The end of a line is a newline. -/
theorem eq_of_readToken_newline {c : Char} {rest : List Char}
    (h : (readToken c rest).1 = .newline) : c = '\n' := by
  have hreads := reads_readToken c rest
  generalize readToken c rest = r at h hreads
  cases hreads with
  | newline hc => exact hc
  | comment | number | error => cases h
  | single hmem | comparison hmem | word hmem =>
    exact absurd h (ne_of_mem_of_not_mem hmem (by decide))

/-- A comment begins with two slashes. -/
theorem eq_of_readToken_comment {c : Char} {rest : List Char}
    (h : (readToken c rest).1 = .comment) : c = '/' ∧ rest.head? = some '/' := by
  have hreads := reads_readToken c rest
  generalize readToken c rest = r at h hreads
  cases hreads with
  | comment hc hnext => exact ⟨hc, hnext⟩
  | newline | number | error => cases h
  | single hmem | comparison hmem | word hmem =>
    exact absurd h (ne_of_mem_of_not_mem hmem (by decide))

/-- A text without newlines has none among its tokens. -/
theorem Cut.kind_ne_newline {behind : List Char} (h : Cut position cs behind ts)
    (hcs : '\n' ∉ cs) : ∀ t ∈ ts, t.kind ≠ .newline := by
  induction h with
  | blanks => exact List.forall_mem_nil _
  | @token position gap further rest behind c kind ts hgap hc hread _ ih =>
    simp only [List.mem_append, List.mem_cons, not_or] at hcs
    refine List.forall_mem_cons.2 ⟨fun hkind => ?_, ih hcs.2⟩
    exact hcs.1.2.1 (eq_of_readToken_newline (by rw [hread]; exact hkind)).symm

/-- The newline at a place. -/
def newlineAt (position : ℕ) : Token := ⟨.newline, ⟨position, position + 1⟩, ['\n']⟩

/-- A row has tokens of its own. -/
theorem Cut.newline (h : Cut position cs [] ts) (rest : List Char) :
    tokensFrom position (cs ++ '\n' :: rest) =
      ts ++ newlineAt (position + byteLength cs) ::
        tokensFrom (position + byteLength cs + 1) rest := by
  have hnewline : ∀ c ∈ ('\n' :: rest).head?, c = '\n' := fun c hc => (Option.some.inj hc).symm
  have hcut := h.exchange (inert_of_newline hnewline) fun t _ => closes_of_newline hnewline t.kind
  rw [hcut.tokensFrom_append]
  exact congrArg (ts ++ ·) (@tokensFrom_cons [] rest '\n' .newline rfl rfl _)

/-! ## Vacant rows -/

/-- Text begins with two slashes if its first character is one and so is the next. -/
theorem prefix_slashes_iff {c : Char} {rest : List Char} :
    ['/', '/'] <+: c :: rest ↔ c = '/' ∧ rest.head? = some '/' := by
  rw [List.cons_prefix_cons, List.singleton_prefix_iff_head?_eq_some, eq_comm]

/-- A comment goes to the end of its row. -/
theorem readToken_comment {rest : List Char} (hslash : rest.head? = some '/')
    (hrest : '\n' ∉ rest) : readToken '/' rest = (.comment, rest.length) := by
  have hall : rest.takeWhile (· ≠ '\n') = rest :=
    List.takeWhile_eq_self_iff.2 fun c hc => decide_eq_true fun h => hrest (h ▸ hc)
  rw [readToken_slash, if_pos hslash, hall]

/-- A row is vacant if no token but a comment is in it. -/
theorem written_tokensFrom_eq_nil_iff (hcs : '\n' ∉ cs) :
    written (tokensFrom position cs) = [] ↔ Vacant cs := by
  cases hdrop : cs.dropWhile isBlank with
  | nil =>
    rw [tokensFrom_of_nil hdrop]
    exact iff_of_true rfl (.inl hdrop)
  | cons c rest =>
    rw [Vacant, hdrop, prefix_slashes_iff]
    by_cases hslash : c = '/' ∧ rest.head? = some '/'
    · obtain ⟨rfl, hhead⟩ := hslash
      have hrest : '\n' ∉ rest := fun h =>
        hcs ((List.dropWhile_suffix _).subset (hdrop ▸ List.mem_cons_of_mem _ h))
      have hread := readToken_comment hhead hrest
      rw [← List.append_nil rest] at hdrop
      rw [tokensFrom_of_cons hdrop (by rwa [List.append_nil]), tokensFrom_of_nil List.dropWhile_nil]
      exact iff_of_true rfl (.inr ⟨rfl, hhead⟩)
    · obtain ⟨kind, further, behind, rfl, hread⟩ := exists_readToken_eq c rest
      have hcomment : kind ≠ .comment := by
        rintro rfl
        exact hslash (eq_of_readToken_comment (congrArg Prod.fst hread))
      have heof : kind ≠ .eof := by
        have hproper := (proper_readToken c (further ++ behind) ⟨0, 0⟩).kind_ne
        rwa [hread] at hproper
      rw [tokensFrom_of_cons hdrop hread, written,
        List.filter_cons_of_pos (by simp [hcomment, heof])]
      refine iff_of_false (List.cons_ne_nil _ _) ?_
      rintro (h | h)
      · exact List.cons_ne_nil _ _ h
      · exact hslash h

/-! ## Lines -/

/-- Tokens up to the end of a line are one line, unless nothing is written in it. -/
theorem linesFrom_append (hts : ∀ u ∈ ts, u.kind ≠ .newline ∧ u.kind ≠ .eof)
    (ht : t.kind = .newline ∨ t.kind = .eof) (number : ℕ) (current us : List Token) :
    linesFrom number current (ts ++ t :: us) =
      if current ++ written ts = [] then linesFrom (number + 1) [] us
      else ⟨number, current ++ written ts⟩ :: linesFrom (number + 1) [] us := by
  induction ts generalizing current with
  | nil =>
    have hcurrent : current ++ written [] = current := List.append_nil current
    rw [List.nil_append, linesFrom, hcurrent]
    rcases ht with ht | ht <;> rw [ht] <;> cases current <;> rfl
  | cons u ts ih =>
    obtain ⟨⟨hnewline, heof⟩, hts⟩ := List.forall_mem_cons.1 hts
    rw [List.cons_append, linesFrom]
    cases hkind : u.kind with
    | newline => exact absurd hkind hnewline
    | eof => exact absurd hkind heof
    | comment =>
      have hwritten : written (u :: ts) = written ts := List.filter_cons_of_neg (by simp [hkind])
      rw [hwritten]
      exact ih hts current
    | _ =>
      have hwritten : current ++ written (u :: ts) = current ++ [u] ++ written ts := by
        rw [written, List.filter_cons_of_pos (by simp [hkind]), List.append_assoc]
        rfl
      rw [hwritten]
      exact ih hts (current ++ [u])

/-- Texts row by row. -/
@[elab_as_elim]
theorem rows_induction {P : List Char → Prop} (last : ∀ row, '\n' ∉ row → P row)
    (next : ∀ row rest, '\n' ∉ row → P rest → P (row ++ '\n' :: rest)) (cs : List Char) : P cs := by
  induction hn : cs.length using Nat.strong_induction_on generalizing cs with
  | _ n ih =>
    by_cases hmem : '\n' ∈ cs
    · obtain ⟨row, rest, rfl, hrow⟩ := List.eq_append_cons_of_mem hmem
      have hlt : rest.length < n := by
        rw [← hn, List.length_append, List.length_cons]
        omega
      exact next row rest hrow (ih _ hlt rest rfl)
    · exact last cs hmem

/-- Characters other than newlines go on with the row. -/
theorem rowsFrom_append (hrow : '\n' ∉ row) (before current : List Char) :
    rowsFrom before current (row ++ cs) = rowsFrom before (current ++ row) cs := by
  induction row generalizing current with
  | nil => rw [List.nil_append, List.append_nil]
  | cons c row ih =>
    obtain ⟨hc, hrow⟩ := not_or.1 (mt List.mem_cons.2 hrow)
    rw [List.cons_append, rowsFrom, if_neg (Ne.symm hc), ih hrow, List.append_assoc,
      List.singleton_append]

/-- Text without a newline is one row. -/
theorem rowsFrom_of_notMem (hrow : '\n' ∉ row) (before : List Char) :
    rowsFrom before [] row = [⟨before, row⟩] := by
  have happend : rowsFrom before [] (row ++ []) = _ := rowsFrom_append hrow before []
  rwa [List.append_nil] at happend

/-- A newline ends a row. -/
theorem rowsFrom_newline (hrow : '\n' ∉ row) (before : List Char) :
    rowsFrom before [] (row ++ '\n' :: cs) =
      ⟨before, row⟩ :: rowsFrom (before ++ row ++ ['\n']) [] cs :=
  rowsFrom_append hrow before []

/-- A row of a text stands between newlines. -/
structure Row.Stands (cs : List Char) (r : Row) : Prop where
  newline : '\n' ∉ r.chars
  before : ∀ c ∈ r.before.getLast?, c = '\n'
  behind : ∃ after, cs = r.before ++ r.chars ++ after ∧ ∀ c ∈ after.head?, c = '\n'

/-- Every row stands in the text, between newlines. -/
theorem stands_of_mem_rowsFrom {r : Row} {before : List Char}
    (hbefore : ∀ c ∈ before.getLast?, c = '\n') (hr : r ∈ rowsFrom before [] cs) :
    r.Stands (before ++ cs) := by
  induction cs using rows_induction generalizing before with
  | last row hrow =>
    rw [rowsFrom_of_notMem hrow, List.mem_singleton] at hr
    subst hr
    exact ⟨hrow, hbefore, [], (List.append_nil _).symm, nofun⟩
  | next row rest hrow ih =>
    rw [rowsFrom_newline hrow] at hr
    rcases List.mem_cons.1 hr with rfl | hr
    · refine ⟨hrow, hbefore, '\n' :: rest, (List.append_assoc ..).symm, ?_⟩
      rintro c ⟨⟩
      rfl
    · have hlast : ∀ c ∈ (before ++ row ++ ['\n']).getLast?, c = '\n' := by
        rw [List.getLast?_concat]
        rintro c ⟨⟩
        rfl
      have hstands := ih hlast hr
      rwa [List.append_assoc, List.append_assoc, List.singleton_append] at hstands

/-- So does every row in which something is written. -/
theorem stands_of_mem_writtenRows {r : Row} (hr : r ∈ writtenRows cs) : r.Stands cs :=
  show r.Stands ([] ++ cs) from stands_of_mem_rowsFrom nofun (List.mem_filter.1 hr).1

/-- The line of a row, in front of those of the rows below. -/
theorem linesFrom_row (hrow : '\n' ∉ row) (hcut : Cut position row [] ts)
    (ht : t.kind = .newline ∨ t.kind = .eof) (number : ℕ) (us : List Token) :
    linesFrom number [] (ts ++ t :: us) =
      if Vacant row then linesFrom (number + 1) [] us
      else ⟨number, written (tokensFrom position row)⟩ :: linesFrom (number + 1) [] us := by
  have hwritten : written (tokensFrom position row) = written ts := by
    rw [hcut.tokensFrom_eq, written, List.filter_append]
    exact List.append_nil _
  have hts : ∀ u ∈ ts, u.kind ≠ .newline ∧ u.kind ≠ .eof := fun u hu =>
    ⟨hcut.kind_ne_newline hrow u hu, (hcut.proper u hu).kind_ne⟩
  rw [linesFrom_append hts ht, List.nil_append, ← hwritten]
  simp only [written_tokensFrom_eq_nil_iff hrow]

/-- The lines of a text behind another one are the rows of it that are written. -/
theorem linesFrom_tokensFrom (before cs : List Char) :
    linesFrom (before.count '\n' + 1) [] (tokensFrom (byteLength before) cs) =
      ((rowsFrom before [] cs).filter fun r => ¬Vacant r.chars).map Row.line := by
  induction cs using rows_induction generalizing before with
  | last row hrow =>
    obtain ⟨ts, hcut⟩ := exists_cut (byteLength before) row
    rw [hcut.tokensFrom_eq, linesFrom_row hrow hcut (.inr rfl), rowsFrom_of_notMem hrow,
      List.filter_singleton]
    by_cases hvacant : Vacant row
    · simp [hvacant, linesFrom]
    · simp [hvacant, linesFrom, Row.line, Row.number, Row.content, Row.start]
  | next row rest hrow ih =>
    obtain ⟨ts, hcut⟩ := exists_cut (byteLength before) row
    have hlater := ih (before ++ row ++ ['\n'])
    have hcount : (before ++ row ++ ['\n']).count '\n' = before.count '\n' + 1 := by
      rw [List.count_append, List.count_append, List.count_eq_zero.2 hrow,
        List.count_singleton_self]
    have hlength : byteLength (before ++ row ++ ['\n']) =
        byteLength before + byteLength row + 1 := by
      rw [byteLength_append, byteLength_append]
      rfl
    rw [hcount, hlength] at hlater
    rw [hcut.newline, linesFrom_row hrow hcut (.inl rfl), hlater, rowsFrom_newline hrow,
      List.filter_cons]
    by_cases hvacant : Vacant row
    · simp [hvacant]
    · simp [hvacant, Row.line, Row.number, Row.content, Row.start]

/-- The lines that are read are the rows that are written, each with its own tokens. -/
theorem lines_tokens (text : String) :
    lines (tokens text) = (writtenRows text.toList).map Row.line :=
  linesFrom_tokensFrom [] text.toList

end LinOpt.ProblemText
