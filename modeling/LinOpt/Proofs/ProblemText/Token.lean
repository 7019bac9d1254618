import LinOpt.Proofs.ProblemText.Numeral

/-!
# Tokens of a text

The last token is the end of the text and no other token is, and the tokens that are numbers are
written as numerals (`ProblemText.exists_tokensFrom_eq`). `ProblemText.Reads` lists what can be read
from a character on.
-/

namespace LinOpt.ProblemText

open Decimal (Numeral)

/-! ## One token -/

/-- The kinds that words have. -/
theorem wordKind_mem (word : List Char) :
    wordKind word ∈ [TokenKind.max, .min, .urs, .int, .bin, .ident] := by
  unfold wordKind
  split_ifs <;> decide

/-- What can be read from a character on, with the number of characters behind it. -/
inductive Reads (c : Char) (rest : List Char) : TokenKind × ℕ → Prop
  | newline (first : c = '\n') : Reads c rest (.newline, 0)
  | comment (first : c = '/') (next : rest.head? = some '/') :
      Reads c rest (.comment, (rest.takeWhile (· ≠ '\n')).length)
  | single {kind : TokenKind} (mem : kind ∈ [TokenKind.plus, .minus, .eq]) : Reads c rest (kind, 0)
  | comparison {kind : TokenKind} (mem : kind ∈ [TokenKind.le, .ge])
      (next : rest.head? = some '=') : Reads c rest (kind, 1)
  | number (start : (c.isDigit || (c = '.' && startsWithDigit rest)) = true) :
      Reads c rest (.number, numberLength (c :: rest) - 1)
  | word {kind : TokenKind} (mem : kind ∈ [TokenKind.max, .min, .urs, .int, .bin, .ident]) :
      Reads c rest (kind, (rest.takeWhile isWordPart).length)
  | error : Reads c rest (.error, 0)

/-- What a comparison reads. -/
theorem reads_comparison {c : Char} {kind : TokenKind} (h : kind ∈ [TokenKind.le, .ge])
    (rest : List Char) : Reads c rest (comparison kind rest) := by
  unfold comparison
  split
  · exact .comparison h rfl
  · exact .error

/-- What reading a token gives at every first character. -/
theorem reads_readToken (c : Char) (rest : List Char) : Reads c rest (readToken c rest) := by
  unfold readToken
  refine iteInduction .newline fun _ => ?_
  refine iteInduction (fun h => .comment h.1 h.2) fun _ => ?_
  refine iteInduction (fun _ => .single (by decide)) fun _ => ?_
  refine iteInduction (fun _ => .single (by decide)) fun _ => ?_
  refine iteInduction (fun _ => .single (by decide)) fun _ => ?_
  refine iteInduction (fun _ => reads_comparison (by decide) rest) fun _ => ?_
  refine iteInduction (fun _ => reads_comparison (by decide) rest) fun _ => ?_
  refine iteInduction .number fun _ => ?_
  exact iteInduction (fun _ => .word (wordKind_mem _)) fun _ => .error

/-! ## All tokens -/

/-- The token is not the end of the text, and if it is a number it is written as one. -/
structure Proper (t : Token) : Prop where
  kind_ne : t.kind ≠ .eof
  numeral : t.kind = .number → ∃ d, Numeral t.text d

/-- Every token that is read is of a kind that fits its text. -/
theorem proper_readToken (c : Char) (rest : List Char) (span : Span) :
    Proper ⟨(readToken c rest).1, span, c :: rest.take (readToken c rest).2⟩ := by
  have hreads := reads_readToken c rest
  generalize readToken c rest = r at hreads
  have hother : r.1 ≠ .eof → r.1 ≠ .number → Proper ⟨r.1, span, c :: rest.take r.2⟩ :=
    fun heof hnumber => ⟨heof, fun h => absurd h hnumber⟩
  cases hreads with
  | newline | comment | error => exact hother nofun nofun
  | single hmem | comparison hmem | word hmem =>
    exact hother (ne_of_mem_of_not_mem hmem (by decide)) (ne_of_mem_of_not_mem hmem (by decide))
  | number hstart =>
    refine ⟨nofun, fun _ => ?_⟩
    obtain ⟨d, hd⟩ := exists_numeral hstart
    have hpos : 0 < numberLength (c :: rest) := by
      refine Nat.pos_of_ne_zero fun hzero => hd.ne_nil ?_
      rw [hzero, List.take_zero]
    refine ⟨d, ?_⟩
    rwa [← List.take_succ_cons, Nat.sub_add_cancel hpos]

end LinOpt.ProblemText
