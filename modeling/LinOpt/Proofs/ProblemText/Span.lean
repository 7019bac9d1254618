import Mathlib.Data.String.Basic
import Mathlib.Data.List.Chain
import LinOpt.Proofs.ProblemText.Lookahead

/-!
# Places of tokens

The tokens of a text and the blanks between them make up the text (`ProblemText.Cut`): every token
stands where its span says (`ProblemText.Cut.slice`), behind the one before it, with blanks between
them. What a part of a text is cut into does not depend on the text behind it as long as the last
token is not continued by it (`ProblemText.Cut.exchange`), so that each token is found again where
its text stands alone. `ProblemText.tokens_lossless` says all of this of a text.
-/

namespace LinOpt.ProblemText

/-! ## Bytes -/

@[simp] theorem byteLength_append (cs ds : List Char) :
    byteLength (cs ++ ds) = byteLength cs + byteLength ds := by
  induction cs with
  | nil => exact (Nat.zero_add _).symm
  | cons c cs ih => rw [List.cons_append, byteLength, byteLength, ih, Nat.add_assoc]

/-- The bytes of the characters of a string are those of the string. -/
theorem byteLength_toList (text : String) : byteLength text.toList = text.utf8ByteSize := by
  have hlen : ∀ cs, byteLength cs = String.utf8Len cs := by
    intro cs
    induction cs with
    | nil => rfl
    | cons c cs ih => rw [byteLength, String.utf8Len_cons, ih, Nat.add_comm]
  rw [hlen, ← String.utf8ByteSize_ofList, String.ofList_toList]

/-- Text that is not empty has bytes. -/
theorem byteLength_pos {cs : List Char} (h : cs ≠ []) : 0 < byteLength cs := by
  cases cs with
  | nil => exact absurd rfl h
  | cons c cs => exact Nat.add_pos_left c.utf8Size_pos _

/-- In a text that starts at a position, a part stands at a span: it starts and stops between
characters. -/
def Slice (position : ℕ) (cs : List Char) (s : Span) (part : List Char) : Prop :=
  ∃ before after, cs = before ++ part ++ after ∧
    s = ⟨position + byteLength before, position + byteLength (before ++ part)⟩

variable {position : ℕ} {cs part : List Char} {s : Span}

/-- A slice stays one, further on, when text comes before. -/
theorem Slice.append_left (before : List Char)
    (h : Slice (position + byteLength before) cs s part) :
    Slice position (before ++ cs) s part := by
  obtain ⟨front, after, rfl, rfl⟩ := h
  refine ⟨before ++ front, after, by simp only [List.append_assoc], ?_⟩
  simp only [byteLength_append, Nat.add_assoc]

/-- A slice stays one when text comes behind. -/
theorem Slice.append_right (h : Slice position cs s part) (behind : List Char) :
    Slice position (cs ++ behind) s part := by
  obtain ⟨before, after, rfl, rfl⟩ := h
  exact ⟨before, after ++ behind, by simp only [List.append_assoc], rfl⟩

/-- A span that is a slice lies in the text. -/
theorem Slice.bounds (h : Slice position cs s part) :
    position ≤ s.start ∧ s.start + byteLength part = s.stop ∧
      s.stop ≤ position + byteLength cs := by
  obtain ⟨before, after, rfl, rfl⟩ := h
  simp only [byteLength_append]
  omega

/-- A slice that is not empty stops after it starts. -/
theorem Slice.start_lt_stop (h : Slice position cs s part) (hpart : part ≠ []) :
    s.start < s.stop := by
  have hpos := byteLength_pos hpart
  have hbounds := h.bounds
  omega

/-! ## One token -/

/-- Only blanks. -/
def Blank (cs : List Char) : Prop := ∀ c ∈ cs, isBlank c = true

/-- The end of the text from a position on, where blanks alone are left. -/
def endAt (position : ℕ) : Token := ⟨.eof, ⟨position, position⟩, []⟩

/-- Blank text has no token but the end. -/
theorem tokensFrom_of_nil (h : cs.dropWhile isBlank = []) (position : ℕ) :
    tokensFrom position cs = [endAt (position + byteLength (cs.takeWhile isBlank))] := by
  rw [tokensFrom]
  split
  · rfl
  · rename_i hcons
    cases h.symm.trans hcons

/-- The first token is read from the first character that is no blank. -/
theorem tokensFrom_of_cons {c : Char} {further rest : List Char} {kind : TokenKind}
    (h : cs.dropWhile isBlank = c :: (further ++ rest))
    (hread : readToken c (further ++ rest) = (kind, further.length)) (position : ℕ) :
    tokensFrom position cs =
      ⟨kind, ⟨position + byteLength (cs.takeWhile isBlank),
            position + byteLength (cs.takeWhile isBlank) + byteLength (c :: further)⟩,
          c :: further⟩ ::
        tokensFrom (position + byteLength (cs.takeWhile isBlank) + byteLength (c :: further))
          rest := by
  rw [tokensFrom]
  split
  · rename_i hnil
    cases h.symm.trans hnil
  · rename_i hcons
    cases h.symm.trans hcons
    rw [hread]
    simp only [List.take_left, List.drop_left]

/-- Where a token ends splits the text behind its first character. -/
theorem exists_readToken_eq (c : Char) (rest : List Char) : ∃ kind further behind,
    rest = further ++ behind ∧ readToken c (further ++ behind) = (kind, further.length) := by
  have hle := readToken_le c rest
  refine ⟨(readToken c rest).1, rest.take (readToken c rest).2, rest.drop (readToken c rest).2,
    (List.take_append_drop ..).symm, ?_⟩
  rw [List.take_append_drop, List.length_take_of_le hle]

/-- Blanks in front of a text only move its tokens. -/
theorem tokensFrom_append_blank {gap : List Char} (hgap : Blank gap) (position : ℕ)
    (cs : List Char) :
    tokensFrom position (gap ++ cs) = tokensFrom (position + byteLength gap) cs := by
  have htake : (gap ++ cs).takeWhile isBlank = _ := List.takeWhile_append_of_pos hgap
  have hdrop : (gap ++ cs).dropWhile isBlank = _ := List.dropWhile_append_of_pos hgap
  cases hcs : cs.dropWhile isBlank with
  | nil =>
    rw [tokensFrom_of_nil (hdrop.trans hcs), tokensFrom_of_nil hcs, htake, byteLength_append,
      Nat.add_assoc]
  | cons c rest =>
    obtain ⟨kind, further, behind, rfl, hread⟩ := exists_readToken_eq c rest
    rw [tokensFrom_of_cons (hdrop.trans hcs) hread, tokensFrom_of_cons hcs hread, htake,
      byteLength_append]
    simp only [Nat.add_assoc]

/-- The first token is the one that is read from the first character. -/
theorem tokensFrom_cons {further rest : List Char} {c : Char} {kind : TokenKind}
    (hc : isBlank c = false) (hread : readToken c (further ++ rest) = (kind, further.length))
    (position : ℕ) :
    tokensFrom position (c :: further ++ rest) =
      ⟨kind, ⟨position, position + byteLength (c :: further)⟩, c :: further⟩ ::
        tokensFrom (position + byteLength (c :: further)) rest := by
  have htake : (c :: (further ++ rest)).takeWhile isBlank = [] :=
    List.takeWhile_cons_of_neg (by simp [hc])
  have hdrop : (c :: (further ++ rest)).dropWhile isBlank = c :: (further ++ rest) :=
    List.dropWhile_cons_of_neg (by simp [hc])
  rw [List.cons_append, tokensFrom_of_cons hdrop hread, htake]
  rfl

/-! ## Parts of a text -/

/-- A text from a position on, with another one behind it, is cut into tokens, with blanks in front
of each and behind the last one. -/
inductive Cut : ℕ → List Char → List Char → List Token → Prop
  | blanks {position : ℕ} {gap behind : List Char} (blank : Blank gap) : Cut position gap behind []
  | token {position : ℕ} {gap further rest behind : List Char} {c : Char} {kind : TokenKind}
      {ts : List Token} (blank : Blank gap) (first : isBlank c = false)
      (read : readToken c (further ++ (rest ++ behind)) = (kind, further.length))
      (later : Cut (position + byteLength (gap ++ c :: further)) rest behind ts) :
      Cut position (gap ++ c :: further ++ rest) behind
        (⟨kind, ⟨position + byteLength gap, position + byteLength (gap ++ c :: further)⟩,
          c :: further⟩ :: ts)

variable {behind w : List Char} {ts : List Token}

/-- The tokens of a whole are those of its parts, if it is cut between them. -/
theorem Cut.tokensFrom_append (h : Cut position cs behind ts) :
    tokensFrom position (cs ++ behind) =
      ts ++ tokensFrom (position + byteLength cs) behind := by
  induction h with
  | blanks hgap => exact tokensFrom_append_blank hgap _ _
  | token hgap hc hread _ ih =>
    rw [List.append_assoc, List.append_assoc, tokensFrom_append_blank hgap,
      tokensFrom_cons hc hread, List.cons_append]
    simp only [byteLength_append, ← Nat.add_assoc] at ih ⊢
    rw [ih]

/-- A text stands as one token and blanks in front of it, or has no token. -/
theorem exists_gap (cs : List Char) : Blank cs ∨ ∃ gap c rest, cs = gap ++ c :: rest ∧
    Blank gap ∧ isBlank c = false := by
  have happend := List.takeWhile_append_dropWhile (p := isBlank) (l := cs)
  have hblank : Blank (cs.takeWhile isBlank) := fun c hc => List.mem_takeWhile_imp hc
  cases hrest : cs.dropWhile isBlank with
  | nil =>
    rw [hrest, List.append_nil] at happend
    exact .inl (happend ▸ hblank)
  | cons c rest =>
    have hc := List.head?_dropWhile_not isBlank cs
    rw [hrest] at happend hc
    exact .inr ⟨_, c, rest, happend.symm, hblank, by simpa using hc⟩

/-- Every text is cut into tokens. -/
theorem exists_cut (position : ℕ) (cs : List Char) : ∃ ts, Cut position cs [] ts := by
  induction hn : cs.length using Nat.strong_induction_on generalizing position cs with
  | _ n ih =>
    rcases exists_gap cs with hblank | ⟨gap, c, rest, rfl, hgap, hc⟩
    · exact ⟨[], .blanks hblank⟩
    · obtain ⟨kind, further, behind, rfl, hread⟩ := exists_readToken_eq c rest
      have hlt : behind.length < n := by
        rw [← hn, List.length_append, List.length_cons, List.length_append]
        omega
      obtain ⟨ts, hts⟩ := ih _ hlt (position + byteLength (gap ++ c :: further)) behind rfl
      rw [← List.cons_append, ← List.append_assoc]
      rw [← List.append_nil behind] at hread
      exact ⟨_, .token hgap hc hread hts⟩

/-- Text that is cut into tokens is read as these and the end. -/
theorem Cut.tokensFrom_eq (h : Cut position cs [] ts) :
    tokensFrom position cs = ts ++ [endAt (position + byteLength cs)] := by
  have happend := h.tokensFrom_append
  rwa [List.append_nil, tokensFrom_of_nil List.dropWhile_nil, List.takeWhile_nil] at happend

/-- The tokens of a cut are of kinds that reading gives. -/
theorem Cut.proper (h : Cut position cs behind ts) : ∀ t ∈ ts, Proper t := by
  induction h with
  | blanks => exact List.forall_mem_nil _
  | @token position gap further rest behind c kind ts hgap hc hread _ ih =>
    have hproper := proper_readToken c (further ++ (rest ++ behind))
      ⟨position + byteLength gap, position + byteLength (gap ++ c :: further)⟩
    rw [hread, List.take_left] at hproper
    exact List.forall_mem_cons.2 ⟨hproper, ih⟩

/-- Every token stands where its span says. -/
theorem Cut.slice (h : Cut position cs behind ts) :
    ∀ t ∈ ts, t.text ≠ [] ∧ Slice position cs t.span t.text := by
  induction h with
  | blanks => exact List.forall_mem_nil _
  | @token position gap further rest behind c kind ts hgap hc hread _ ih =>
    refine List.forall_mem_cons.2
      ⟨⟨List.cons_ne_nil c further, gap, rest, rfl, rfl⟩, fun t ht => ?_⟩
    exact ⟨(ih t ht).1, (ih t ht).2.append_left _⟩

/-- The tokens stand one behind the other. -/
theorem Cut.pairwise (h : Cut position cs behind ts) :
    ts.Pairwise fun t u => t.span.stop ≤ u.span.start := by
  induction h with
  | blanks => exact .nil
  | token _ _ _ hlater ih =>
    exact .cons (fun u hu => (hlater.slice u hu).2.bounds.1) ih

/-- Between two spans of a text there are blanks alone. -/
def Apart (position : ℕ) (cs : List Char) (s u : Span) : Prop :=
  ∃ gap, Blank gap ∧ Slice position cs ⟨s.stop, u.start⟩ gap

/-- Blanks alone are in front of a token, and behind the last one. -/
theorem Cut.apart (h : Cut position cs behind ts) (start : ℕ) :
    List.IsChain (Apart position cs)
      (⟨start, position⟩ :: (ts ++ [endAt (position + byteLength cs)]).map Token.span) := by
  induction h generalizing start with
  | @blanks position gap behind hgap =>
    exact .cons_cons ⟨gap, hgap, [], [], (List.append_nil _).symm, rfl⟩ (.singleton _)
  | @token position gap further rest behind c kind ts hgap hc hread _ ih =>
    have hlater := (ih (position + byteLength gap)).imp
      (S := Apart position (gap ++ c :: further ++ rest)) fun s u ⟨gap', hgap', hslice⟩ =>
        ⟨gap', hgap', hslice.append_left _⟩
    rw [Nat.add_assoc, ← byteLength_append] at hlater
    refine .cons_cons ⟨gap, hgap, [], c :: further ++ rest, ?_, rfl⟩ hlater
    exact List.append_assoc _ _ _

/-- No text has no tokens. -/
theorem Cut.eq_nil (h : Cut position [] behind ts) : ts = [] := by
  refine List.eq_nil_iff_forall_not_mem.2 fun t ht => ?_
  obtain ⟨hne, hslice⟩ := h.slice t ht
  have hlt := hslice.start_lt_stop hne
  have hbounds := hslice.bounds
  rw [byteLength] at hbounds
  omega

/-- A token inside a part is read in the same way in front of another text, and so is one at its end
that is not continued. -/
theorem readToken_exchange {c : Char} {further rest : List Char} {kind : TokenKind}
    (hread : readToken c (further ++ (rest ++ behind)) = (kind, further.length)) (hw : Inert w)
    (hend : rest = [] → Closes kind w) :
    readToken c (further ++ (rest ++ w)) = (kind, further.length) := by
  have hlength : (further ++ rest).length = _ := List.length_append
  rw [← List.append_assoc] at hread ⊢
  rw [← hread]
  refine readToken_append (by rw [hread]; omega) hw ?_
  rw [hread]
  exact fun h => hend (List.length_eq_zero_iff.1 (by omega))

/-- A part is cut in the same way in front of another text that does not continue its last token. -/
theorem Cut.exchange (h : Cut position cs behind ts) (hw : Inert w)
    (hends : ∀ t ∈ ts.getLast?, Closes t.kind w) : Cut position cs w ts := by
  induction h with
  | blanks hgap => exact .blanks hgap
  | token hgap hc hread hlater ih =>
    refine .token hgap hc (readToken_exchange hread hw ?_) (ih fun t ht => hends t ?_)
    · rintro rfl
      rw [hlater.eq_nil] at hends
      exact hends _ rfl
    · rw [List.getLast?_cons, Option.mem_def.1 ht]
      rfl

/-- A token is found again where its text stands alone. -/
theorem Cut.alone (h : Cut position cs behind ts) :
    ∀ t ∈ ts, Cut 0 t.text [] [⟨t.kind, ⟨0, byteLength t.text⟩, t.text⟩] := by
  induction h with
  | blanks => exact List.forall_mem_nil _
  | @token position gap further rest behind c kind ts hgap hc hread _ ih =>
    have hfirst := @Cut.token 0 [] further [] (rest ++ behind) c kind [] (List.forall_mem_nil _)
      hc hread (.blanks (List.forall_mem_nil _))
    rw [List.nil_append, List.append_nil] at hfirst
    simp only [byteLength, Nat.zero_add] at hfirst
    have hnil : ∀ d ∈ ([] : List Char).head?, d = '\n' := nofun
    have halone := hfirst.exchange (inert_of_newline hnil) fun t _ => closes_of_newline hnil t.kind
    exact List.forall_mem_cons.2 ⟨halone, ih⟩

/-- The tokens of a text up to its end stand one behind the other, each where its span says, with
blanks alone between them, and each is found again where its text stands alone. -/
theorem tokens_lossless (text : String) : ∃ ts,
    tokens text = ts ++ [endAt text.utf8ByteSize] ∧
    (∀ t ∈ ts, t.kind ≠ .eof ∧ t.text ≠ [] ∧ t.span.start < t.span.stop ∧
      Slice 0 text.toList t.span t.text ∧
      tokens (String.ofList t.text) =
        [⟨t.kind, ⟨0, byteLength t.text⟩, t.text⟩, endAt (byteLength t.text)]) ∧
    (tokens text).Pairwise (fun t u => t.span.stop ≤ u.span.start) ∧
    List.IsChain (Apart 0 text.toList) (⟨0, 0⟩ :: (tokens text).map Token.span) := by
  obtain ⟨ts, hcut⟩ := exists_cut 0 text.toList
  have htokens := hcut.tokensFrom_eq
  have hchain := hcut.apart 0
  rw [byteLength_toList, Nat.zero_add] at htokens hchain
  refine ⟨ts, htokens, fun t ht => ?_, ?_, by rwa [tokens, htokens]⟩
  · obtain ⟨hne, hslice⟩ := hcut.slice t ht
    refine ⟨(hcut.proper t ht).kind_ne, hne, hslice.start_lt_stop hne, hslice, ?_⟩
    have halone := (hcut.alone t ht).tokensFrom_eq
    rw [tokens, String.toList_ofList, halone, Nat.zero_add]
    rfl
  · rw [tokens, htokens]
    refine List.pairwise_append.2 ⟨hcut.pairwise, List.pairwise_singleton _ _, fun t ht u hu => ?_⟩
    obtain rfl := List.mem_singleton.1 hu
    have hbounds := (hcut.slice t ht).2.bounds
    rw [byteLength_toList, Nat.zero_add] at hbounds
    exact hbounds.2.2

end LinOpt.ProblemText
