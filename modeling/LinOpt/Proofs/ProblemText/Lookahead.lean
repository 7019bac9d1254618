import LinOpt.Proofs.ProblemText.Token

/-!
# What follows a token

Where a token ends is seen by the characters behind it: a number goes on with a point, digits or an
exponent, of which the letter and the sign count only if a digit follows. Whatever was looked at,
a token that ends inside the first part of a text stays what it is if the rest is exchanged for a
text that goes on with nothing, which is one that starts with a blank, with a newline or with a
comment (`ProblemText.readToken_append`). Only the end itself needs care: a comment is ended by a
newline alone, and a slash becomes a comment where another one follows.
-/

namespace LinOpt.ProblemText

/-- Characters that no token but a comment goes on with. -/
def separators : List Char := [' ', '\t', '\r', '\n', '/']

/-- The text is empty or starts with a separator. -/
def Inert (w : List Char) : Prop := ∀ c ∈ w.head?, c ∈ separators

/-- That a test fails at every separator is evaluated. -/
theorem forall_separators {p : Char → Bool} (h : separators.all (fun c => !p c) = true) :
    ∀ c ∈ separators, p c = false := by
  intro c hc
  simpa using List.all_eq_true.1 h c hc

variable {c : Char} {u v w rest : List Char}

/-! ## Lengths -/

/-- A length that is measured from the left: it is seen where it ends unless the text behind its end
could continue it. -/
def Local (f : List Char → ℕ) : Prop :=
  ∀ {u v w : List Char}, Inert w → f (u ++ v) ≤ u.length → f (u ++ w) = f (u ++ v)

/-- A run of characters ends where it ended before. -/
theorem length_takeWhile_append {p : Char → Bool} (h : ((u ++ v).takeWhile p).length ≤ u.length)
    (hw : ((u ++ v).takeWhile p).length = u.length → ∀ c ∈ w.head?, p c = false) :
    ((u ++ w).takeWhile p).length = ((u ++ v).takeWhile p).length := by
  induction u with
  | nil =>
    have hv := Nat.le_zero.1 h
    have hnil : w.takeWhile p = [] := by
      cases w with
      | nil => rfl
      | cons d w => exact List.takeWhile_cons_of_neg (by simp [hw hv d rfl])
    rw [List.nil_append, List.nil_append, hnil]
    exact hv.symm
  | cons d u ih =>
    rw [List.cons_append, List.takeWhile_cons] at h hw ⊢
    rw [List.cons_append, List.takeWhile_cons]
    split_ifs at h hw ⊢
    · exact congrArg (· + 1) (ih (Nat.le_of_succ_le_succ h) fun heq => hw (congrArg (· + 1) heq))
    · rfl

/-- How far a run of characters goes is settled by a separator behind it. -/
theorem local_takeWhile {p : Char → Bool} (hp : ∀ c ∈ separators, p c = false) :
    Local fun cs => (cs.takeWhile p).length :=
  fun hw h => length_takeWhile_append h fun _ c hc => hp c (hw c hc)

/-- How far digits go is settled by a separator behind them. -/
theorem local_digitsLength : Local digitsLength := local_takeWhile (forall_separators rfl)

/-- Text that starts with a separator or not at all does not start with anything else. -/
theorem Inert.ne {c : Char} (hw : Inert w) (hc : c ∉ separators) (rest : List Char) :
    w ≠ c :: rest := by
  rintro rfl
  exact hc (hw c rfl)

/-- Without a point there is no fraction. -/
theorem fractionLength_of_ne (h : ∀ rest, u ≠ '.' :: rest) : fractionLength u = 0 := by
  rw [fractionLength]
  exact h

/-- How far a fraction goes is settled by a separator behind it. -/
theorem local_fractionLength : Local fractionLength := by
  intro u v w hw h
  cases u with
  | nil =>
    rw [List.nil_append, List.nil_append, fractionLength_of_ne (hw.ne (by decide))]
    exact (Nat.le_zero.1 h).symm
  | cons d u =>
    by_cases hd : d = '.'
    · subst hd
      have hdigits : 1 + digitsLength (u ++ v) ≤ u.length + 1 := h
      exact congrArg (1 + ·) (local_digitsLength hw (by omega))
    · have hne : ∀ ts rest, d :: u ++ ts ≠ '.' :: rest := fun ts rest heq =>
        hd (List.cons.inj heq).1
      rw [fractionLength_of_ne (hne w), fractionLength_of_ne (hne v)]

/-- What starts with neither sign has none. -/
theorem signLength_of_ne (hplus : ∀ rest, u ≠ '+' :: rest) (hminus : ∀ rest, u ≠ '-' :: rest) :
    signLength u = 0 := by
  rw [signLength]
  · exact hplus
  · exact hminus

/-- Whether text starts with a sign does not depend on what follows. -/
theorem signLength_append (h : u ≠ []) (v : List Char) : signLength (u ++ v) = signLength u := by
  cases u with
  | nil => exact absurd rfl h
  | cons c u =>
    by_cases hplus : c = '+'
    · subst hplus
      rfl
    · by_cases hminus : c = '-'
      · subst hminus
        rfl
      · have hne : ∀ ts rest, (c :: u ++ ts ≠ '+' :: rest) ∧ (c :: u ++ ts ≠ '-' :: rest) :=
          fun ts rest => ⟨fun heq => hplus (List.cons.inj heq).1,
            fun heq => hminus (List.cons.inj heq).1⟩
        have hnil := List.append_nil (c :: u)
        rw [signLength_of_ne (fun r => (hne v r).1) fun r => (hne v r).2, ← hnil,
          signLength_of_ne (fun r => (hne [] r).1) fun r => (hne [] r).2]

/-- A sign is part of the text. -/
theorem signLength_le (u : List Char) : signLength u ≤ u.length := by
  unfold signLength
  split <;> simp

/-- After its letter an exponent is a sign, if there is one, and digits, which it needs. -/
theorem exponentLength_cons {letter : Char} (hletter : letter = 'e' ∨ letter = 'E')
    (rest : List Char) : exponentLength (letter :: rest) =
      if digitsLength (rest.drop (signLength rest)) = 0 then 0
      else 1 + signLength rest + digitsLength (rest.drop (signLength rest)) := by
  rcases hletter with rfl | rfl <;> rfl

/-- Without its letter there is no exponent. -/
theorem exponentLength_of_ne (h : ∀ c ∈ u.head?, c ≠ 'e' ∧ c ≠ 'E') : exponentLength u = 0 := by
  rw [exponentLength]
  · rintro rest rfl
    exact (h 'e' rfl).1 rfl
  · rintro rest rfl
    exact (h 'E' rfl).2 rfl

/-- How far an exponent goes is settled by a separator behind it. -/
theorem local_exponentLength : Local exponentLength := by
  intro u v w hw h
  cases u with
  | nil =>
    have hne : ∀ c ∈ w.head?, c ≠ 'e' ∧ c ≠ 'E' := by
      intro c hc
      have hmem := hw c hc
      constructor <;> rintro rfl <;> revert hmem <;> decide
    rw [List.nil_append, List.nil_append, exponentLength_of_ne hne]
    exact (Nat.le_zero.1 h).symm
  | cons letter u =>
    by_cases hletter : letter = 'e' ∨ letter = 'E'
    · rw [List.cons_append, exponentLength_cons hletter] at h ⊢
      rw [List.cons_append, exponentLength_cons hletter]
      by_cases hu : u = []
      · -- The letter stands last, so that a sign or a digit behind it would be reached.
        subst hu
        have hsign : signLength w = 0 :=
          signLength_of_ne (hw.ne (by decide)) (hw.ne (by decide))
        have hdigits : digitsLength w = 0 := local_digitsLength (u := []) (v := []) hw (by decide)
        simp only [List.nil_append, List.length_singleton] at h ⊢
        rw [hsign, List.drop_zero, hdigits, if_pos rfl]
        split_ifs at h ⊢ with hzero
        · rfl
        · omega
      · have hle := signLength_le u
        rw [signLength_append hu, List.drop_append_of_le_length hle, List.length_cons] at h
        rw [signLength_append hu, signLength_append hu, List.drop_append_of_le_length hle,
          List.drop_append_of_le_length hle, local_digitsLength hw]
        rw [List.length_drop]
        split_ifs at h <;> omega
    · have hne : ∀ ts, ∀ c ∈ (letter :: u ++ ts).head?, c ≠ 'e' ∧ c ≠ 'E' := by
        rintro ts c ⟨⟩
        exact not_or.1 hletter
      rw [exponentLength_of_ne (hne w), exponentLength_of_ne (hne v)]

/-- How far a number goes is settled by a separator behind it. -/
theorem local_numberLength : Local numberLength := by
  intro u v w hw h
  have hle : digitsLength (u ++ v) ≤ u.length := by
    rw [numberLength] at h
    omega
  have hdrop : ∀ ts, (u ++ ts).drop (digitsLength (u ++ v)) =
      u.drop (digitsLength (u ++ v)) ++ ts := fun ts => List.drop_append_of_le_length hle
  have hle' : digitsLength (u ++ v) +
      fractionLength (u.drop (digitsLength (u ++ v)) ++ v) ≤ u.length := by
    rw [numberLength, hdrop] at h
    omega
  have hdrop' : ∀ ts, (u ++ ts).drop (digitsLength (u ++ v) +
      fractionLength (u.drop (digitsLength (u ++ v)) ++ v)) =
      u.drop (digitsLength (u ++ v) + fractionLength (u.drop (digitsLength (u ++ v)) ++ v)) ++ ts :=
    fun ts => List.drop_append_of_le_length hle'
  rw [numberLength, hdrop, hdrop'] at h
  rw [numberLength, numberLength, local_digitsLength hw hle, hdrop, hdrop, local_fractionLength hw,
    hdrop', hdrop', local_exponentLength hw]
  · rw [List.length_drop]
    omega
  · rw [List.length_drop]
    omega

/-! ## No token is longer than the text -/

/-- Digits are part of the text. -/
theorem digitsLength_le (cs : List Char) : digitsLength cs ≤ cs.length :=
  (List.takeWhile_prefix _).length_le

/-- A fraction is part of the text. -/
theorem fractionLength_le (cs : List Char) : fractionLength cs ≤ cs.length := by
  unfold fractionLength
  split
  · rename_i rest
    have := digitsLength_le rest
    rw [List.length_cons]
    omega
  · exact Nat.zero_le _

/-- An exponent is part of the text. -/
theorem exponentLength_le (cs : List Char) : exponentLength cs ≤ cs.length := by
  cases cs with
  | nil => exact Nat.zero_le _
  | cons letter rest =>
    by_cases hletter : letter = 'e' ∨ letter = 'E'
    · have hsign := signLength_le rest
      have hdigits := digitsLength_le (rest.drop (signLength rest))
      rw [List.length_drop] at hdigits
      rw [exponentLength_cons hletter, List.length_cons]
      split_ifs <;> omega
    · rw [exponentLength_of_ne]
      · exact Nat.zero_le _
      · rintro c ⟨⟩
        exact not_or.1 hletter

/-- A number is part of the text. -/
theorem numberLength_le (cs : List Char) : numberLength cs ≤ cs.length := by
  have hwhole := digitsLength_le cs
  have hfraction := fractionLength_le (cs.drop (digitsLength cs))
  have hexponent := exponentLength_le
    (cs.drop (digitsLength cs + fractionLength (cs.drop (digitsLength cs))))
  rw [List.length_drop] at hfraction hexponent
  rw [numberLength]
  omega

/-- A token ends inside the text. -/
theorem readToken_le (c : Char) (rest : List Char) : (readToken c rest).2 ≤ rest.length := by
  have hreads := reads_readToken c rest
  generalize readToken c rest = r at hreads
  cases hreads with
  | newline | single | error => exact Nat.zero_le _
  | comment | word => exact (List.takeWhile_prefix _).length_le
  | comparison _ hnext =>
    obtain ⟨rest, rfl⟩ := List.head?_eq_some_iff.1 hnext
    exact Nat.le_add_left _ _
  | number => exact Nat.sub_le_of_le_add (numberLength_le (c :: rest))

/-! ## What a token reads -/

/-- A text that a token is not continued by. -/
structure Closes (k : TokenKind) (w : List Char) : Prop where
  comment : k = .comment → ∀ c ∈ w.head?, c = '\n'
  slash : k = .error → w.head? ≠ some '/'

/-- The end of a row continues no token. -/
theorem inert_of_newline (hw : ∀ c ∈ w.head?, c = '\n') : Inert w := by
  intro c hc
  obtain rfl := hw c hc
  decide

/-- The end of a line closes every token. -/
theorem closes_of_newline (hw : ∀ c ∈ w.head?, c = '\n') (k : TokenKind) : Closes k w :=
  ⟨fun _ => hw, fun _ hslash => absurd (hw '/' hslash) (by decide)⟩

/-- A comparison looks at the next character only. -/
theorem comparison_append {kind : TokenKind} (h : (comparison kind (u ++ v)).2 ≤ u.length)
    (hw : Inert w) : comparison kind (u ++ w) = comparison kind (u ++ v) := by
  have hother : ∀ {ts : List Char}, (∀ rest, ts ≠ '=' :: rest) →
      comparison kind ts = (.error, 0) := by
    intro ts hts
    rw [comparison]
    exact hts
  cases u with
  | nil =>
    rw [List.nil_append, List.nil_append, hother (hw.ne (by decide)), hother]
    rintro rest rfl
    exact absurd h (Nat.not_succ_le_zero 0)
  | cons d u =>
    by_cases hd : d = '='
    · subst hd
      rfl
    · have hne : ∀ ts rest, d :: u ++ ts ≠ '=' :: rest := fun ts rest heq =>
        hd (List.cons.inj heq).1
      rw [hother (hne w), hother (hne v)]

/-- A slash begins a comment if there is another one, and is an error otherwise. -/
theorem readToken_slash (rest : List Char) : readToken '/' rest =
    if rest.head? = some '/' then (.comment, (rest.takeWhile (· ≠ '\n')).length)
    else (.error, 0) := by
  have hword : isWordStart '/' = false := by decide +kernel
  have hdigit : '/'.isDigit = false := rfl
  simp [readToken, hword, hdigit]

/-- A slash is read the same whatever follows the token, as long as it closes it. -/
theorem readToken_slash_append (h : (readToken '/' (u ++ v)).2 ≤ u.length)
    (hends : (readToken '/' (u ++ v)).2 = u.length → Closes (readToken '/' (u ++ v)).1 w) :
    readToken '/' (u ++ w) = readToken '/' (u ++ v) := by
  rw [readToken_slash] at h hends ⊢
  rw [readToken_slash]
  cases u with
  | nil =>
    rw [List.nil_append] at h hends ⊢
    split_ifs at h hends with hv
    · -- A comment is longer than the slash.
      obtain ⟨v, rfl⟩ := List.head?_eq_some_iff.1 hv
      exact absurd h (Nat.not_succ_le_zero _)
    · rw [List.nil_append, if_neg ((hends rfl).slash rfl), if_neg hv]
  | cons d u =>
    rw [List.cons_append, List.head?_cons] at h hends ⊢
    rw [List.cons_append, List.head?_cons]
    split_ifs at h hends ⊢ with hd
    · refine Prod.ext rfl (length_takeWhile_append (u := d :: u) h fun heq c hc => ?_)
      exact decide_eq_false (not_not.2 ((hends heq).comment rfl c hc))
    · rfl

/-- No separator is part of a word. -/
theorem isWordPart_separators : ∀ c ∈ separators, isWordPart c = false :=
  forall_separators (by decide +kernel)

/-- What starts with a separator or not at all does not start with a digit. -/
theorem startsWithDigit_of_inert (hw : Inert w) : startsWithDigit w = false := by
  cases w with
  | nil => rfl
  | cons d w =>
    have hmem := hw d rfl
    revert hmem
    exact forall_separators (p := Char.isDigit) rfl d

/-- A point without further characters stands in front of no digit. -/
theorem startsWithDigit_of_readToken (h : (readToken '.' v).2 ≤ 0) :
    startsWithDigit v = false := by
  cases v with
  | nil => rfl
  | cons d v =>
    by_contra hd
    have hdigit : d.isDigit = true := by simpa [startsWithDigit] using hd
    have hread : readToken '.' (d :: v) = (.number, numberLength ('.' :: d :: v) - 1) := by
      simp [readToken, startsWithDigit, hdigit]
    have hlength : 2 ≤ numberLength ('.' :: d :: v) := by
      have hfraction : fractionLength ('.' :: d :: v) = 1 + digitsLength (d :: v) := rfl
      have hone : digitsLength (d :: v) = digitsLength v + 1 := by
        rw [digitsLength, List.takeWhile_cons_of_pos hdigit]
        rfl
      have hzero : digitsLength ('.' :: d :: v) = 0 := rfl
      rw [numberLength, hzero, List.drop_zero, hfraction, hone]
      omega
    rw [hread] at h
    dsimp only at h
    omega

/-- Whether a number starts is seen without the text behind. -/
theorem startsNumber_append (h : (readToken c (u ++ v)).2 ≤ u.length) (hw : Inert w) :
    (c.isDigit || (c = '.' && startsWithDigit (u ++ w))) =
      (c.isDigit || (c = '.' && startsWithDigit (u ++ v))) := by
  cases u with
  | cons d u => rfl
  | nil =>
    -- A point alone is no number, so that no digit follows it.
    have hinert : startsWithDigit w = false := startsWithDigit_of_inert hw
    rw [List.nil_append] at h
    by_cases hc : c = '.'
    · subst hc
      rw [List.nil_append, List.nil_append, hinert, startsWithDigit_of_readToken h]
    · simp [hc]

/-- How far a word goes is settled by a separator behind it. -/
theorem word_append (h : ((u ++ v).takeWhile isWordPart).length ≤ u.length) (hw : Inert w) :
    (u ++ w).takeWhile isWordPart = (u ++ v).takeWhile isWordPart := by
  have hlength := local_takeWhile (p := isWordPart) isWordPart_separators hw h
  have htake : ∀ ts, (u ++ ts).takeWhile isWordPart =
      (u ++ ts).take ((u ++ ts).takeWhile isWordPart).length := fun ts =>
    List.prefix_iff_eq_take.1 (List.takeWhile_prefix _)
  dsimp only at hlength
  rw [htake w, htake v, hlength, List.take_append_of_le_length h, List.take_append_of_le_length h]

/-- Two choices by the same test are related if what they choose among is. -/
theorem ite_related {β : Type} {R : β → β → Prop} {p : Prop} [Decidable p] {a a' b b' : β}
    (ha : p → R a a') (hb : ¬p → R b b') : R (if p then a else b) (if p then a' else b') := by
  by_cases hp : p
  · rw [if_pos hp, if_pos hp]
    exact ha hp
  · rw [if_neg hp, if_neg hp]
    exact hb hp

/-- A token is read alike in front of another text, if it comes to its end before, or at an end
where it is not continued. -/
theorem readToken_append (h : (readToken c (u ++ v)).2 ≤ u.length) (hw : Inert w)
    (hends : (readToken c (u ++ v)).2 = u.length → Closes (readToken c (u ++ v)).1 w) :
    readToken c (u ++ w) = readToken c (u ++ v) := by
  by_cases hslash : c = '/'
  · subst hslash
    exact readToken_slash_append h hends
  · let R : TokenKind × ℕ → TokenKind × ℕ → Prop := fun r r' => r.2 ≤ u.length → r' = r
    suffices hread : R (readToken c (u ++ v)) (readToken c (u ++ w)) from hread h
    have hsame : ∀ r, R r r := fun r _ => rfl
    have hcomment : ∀ ts : List Char, ¬(c = '/' ∧ ts.head? = some '/') := fun _ h => hslash h.1
    have hstart := startsNumber_append h hw
    unfold readToken
    rw [hstart]
    refine ite_related (fun _ => hsame _) fun _ => ?_
    rw [if_neg (hcomment (u ++ v)), if_neg (hcomment (u ++ w))]
    iterate 3 refine ite_related (fun _ => hsame _) fun _ => ?_
    refine ite_related (fun _ h => comparison_append h hw) fun _ => ?_
    refine ite_related (fun _ h => comparison_append h hw) fun _ => ?_
    refine ite_related (fun _ h => ?_) fun _ => ite_related (fun _ h => ?_) fun _ => hsame _
    · have hnumber : numberLength (c :: u ++ v) ≤ (c :: u).length := Nat.le_add_of_sub_le h
      exact congrArg (fun n => (TokenKind.number, n - 1)) (local_numberLength hw hnumber)
    · rw [word_append h hw]

end LinOpt.ProblemText
