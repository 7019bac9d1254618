import Mathlib.Data.List.TakeWhile
import LinOpt.Decimal
import LinOpt.ProblemText.Token

/-!
# Numerals

The notation of unsigned numbers with the value of each (`Decimal.Numeral`): digits, perhaps with a
point before, among or behind them, and perhaps an exponent. `Decimal.ofChars?` reads this notation
and no other (`Decimal.ofChars?_eq_some_iff`), and where a number starts the text goes on with a
numeral of the length that is cut off for it (`ProblemText.exists_numeral`).
-/

namespace LinOpt

namespace Decimal

/-- An exponent part and its value. -/
inductive ExponentPart : List Char → ℤ → Prop
  | none : ExponentPart [] 0
  | unsigned {letter : Char} {digits : List Char} (hletter : letter = 'e' ∨ letter = 'E')
      (hne : digits ≠ []) (hdigits : ∀ c ∈ digits, c.isDigit) :
      ExponentPart (letter :: digits) (digitsValue digits)
  | plus {letter : Char} {digits : List Char} (hletter : letter = 'e' ∨ letter = 'E')
      (hne : digits ≠ []) (hdigits : ∀ c ∈ digits, c.isDigit) :
      ExponentPart (letter :: '+' :: digits) (digitsValue digits)
  | minus {letter : Char} {digits : List Char} (hletter : letter = 'e' ∨ letter = 'E')
      (hne : digits ≠ []) (hdigits : ∀ c ∈ digits, c.isDigit) :
      ExponentPart (letter :: '-' :: digits) (-(digitsValue digits : ℤ))

/-- A numeral and its value. -/
inductive Numeral : List Char → Decimal → Prop
  | integer {whole exponent : List Char} {e : ℤ} (hne : whole ≠ [])
      (hdigits : ∀ c ∈ whole, c.isDigit) (hexponent : ExponentPart exponent e) :
      Numeral (whole ++ exponent) ⟨digitsValue whole, e⟩
  | point {whole fraction exponent : List Char} {e : ℤ} (hne : whole ++ fraction ≠ [])
      (hwhole : ∀ c ∈ whole, c.isDigit) (hfraction : ∀ c ∈ fraction, c.isDigit)
      (hexponent : ExponentPart exponent e) :
      Numeral (whole ++ '.' :: (fraction ++ exponent))
        ⟨digitsValue (whole ++ fraction), e - fraction.length⟩

/-- A numeral has characters. -/
theorem Numeral.ne_nil {cs : List Char} {d : Decimal} (h : Numeral cs d) : cs ≠ [] := by
  intro hnil
  cases h with
  | integer hne => exact hne (List.append_eq_nil_iff.1 hnil).1
  | point => exact List.cons_ne_nil _ _ (List.append_eq_nil_iff.1 hnil).2

/-! ## Reading -/

/-- Digits in front of something else are split off. -/
theorem spanDigits_append {digits rest : List Char} (hdigits : ∀ c ∈ digits, c.isDigit)
    (hrest : ∀ c ∈ rest.head?, c.isDigit = false) :
    spanDigits (digits ++ rest) = (digits, rest) := by
  have hnil : rest.takeWhile Char.isDigit = [] ∧ rest.dropWhile Char.isDigit = rest := by
    cases rest with
    | nil => exact ⟨rfl, rfl⟩
    | cons c rest =>
      have hc : c.isDigit = false := hrest c rfl
      simp [hc]
  rw [spanDigits, List.takeWhile_append_of_pos hdigits, List.dropWhile_append_of_pos hdigits,
    hnil.1, hnil.2, List.append_nil]

section
variable {letter : Char} {e : ℤ}

/-- The digits of an exponent are there, and they are digits. -/
theorem exponentDigits_iff {digits : List Char} {v : ℤ} :
    (if digits.isEmpty || !digits.all Char.isDigit then none else some v) = some e ↔
      digits ≠ [] ∧ (∀ c ∈ digits, c.isDigit) ∧ v = e := by
  have hcheck : (digits.isEmpty || !digits.all Char.isDigit) = false ↔
      digits ≠ [] ∧ ∀ c ∈ digits, c.isDigit := by
    rw [Bool.or_eq_false_iff, List.isEmpty_eq_false_iff, Bool.not_eq_false', List.all_eq_true]
  rw [← and_assoc, ← hcheck]
  cases digits.isEmpty || !digits.all Char.isDigit <;> simp

/-- A negative exponent is read exactly if digits follow its sign. -/
theorem exponentOf?_minus_iff (hletter : letter = 'e' ∨ letter = 'E') (digits : List Char) :
    exponentOf? (letter :: '-' :: digits) = some e ↔
      digits ≠ [] ∧ (∀ c ∈ digits, c.isDigit) ∧ -(digitsValue digits : ℤ) = e := by
  rw [← exponentDigits_iff]
  rcases hletter with rfl | rfl <;> rfl

/-- An exponent with a plus sign is read exactly if digits follow it. -/
theorem exponentOf?_plus_iff (hletter : letter = 'e' ∨ letter = 'E') (digits : List Char) :
    exponentOf? (letter :: '+' :: digits) = some e ↔
      digits ≠ [] ∧ (∀ c ∈ digits, c.isDigit) ∧ (digitsValue digits : ℤ) = e := by
  rw [← exponentDigits_iff]
  rcases hletter with rfl | rfl <;> rfl

/-- An exponent without a sign is read exactly if digits follow its letter. -/
theorem exponentOf?_unsigned_iff (hletter : letter = 'e' ∨ letter = 'E') {digits : List Char}
    (hminus : ∀ ds, digits ≠ '-' :: ds) (hplus : ∀ ds, digits ≠ '+' :: ds) :
    exponentOf? (letter :: digits) = some e ↔
      digits ≠ [] ∧ (∀ c ∈ digits, c.isDigit) ∧ (digitsValue digits : ℤ) = e := by
  rw [← exponentDigits_iff]
  rcases hletter with rfl | rfl
  · rw [exponentOf?]
    · rfl
    · exact hminus
    · exact hplus
  · rw [exponentOf?]
    · rfl
    · exact hminus
    · exact hplus

/-- Exponents are read as they are written. -/
theorem exponentOf?_eq_some_iff {cs : List Char} :
    exponentOf? cs = some e ↔ ExponentPart cs e := by
  constructor
  · intro h
    cases cs with
    | nil =>
      obtain rfl := Option.some.inj h
      exact .none
    | cons letter rest =>
      have hletter : letter = 'e' ∨ letter = 'E' := by
        by_contra hne
        rw [not_or] at hne
        rw [exponentOf?] at h
        · cases h
        · exact hne.1
        · exact hne.2
      by_cases hminus : ∃ ds, rest = '-' :: ds
      · obtain ⟨digits, rfl⟩ := hminus
        obtain ⟨hne, hdigits, rfl⟩ := (exponentOf?_minus_iff hletter digits).1 h
        exact .minus hletter hne hdigits
      · by_cases hplus : ∃ ds, rest = '+' :: ds
        · obtain ⟨digits, rfl⟩ := hplus
          obtain ⟨hne, hdigits, rfl⟩ := (exponentOf?_plus_iff hletter digits).1 h
          exact .plus hletter hne hdigits
        · obtain ⟨hne, hdigits, rfl⟩ := (exponentOf?_unsigned_iff hletter
            (not_exists.1 hminus) (not_exists.1 hplus)).1 h
          exact .unsigned hletter hne hdigits
  · intro h
    cases h with
    | none => rfl
    | minus hletter hne hdigits =>
      exact (exponentOf?_minus_iff hletter _).2 ⟨hne, hdigits, rfl⟩
    | plus hletter hne hdigits =>
      exact (exponentOf?_plus_iff hletter _).2 ⟨hne, hdigits, rfl⟩
    | @unsigned letter digits hletter hne hdigits =>
      have hhead : ∀ c : Char, c.isDigit = false → ∀ ds, digits ≠ c :: ds := by
        rintro c hc ds rfl
        exact Bool.false_ne_true (hc.symm.trans (hdigits c List.mem_cons_self))
      exact (exponentOf?_unsigned_iff hletter (hhead '-' rfl) (hhead '+' rfl)).2
        ⟨hne, hdigits, rfl⟩

/-- An exponent part starts with no digit and with no point. -/
theorem ExponentPart.head {cs : List Char} (h : ExponentPart cs e) :
    ∀ c ∈ cs.head?, c.isDigit = false ∧ c ≠ '.' := by
  have hletter : ∀ letter : Char, (letter = 'e' ∨ letter = 'E') →
      letter.isDigit = false ∧ letter ≠ '.' := by
    rintro letter (rfl | rfl) <;> decide
  intro c hc
  cases h with
  | none => cases hc
  | unsigned h | plus h | minus h =>
    obtain rfl := Option.some.inj hc
    exact hletter _ h

end

/-- Digits, a point and more digits. -/
theorem ofChars?_point_iff {whole fraction rest : List Char} {d : Decimal}
    (hwhole : ∀ c ∈ whole, c.isDigit) (hfraction : ∀ c ∈ fraction, c.isDigit)
    (hrest : ∀ c ∈ rest.head?, c.isDigit = false) :
    ofChars? (whole ++ '.' :: (fraction ++ rest)) = some d ↔ whole ++ fraction ≠ [] ∧
      ∃ e, exponentOf? rest = some e ∧
        ⟨digitsValue (whole ++ fraction), e - fraction.length⟩ = d := by
  have hpoint : ∀ c ∈ ('.' :: (fraction ++ rest)).head?, c.isDigit = false := by
    rintro c ⟨⟩
    rfl
  have hcheck : (whole.isEmpty && fraction.isEmpty) = true ↔ whole ++ fraction = [] := by simp
  unfold ofChars?
  simp only [spanDigits_append hwhole hpoint, spanDigits_append hfraction hrest, hcheck]
  split_ifs with hempty
  · exact iff_of_false (fun h => nomatch h) fun h => h.1 hempty
  · rw [Option.map_eq_some_iff, and_iff_right hempty]

/-- Digits without a point. -/
theorem ofChars?_integer_iff {whole rest : List Char} {d : Decimal}
    (hwhole : ∀ c ∈ whole, c.isDigit)
    (hrest : ∀ c ∈ rest.head?, c.isDigit = false ∧ c ≠ '.') :
    ofChars? (whole ++ rest) = some d ↔
      whole ≠ [] ∧ ∃ e, exponentOf? rest = some e ∧ ⟨digitsValue whole, e⟩ = d := by
  unfold ofChars?
  simp only [spanDigits_append hwhole fun c hc => (hrest c hc).1]
  split
  · exact absurd rfl (hrest '.' rfl).2
  · simp only [List.isEmpty_nil, Bool.and_true, List.isEmpty_iff, List.append_nil,
      List.length_nil, Int.natCast_zero, Int.sub_zero]
    split_ifs with hempty
    · exact iff_of_false (fun h => nomatch h) fun h => h.1 hempty
    · rw [Option.map_eq_some_iff, and_iff_right hempty]

/-- The reader takes numerals and nothing else. -/
theorem ofChars?_eq_some_iff {cs : List Char} {d : Decimal} :
    ofChars? cs = some d ↔ Numeral cs d := by
  have hsplit : ∀ cs : List Char, ∃ digits rest, cs = digits ++ rest ∧
      (∀ c ∈ digits, c.isDigit) ∧ ∀ c ∈ rest.head?, c.isDigit = false := by
    intro cs
    refine ⟨cs.takeWhile Char.isDigit, cs.dropWhile Char.isDigit,
      List.takeWhile_append_dropWhile.symm, fun _ hc => List.mem_takeWhile_imp hc, fun c hc => ?_⟩
    have hne : cs.dropWhile Char.isDigit ≠ [] := by
      intro hnil
      rw [hnil] at hc
      cases hc
    rw [List.head?_eq_some_head hne, Option.mem_some_iff] at hc
    exact hc ▸ List.head_dropWhile_not Char.isDigit hne
  constructor
  · intro h
    obtain ⟨whole, rest, rfl, hwhole, hrest⟩ := hsplit cs
    by_cases hpoint : ∃ r, rest = '.' :: r
    · obtain ⟨r, rfl⟩ := hpoint
      obtain ⟨fraction, exponent, rfl, hfraction, hexponent⟩ := hsplit r
      obtain ⟨hne, e, he, rfl⟩ := (ofChars?_point_iff hwhole hfraction hexponent).1 h
      exact .point hne hwhole hfraction (exponentOf?_eq_some_iff.1 he)
    · have hrest : ∀ c ∈ rest.head?, c.isDigit = false ∧ c ≠ '.' := by
        refine fun c hc => ⟨hrest c hc, ?_⟩
        rintro rfl
        obtain ⟨r, hr⟩ := List.head?_eq_some_iff.1 hc
        exact hpoint ⟨r, hr⟩
      obtain ⟨hne, e, he, rfl⟩ := (ofChars?_integer_iff hwhole hrest).1 h
      exact .integer hne hwhole (exponentOf?_eq_some_iff.1 he)
  · intro h
    cases h with
    | integer hne hwhole hexponent =>
      exact (ofChars?_integer_iff hwhole hexponent.head).2
        ⟨hne, _, exponentOf?_eq_some_iff.2 hexponent, rfl⟩
    | point hne hwhole hfraction hexponent =>
      exact (ofChars?_point_iff hwhole hfraction fun c hc => (hexponent.head c hc).1).2
        ⟨hne, _, exponentOf?_eq_some_iff.2 hexponent, rfl⟩

end Decimal

/-! ## Cutting off -/

namespace ProblemText

open Decimal

/-- The digits that text starts with. -/
theorem take_digitsLength (cs : List Char) :
    cs.take (digitsLength cs) = cs.takeWhile Char.isDigit :=
  List.prefix_iff_eq_take.1 (List.takeWhile_prefix _) |>.symm

/-- What follows the digits that text starts with. -/
theorem drop_digitsLength (cs : List Char) :
    cs.drop (digitsLength cs) = cs.dropWhile Char.isDigit := by
  have h := List.take_append_drop (digitsLength cs) cs
  rw [take_digitsLength] at h
  exact List.append_cancel_left (h.trans List.takeWhile_append_dropWhile.symm)

/-- What is cut off as an exponent part is one. -/
theorem exists_exponentPart (cs : List Char) :
    ∃ e, ExponentPart (cs.take (exponentLength cs)) e := by
  have hletter : ∀ (letter : Char) (rest : List Char), (letter = 'e' ∨ letter = 'E') →
      ∃ e, ExponentPart ((letter :: rest).take
        (if digitsLength (rest.drop (signLength rest)) = 0 then 0
          else 1 + signLength rest + digitsLength (rest.drop (signLength rest)))) e := by
    intro letter rest hletter
    split_ifs with hlength
    · exact ⟨0, .none⟩
    · rw [Nat.add_assoc, Nat.add_comm, List.take_succ_cons, List.take_add, take_digitsLength]
      have hne : (rest.drop (signLength rest)).takeWhile Char.isDigit ≠ [] := fun hnil =>
        hlength (congrArg List.length hnil)
      have hdigits : ∀ c ∈ (rest.drop (signLength rest)).takeWhile Char.isDigit, c.isDigit :=
        fun _ hc => List.mem_takeWhile_imp hc
      generalize (rest.drop (signLength rest)).takeWhile Char.isDigit = digits at hne hdigits ⊢
      unfold signLength
      split
      · exact ⟨_, .plus hletter hne hdigits⟩
      · exact ⟨_, .minus hletter hne hdigits⟩
      · exact ⟨_, .unsigned hletter hne hdigits⟩
  unfold exponentLength
  split
  · exact hletter 'e' _ (.inl rfl)
  · exact hletter 'E' _ (.inr rfl)
  · exact ⟨0, .none⟩

/-- Where a number starts, what is cut off for it is a numeral. -/
theorem exists_numeral {c : Char} {rest : List Char}
    (h : (c.isDigit || (c = '.' && startsWithDigit rest)) = true) :
    ∃ d, Numeral ((c :: rest).take (numberLength (c :: rest))) d := by
  have hstart : (c :: rest).takeWhile Char.isDigit ≠ [] ∨
      c = '.' ∧ rest.takeWhile Char.isDigit ≠ [] := by
    rcases Bool.or_eq_true_iff.1 h with hc | hc
    · exact .inl (by simp [hc])
    · obtain ⟨hc, hrest⟩ := Bool.and_eq_true_iff.1 hc
      refine .inr ⟨of_decide_eq_true hc, ?_⟩
      cases rest with
      | nil => cases hrest
      | cons d rest => simp [show d.isDigit = true from hrest]
  clear h
  generalize hcs : c :: rest = cs at hstart ⊢
  have hdigits : ∀ cs : List Char, ∀ c ∈ cs.takeWhile Char.isDigit, c.isDigit :=
    fun _ _ hc => List.mem_takeWhile_imp hc
  obtain ⟨e, hexponent⟩ :=
    exists_exponentPart (cs.drop (digitsLength cs + fractionLength (cs.drop (digitsLength cs))))
  rw [numberLength, List.take_add, List.take_add, take_digitsLength, drop_digitsLength]
  rw [drop_digitsLength] at hexponent
  by_cases hpoint : ∃ r, cs.dropWhile Char.isDigit = '.' :: r
  · obtain ⟨r, hr⟩ := hpoint
    rw [hr] at hexponent ⊢
    have hfraction : ('.' :: r).take (fractionLength ('.' :: r)) =
        '.' :: r.takeWhile Char.isDigit := by
      rw [fractionLength, Nat.add_comm, List.take_succ_cons, take_digitsLength]
    rw [hfraction, List.append_assoc]
    refine ⟨_, .point (fun hnil => ?_) (hdigits cs) (hdigits r) hexponent⟩
    obtain ⟨hwhole, hnone⟩ := List.append_eq_nil_iff.1 hnil
    obtain ⟨rfl, hrest⟩ := hstart.resolve_left (absurd hwhole)
    obtain rfl : r = rest := by simpa using hr.symm.trans (congrArg _ hcs.symm)
    exact hrest hnone
  · have hzero : fractionLength (cs.dropWhile Char.isDigit) = 0 := by
      rw [fractionLength]
      exact not_exists.1 hpoint
    rw [hzero, List.take_zero, List.append_nil]
    rw [hzero] at hexponent
    refine ⟨_, .integer (fun hwhole => ?_) (hdigits cs) hexponent⟩
    obtain ⟨rfl, -⟩ := hstart.resolve_left (absurd hwhole)
    exact hpoint ⟨rest, hcs ▸ rfl⟩

end ProblemText
end LinOpt
