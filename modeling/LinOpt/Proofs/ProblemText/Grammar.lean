import Mathlib.Data.List.Forall2
import Mathlib.Data.List.Induction
import LinOpt.Proofs.Changes
import LinOpt.Proofs.ProblemText.Lines

/-!
# The grammar of the problem text

What each line of a text has to be and what it says: the objective (`ProblemText.ObjectiveLine`),
the constraints (`ProblemText.ConstraintLine`) and the restrictions, one token for each variable. A
text whose lines are of this form describes one problem (`ProblemText.Describes`), and reading gives
this problem and no other (`ProblemText.readLines_eq_ok_iff`). Whether there is one is decided by
the kinds of the tokens (`ProblemText.exists_describes_iff`), as every number of a text has a value.
`ProblemText.parse_iff` has both for the text itself.
-/

namespace LinOpt.ProblemText

open Decimal (Numeral)

/-- Steps after one another succeed if each does with what the one before it gives. -/
theorem bind_eq_ok_iff {ε β γ : Type} {x : Except ε β} {f : β → Except ε γ} {c : γ} :
    (x >>= f) = .ok c ↔ ∃ b, x = .ok b ∧ f b = .ok c := by
  cases x with
  | error e => exact iff_of_false (fun h => nomatch h) fun ⟨_, h, _⟩ => nomatch h
  | ok b => exact ⟨fun h => ⟨b, rfl, h⟩, fun ⟨_, hb, h⟩ => Except.ok.inj hb ▸ h⟩

/-- Where something else was expected nothing is read. -/
theorem unexpected_ne_ok {α β : Type} (l : Line) (e : Expectation) (ts : List Token) (b : β) :
    (unexpected l e ts : Except (ParseError α) β) ≠ .ok b := by
  cases ts <;> exact nofun

/-- A line ends where no token is left. -/
theorem expectEnd_eq_ok_iff {α : Type} {l : Line} {rest : List Token} {u : Unit} :
    (expectEnd l rest : Except (ParseError α) Unit) = .ok u ↔ rest = [] := by
  cases rest with
  | nil => exact iff_of_true rfl rfl
  | cons t rest =>
    exact iff_of_false (unexpected_ne_ok l .endOfLine (t :: rest) u) (List.cons_ne_nil _ _)

/-- Entries can be paired off one by one. -/
theorem exists_forall₂_iff {β γ : Type} {R : β → γ → Prop} {P : γ → Prop} {l : List β} :
    (∃ l', List.Forall₂ R l l' ∧ ∀ c ∈ l', P c) ↔ ∀ a ∈ l, ∃ c, R a c ∧ P c := by
  induction l with
  | nil => exact iff_of_true ⟨[], .nil, List.forall_mem_nil _⟩ (List.forall_mem_nil _)
  | cons a l ih =>
    rw [List.forall_mem_cons, ← ih]
    constructor
    · rintro ⟨_, hl, hP⟩
      cases hl with
      | cons hc hl =>
        obtain ⟨hPc, hP⟩ := List.forall_mem_cons.1 hP
        exact ⟨⟨_, hc, hPc⟩, _, hl, hP⟩
    · rintro ⟨⟨c, hc, hPc⟩, l', hl, hP⟩
      exact ⟨c :: l', .cons hc hl, List.forall_mem_cons.2 ⟨hPc, hP⟩⟩

variable {α : Type} [Scalar α]

/-! ## Tokens -/

/-- The factor that a sign stands for. -/
inductive IsSign : TokenKind → α → Prop
  | plus : IsSign .plus 1
  | minus : IsSign .minus (-1)

/-- The sense that a word stands for. -/
inductive IsSense : TokenKind → Sense → Prop
  | max : IsSense .max .maximize
  | min : IsSense .min .minimize

/-- The relation that a comparison stands for. -/
inductive IsRelation : TokenKind → Relation → Prop
  | le : IsRelation .le .le
  | ge : IsRelation .ge .ge
  | eq : IsRelation .eq .eq

/-- The restriction that a token stands for. -/
inductive IsRestriction : TokenKind → Restriction → Prop
  | plus : IsRestriction .plus .nonNegative
  | minus : IsRestriction .minus .nonPositive
  | urs : IsRestriction .urs .unrestricted
  | int : IsRestriction .int .integer
  | bin : IsRestriction .bin .binary

/-- The value of a token that is a number. -/
inductive IsNumber : Token → α → Prop
  | mk {t : Token} {d : Decimal} (kind : t.kind = .number) (numeral : Numeral t.text d) :
      IsNumber t (Scalar.ofDecimal d)

variable {k : TokenKind}

/-- Signs are read as they are meant. -/
theorem sign?_eq_some_iff {σ : α} : sign? k = some σ ↔ IsSign k σ := by
  constructor
  · intro h
    cases k <;> cases h <;> constructor
  · rintro (_ | _) <;> rfl

/-- What is not read as a sign is none. -/
theorem sign?_eq_none_iff : (sign? k : Option α) = none ↔ ∀ σ : α, ¬IsSign k σ := by
  rw [Option.eq_none_iff_forall_ne_some]
  exact forall_congr' fun σ => not_congr sign?_eq_some_iff

/-- Senses are read as they are meant. -/
theorem sense?_eq_some_iff {s : Sense} : sense? k = some s ↔ IsSense k s := by
  constructor
  · intro h
    cases k <;> cases h <;> constructor
  · rintro (_ | _) <;> rfl

/-- Relations are read as they are meant. -/
theorem relation?_eq_some_iff {r : Relation} : relation? k = some r ↔ IsRelation k r := by
  constructor
  · intro h
    cases k <;> cases h <;> constructor
  · rintro (_ | _) <;> rfl

/-- Restrictions are read as they are meant. -/
theorem restriction?_eq_some_iff {r : Restriction} :
    restriction? k = some r ↔ IsRestriction k r := by
  constructor
  · intro h
    cases k <;> cases h <;> constructor
  · rintro (_ | _) <;> rfl

/-- No relation is a sign. -/
theorem IsRelation.not_isSign {r : Relation} (h : IsRelation k r) {σ : α} : ¬IsSign k σ := by
  intro hsign
  cases h <;> cases hsign

/-- No number is a sign. -/
theorem IsNumber.not_isSign {t : Token} {v : α} (h : IsNumber t v) {σ : α} :
    ¬IsSign t.kind σ := by
  intro hsign
  obtain ⟨hkind, -⟩ := h
  rw [hkind] at hsign
  cases hsign

/-! ## Lines -/

/-- Pairs of a sign and a number, with the signed numbers. -/
inductive Coefficients : List Token → List α → Prop
  | nil : Coefficients [] []
  | cons {s n : Token} {σ v : α} {ts : List Token} {as : List α} (sign : IsSign s.kind σ)
      (number : IsNumber n v) (rest : Coefficients ts as) :
      Coefficients (s :: n :: ts) (σ * v :: as)

/-- A number with or without a sign. -/
inductive RightHandSide : List Token → α → Prop
  | signed {s n : Token} {σ v : α} (sign : IsSign s.kind σ) (number : IsNumber n v) :
      RightHandSide [s, n] (σ * v)
  | unsigned {n : Token} {v : α} (number : IsNumber n v) : RightHandSide [n] (1 * v)

/-- A sense and the coefficients of the objective, of which there is at least one. -/
inductive ObjectiveLine : List Token → Sense → List α → Prop
  | mk {t : Token} {ts : List Token} {s : Sense} {as : List α} (sense : IsSense t.kind s)
      (pairs : Coefficients ts as) (ne : as ≠ []) : ObjectiveLine (t :: ts) s as

/-- The coefficients of a constraint, its relation and its right-hand side. -/
inductive ConstraintLine : List Token → Constraint α → Prop
  | mk {t : Token} {ts us : List Token} {as : List α} {r : Relation} {b : α}
      (pairs : Coefficients ts as) (relation : IsRelation t.kind r) (rhs : RightHandSide us b) :
      ConstraintLine (ts ++ t :: us) ⟨as, r, b⟩

/-- The problem that the parts of a text make up. -/
def assemble (s : Sense) (as : List α) (ks : List (Constraint α)) (rs : List Restriction) :
    Problem α where
  sense := s
  vars := (as.zip rs).mapIdx fun i e => ⟨i, e.1, e.2⟩
  constraints := ks

/-- The problem that lines describe: the first one has the objective, the last one a restriction for
each variable, and each of the others a constraint with one coefficient for each variable. -/
inductive Describes : List (List Token) → Problem α → Prop
  | mk {first last : List Token} {middle : List (List Token)} {s : Sense} {as : List α}
      {ks : List (Constraint α)} {rs : List Restriction} (objective : ObjectiveLine first s as)
      (constraints : List.Forall₂ ConstraintLine middle ks)
      (coefficients : ∀ k ∈ ks, k.coefficients.length = as.length)
      (restrictions : List.Forall₂ (fun t r => IsRestriction t.kind r) last rs)
      (length : rs.length = as.length) :
      Describes (first :: (middle ++ [last])) (assemble s as ks rs)

/-! ## Reading -/

variable {l : Line} {ts rest : List Token}

/-- A number is read exactly if the next token is one. -/
theorem readNumber_eq_ok_iff {v : α} :
    readNumber l ts = .ok (v, rest) ↔ ∃ t, ts = t :: rest ∧ IsNumber t v := by
  constructor
  · intro h
    cases ts with
    | nil => exact absurd h (unexpected_ne_ok l .number [] (v, rest))
    | cons t ts =>
      rw [readNumber] at h
      split_ifs at h with hkind
      · exact absurd h (unexpected_ne_ok _ _ _ _)
      · split at h
        · rename_i d hd
          obtain ⟨rfl, rfl⟩ := Prod.mk.inj (Except.ok.inj h)
          exact ⟨t, rfl, .mk (not_not.1 hkind) (Decimal.ofChars?_eq_some_iff.1 hd)⟩
        · cases h
  · rintro ⟨t, rfl, hkind, hnumeral⟩
    rw [readNumber, if_neg (not_not.2 hkind), Decimal.ofChars?_eq_some_iff.2 hnumeral]

/-- What no sign begins has no pair. -/
theorem readPairs_of_stop (h : ∀ t ∈ ts.head?, ∀ σ : α, ¬IsSign t.kind σ) :
    readPairs l ts = .ok (([] : List α), ts) := by
  cases ts with
  | nil => rfl
  | cons t ts => rw [readPairs, sign?_eq_none_iff.2 (h t rfl)]

/-- A sign begins a pair, and more may follow. -/
theorem readPairs_cons_eq_ok_iff {s : Token} {σ : α} (hs : IsSign s.kind σ) {as : List α} :
    readPairs l (s :: ts) = .ok (as, rest) ↔ ∃ n us v vs, ts = n :: us ∧ IsNumber n v ∧
      readPairs l us = .ok (vs, rest) ∧ σ * v :: vs = as := by
  rw [readPairs, sign?_eq_some_iff.2 hs]
  cases ts with
  | nil => exact iff_of_false (unexpected_ne_ok _ _ _ _) (by rintro ⟨n, us, v, vs, h, -⟩; cases h)
  | cons n us =>
    simp only [bind_eq_ok_iff, Prod.exists, readNumber_eq_ok_iff]
    constructor
    · rintro ⟨v, us', ⟨n', hus, hn⟩, vs, rest', hread, h⟩
      obtain ⟨rfl, rfl⟩ := List.cons.inj hus
      obtain ⟨rfl, rfl⟩ := Prod.mk.inj (Except.ok.inj h)
      exact ⟨n, us, v, vs, rfl, hn, hread, rfl⟩
    · rintro ⟨n', us', v, vs, hus, hn, hread, rfl⟩
      obtain ⟨rfl, rfl⟩ := List.cons.inj hus
      exact ⟨v, us, ⟨n, rfl, hn⟩, vs, rest, hread, rfl⟩

/-- The pairs that are read, up to the first token that is no sign. -/
theorem coefficients_of_readPairs : ∀ {ts : List Token} {as : List α},
    readPairs l ts = .ok (as, rest) → ∃ us, ts = us ++ rest ∧ Coefficients us as ∧
      ∀ t ∈ rest.head?, ∀ σ : α, ¬IsSign t.kind σ
  | [], _, h => by
    obtain ⟨rfl, rfl⟩ := Prod.mk.inj (Except.ok.inj h)
    exact ⟨[], rfl, .nil, nofun⟩
  | t :: ts, as, h => by
    by_cases hs : ∃ σ : α, IsSign t.kind σ
    · obtain ⟨σ, hs⟩ := hs
      obtain ⟨n, us, v, vs, rfl, hn, hread, rfl⟩ := (readPairs_cons_eq_ok_iff hs).1 h
      obtain ⟨us', rfl, hpairs, hstop⟩ := coefficients_of_readPairs hread
      exact ⟨t :: n :: us', rfl, .cons hs hn hpairs, hstop⟩
    · have hstop : ∀ u ∈ (t :: ts).head?, ∀ σ : α, ¬IsSign u.kind σ := by
        rintro u ⟨⟩
        exact not_exists.1 hs
      obtain ⟨rfl, rfl⟩ := Prod.mk.inj (Except.ok.inj ((readPairs_of_stop hstop).symm.trans h))
      exact ⟨[], rfl, .nil, hstop⟩

/-- Pairs are read up to the first token that is no sign. -/
theorem readPairs_eq_ok_iff {as : List α} : readPairs l ts = .ok (as, rest) ↔
    ∃ us, ts = us ++ rest ∧ Coefficients us as ∧ ∀ t ∈ rest.head?, ∀ σ : α, ¬IsSign t.kind σ := by
  refine ⟨coefficients_of_readPairs, ?_⟩
  rintro ⟨us, rfl, hpairs, hstop⟩
  induction hpairs with
  | nil => exact readPairs_of_stop hstop
  | cons hs hn _ ih =>
    exact (readPairs_cons_eq_ok_iff hs).2 ⟨_, _, _, _, rfl, hn, ih, rfl⟩

/-- A number is read to the end of the line. -/
theorem readLast_eq_ok_iff {σ b : α} :
    (readNumber l ts >>= fun e => expectEnd l e.2 >>= fun _ => .ok (σ * e.1)) = .ok b ↔
      ∃ n v, ts = [n] ∧ IsNumber n v ∧ σ * v = b := by
  simp only [bind_eq_ok_iff, Prod.exists, readNumber_eq_ok_iff, expectEnd_eq_ok_iff]
  constructor
  · rintro ⟨v, us, ⟨n, rfl, hn⟩, _, rfl, h⟩
    exact ⟨n, v, rfl, hn, Except.ok.inj h⟩
  · rintro ⟨n, v, rfl, hn, rfl⟩
    exact ⟨v, [], ⟨n, rfl, hn⟩, (), rfl, rfl⟩

/-- After a sign a right-hand side is a number, and nothing follows it. -/
theorem readRhs_of_isSign {t : Token} {σ : α} (hs : IsSign t.kind σ) : readRhs l (t :: ts) =
    (readNumber l ts >>= fun e => expectEnd l e.2 >>= fun _ => .ok (σ * e.1)) := by
  rw [readRhs, sign?_eq_some_iff.2 hs]
  rfl

/-- Where no sign comes first, the sign is plus. -/
theorem readRhs_of_stop (h : ∀ t ∈ ts.head?, ∀ σ : α, ¬IsSign t.kind σ) : readRhs l ts =
    (readNumber l ts >>= fun e => expectEnd l e.2 >>= fun _ => .ok (1 * e.1 : α)) := by
  cases ts with
  | nil => rfl
  | cons t ts =>
    rw [readRhs, sign?_eq_none_iff.2 (h t rfl)]
    rfl

/-- Reading a right-hand side accepts the lines of this form and no others. -/
theorem readRhs_eq_ok_iff {b : α} : readRhs l ts = .ok b ↔ RightHandSide ts b := by
  constructor
  · intro h
    by_cases hs : ∃ t ∈ ts.head?, ∃ σ : α, IsSign t.kind σ
    · obtain ⟨t, ht, σ, hs⟩ := hs
      obtain ⟨us, rfl⟩ := List.head?_eq_some_iff.1 ht
      obtain ⟨n, v, rfl, hn, rfl⟩ := readLast_eq_ok_iff.1 ((readRhs_of_isSign hs).symm.trans h)
      exact .signed hs hn
    · have hstop : ∀ t ∈ ts.head?, ∀ σ : α, ¬IsSign t.kind σ :=
        fun t ht σ hσ => hs ⟨t, ht, σ, hσ⟩
      obtain ⟨n, v, rfl, hn, rfl⟩ := readLast_eq_ok_iff.1 ((readRhs_of_stop hstop).symm.trans h)
      exact .unsigned hn
  · intro h
    cases h with
    | signed hs hn =>
      exact (readRhs_of_isSign hs).trans (readLast_eq_ok_iff.2 ⟨_, _, rfl, hn, rfl⟩)
    | unsigned hn =>
      refine (readRhs_of_stop ?_).trans (readLast_eq_ok_iff.2 ⟨_, _, rfl, hn, rfl⟩)
      rintro t ⟨⟩ σ
      exact hn.not_isSign

/-- Reading a constraint accepts the lines of this form with a coefficient for every variable. -/
theorem readConstraint_eq_ok_iff {n : ℕ} {c : Constraint α} : readConstraint n l = .ok c ↔
    ConstraintLine l.tokens c ∧ c.coefficients.length = n := by
  obtain ⟨number, ts⟩ := l
  rw [readConstraint, bind_eq_ok_iff]
  constructor
  · rintro ⟨⟨as, rest⟩, hpairs, h⟩
    obtain ⟨us, rfl, hcoefficients, -⟩ := readPairs_eq_ok_iff.1 hpairs
    dsimp only at h
    split_ifs at h with hlength
    cases rest with
    | nil => exact absurd h (unexpected_ne_ok ⟨number, us ++ []⟩ .relation [] c)
    | cons t rest =>
      cases hr : relation? t.kind with
      | none =>
        simp only [hr] at h
        exact absurd h (unexpected_ne_ok _ .relation (t :: rest) c)
      | some r =>
        simp only [hr] at h
        obtain ⟨b, hb, h⟩ := bind_eq_ok_iff.1 h
        obtain rfl := Except.ok.inj h
        exact ⟨.mk hcoefficients (relation?_eq_some_iff.1 hr) (readRhs_eq_ok_iff.1 hb),
          not_not.1 hlength⟩
  · rintro ⟨hline, hlength⟩
    cases hline with
    | mk hpairs hrelation hrhs =>
      refine ⟨(_, _), readPairs_eq_ok_iff.2 ⟨_, rfl, hpairs, ?_⟩, ?_⟩
      · rintro t ⟨⟩ σ
        exact hrelation.not_isSign
      · dsimp only
        rw [if_neg (not_not.2 hlength), relation?_eq_some_iff.2 hrelation]
        exact bind_eq_ok_iff.2 ⟨_, readRhs_eq_ok_iff.2 hrhs, rfl⟩

/-- Reading an objective accepts the lines of this form and no others. -/
theorem readObjective_eq_ok_iff {p : Problem α} : readObjective l = .ok p ↔
    ∃ s as, ObjectiveLine l.tokens s as ∧ p = .ofObjective s as := by
  obtain ⟨number, ts⟩ := l
  rw [readObjective]
  constructor
  · intro h
    cases ts with
    | nil => exact absurd h (unexpected_ne_ok _ .sense [] p)
    | cons t ts =>
      cases hs : sense? t.kind with
      | none =>
        simp only [hs] at h
        exact absurd h (unexpected_ne_ok _ .sense (t :: ts) p)
      | some s =>
        simp only [hs] at h
        obtain ⟨⟨as, rest⟩, hpairs, h⟩ := bind_eq_ok_iff.1 h
        obtain ⟨us, rfl, hcoefficients, -⟩ := readPairs_eq_ok_iff.1 hpairs
        dsimp only at h
        split_ifs at h with hempty
        · exact absurd h (unexpected_ne_ok _ .sign rest p)
        · obtain ⟨_, hend, h⟩ := bind_eq_ok_iff.1 h
          obtain rfl := expectEnd_eq_ok_iff.1 hend
          refine ⟨s, as, ?_, (Except.ok.inj h).symm⟩
          rw [List.append_nil]
          exact .mk (sense?_eq_some_iff.1 hs) hcoefficients (by simpa using hempty)
  · rintro ⟨s, as, hline, rfl⟩
    cases hline with
    | mk hsense hpairs hne =>
      simp only [sense?_eq_some_iff.2 hsense]
      refine bind_eq_ok_iff.2 ⟨(as, []), readPairs_eq_ok_iff.2
        ⟨_, (List.append_nil _).symm, hpairs, nofun⟩, ?_⟩
      dsimp only
      rw [if_neg (by simpa using hne)]
      exact bind_eq_ok_iff.2 ⟨(), rfl, rfl⟩

/-- Reading restrictions accepts the lines whose tokens all are restrictions. -/
theorem readRestrictions_eq_ok_iff {β : Type} {rs : List Restriction} :
    (readRestrictions l : Except (ParseError β) (List Restriction)) = .ok rs ↔
      List.Forall₂ (fun t r => IsRestriction t.kind r) l.tokens rs := by
  obtain ⟨number, ts⟩ := l
  rw [readRestrictions]
  dsimp only
  induction ts generalizing rs with
  | nil => exact ⟨fun h => Except.ok.inj h ▸ .nil, fun h => by cases h; rfl⟩
  | cons t ts ih =>
    rw [List.mapM_cons]
    simp only [bind_eq_ok_iff, ih]
    constructor
    · rintro ⟨r, hr, rs, hrs, h⟩
      rw [← Except.ok.inj h]
      refine .cons ?_ hrs
      split at hr
      · rename_i r' hr'
        exact Except.ok.inj hr ▸ restriction?_eq_some_iff.1 hr'
      · cases hr
    · intro h
      cases h with
      | cons hr hrs =>
        refine ⟨_, ?_, _, hrs, rfl⟩
        rw [restriction?_eq_some_iff.2 hr]

/-! ## Problems -/

/-- Problems over an objective have a variable for each of its coefficients. -/
theorem ofObjective_eq (s : Sense) (as : List α) : Problem.ofObjective s as =
    { sense := s, vars := as.mapIdx fun i a => ⟨i, a, .nonNegative⟩ } := by
  induction as using List.reverseRecOn with
  | nil => rfl
  | append_singleton as a ih =>
    have hconcat : Problem.ofObjective s (as ++ [a]) =
        (Problem.ofObjective s as).addVariable a .nonNegative := List.foldl_concat _ _ _ _
    rw [hconcat, ih, List.mapIdx_concat]
    simp [Problem.addVariable, Problem.numVariables]

/-- An objective has a variable for every coefficient. -/
theorem numVariables_ofObjective (s : Sense) (as : List α) :
    (Problem.ofObjective s as).numVariables = as.length := by
  rw [ofObjective_eq]
  exact List.length_mapIdx

/-- A constraint with a coefficient for each variable is added as it is. -/
theorem addConstraint_of_length {p : Problem α} {c : Constraint α}
    (hc : c.coefficients.length = p.numVariables) :
    (p.addConstraint c).mapError ParseError.problem =
      .ok { p with constraints := p.constraints ++ [c] } := by
  have hpad : c.padTo p.numVariables = c := by
    rw [Constraint.padTo, hc, Nat.sub_self, List.replicate_zero, List.append_nil]
  rw [Problem.addConstraint_eq, if_neg hc.not_gt, hpad]
  rfl

/-- A line is added exactly if it is a constraint on the variables that there are. -/
theorem addLine_eq_ok_iff {p q : Problem α} : addLine p l = .ok q ↔
    ∃ c, ConstraintLine l.tokens c ∧ c.coefficients.length = p.numVariables ∧
      { p with constraints := p.constraints ++ [c] } = q := by
  rw [addLine, bind_eq_ok_iff]
  constructor
  · rintro ⟨c, hread, h⟩
    obtain ⟨hline, hlength⟩ := readConstraint_eq_ok_iff.1 hread
    exact ⟨c, hline, hlength, Except.ok.inj ((addConstraint_of_length hlength).symm.trans h)⟩
  · rintro ⟨c, hline, hlength, rfl⟩
    exact ⟨c, readConstraint_eq_ok_iff.2 ⟨hline, hlength⟩, addConstraint_of_length hlength⟩

/-- A line restricts the variables exactly if it has one restriction for each of them. -/
theorem restrict_eq_ok_iff {β : Type} {p q : Problem β} : restrict p l = .ok q ↔
    ∃ rs, List.Forall₂ (fun t r => IsRestriction t.kind r) l.tokens rs ∧
      rs.length = p.numVariables ∧
        { p with vars := p.vars.zipWith (fun v r => { v with restriction := r }) rs } = q := by
  rw [restrict, bind_eq_ok_iff]
  simp only [readRestrictions_eq_ok_iff]
  refine exists_congr fun rs => and_congr_right fun _ => ?_
  split_ifs with hlength
  · exact iff_of_false nofun fun h => hlength h.1
  · rw [and_iff_right (not_not.1 hlength), Problem.withRestrictions_eq, if_neg hlength]
    exact ⟨Except.ok.inj, fun h => congrArg _ h⟩

/-- Lines are read in three parts: the first, those in the middle, and the last. -/
theorem readLines_concat (first : Line) (middle : List Line) (last : Line) :
    (readLines (first :: (middle ++ [last])) : Except (ParseError α) (Problem α)) =
      readObjective first >>= fun p => middle.foldlM addLine p >>= fun p => restrict p last := by
  cases middle with
  | nil => rfl
  | cons second middle =>
    rw [List.cons_append, readLines]
    simp only [← List.cons_append, List.dropLast_concat, List.getLast_concat]

/-- The kinds of `n` pairs of a sign and a number. -/
inductive Pairs : ℕ → List TokenKind → Prop
  | zero : Pairs 0 []
  | succ {n : ℕ} {k : TokenKind} {ks : List TokenKind} (sign : k = .plus ∨ k = .minus)
      (rest : Pairs n ks) : Pairs (n + 1) (k :: .number :: ks)

/-- The kinds of a constraint line over `n` variables. -/
def IsConstraint (n : ℕ) (ks : List TokenKind) : Prop :=
  ∃ pairs relation sign, ks = pairs ++ relation :: (sign ++ [.number]) ∧ Pairs n pairs ∧
    (relation = .le ∨ relation = .ge ∨ relation = .eq) ∧
    (sign = [] ∨ sign = [.plus] ∨ sign = [.minus])

/-- The tokens that are signs. -/
theorem exists_isSign_iff : (∃ σ : α, IsSign k σ) ↔ k = .plus ∨ k = .minus := by
  constructor
  · rintro ⟨σ, h⟩
    cases h <;> simp
  · rintro (rfl | rfl)
    · exact ⟨1, .plus⟩
    · exact ⟨-1, .minus⟩

/-- The tokens that are senses. -/
theorem exists_isSense_iff : (∃ s, IsSense k s) ↔ k = .max ∨ k = .min := by
  constructor
  · rintro ⟨s, h⟩
    cases h <;> simp
  · rintro (rfl | rfl)
    · exact ⟨.maximize, .max⟩
    · exact ⟨.minimize, .min⟩

/-- The tokens that are relations. -/
theorem exists_isRelation_iff : (∃ r, IsRelation k r) ↔ k = .le ∨ k = .ge ∨ k = .eq := by
  constructor
  · rintro ⟨r, h⟩
    cases h <;> simp
  · rintro (rfl | rfl | rfl)
    · exact ⟨.le, .le⟩
    · exact ⟨.ge, .ge⟩
    · exact ⟨.eq, .eq⟩

/-- The tokens that are restrictions. -/
theorem exists_isRestriction_iff : (∃ r, IsRestriction k r) ↔
    k = .plus ∨ k = .minus ∨ k = .urs ∨ k = .int ∨ k = .bin := by
  constructor
  · rintro ⟨r, h⟩
    cases h <;> simp
  · rintro (rfl | rfl | rfl | rfl | rfl)
    · exact ⟨.nonNegative, .plus⟩
    · exact ⟨.nonPositive, .minus⟩
    · exact ⟨.unrestricted, .urs⟩
    · exact ⟨.integer, .int⟩
    · exact ⟨.binary, .bin⟩

/-- A token has a value if it is of the kind of numbers. -/
theorem exists_isNumber_iff {t : Token} (h : t.kind = .number → ∃ d, Numeral t.text d) :
    (∃ v : α, IsNumber t v) ↔ t.kind = .number := by
  constructor
  · rintro ⟨v, hkind, -⟩
    exact hkind
  · intro hkind
    obtain ⟨d, hd⟩ := h hkind
    exact ⟨_, .mk hkind hd⟩

/-- Pairs of tokens have coefficients, one for each pair. -/
theorem exists_coefficients_iff {n : ℕ} (h : Readable ts) :
    (∃ as : List α, Coefficients ts as ∧ as.length = n) ↔ Pairs n (ts.map Token.kind) := by
  constructor
  · rintro ⟨as, has, rfl⟩
    induction has with
    | nil => exact .zero
    | cons hs hn _ ih =>
      obtain ⟨hkind, -⟩ := hn
      have hrest := (List.forall_mem_cons.1 (List.forall_mem_cons.1 h).2).2
      rw [List.map_cons, List.map_cons, hkind]
      exact .succ (exists_isSign_iff.1 ⟨_, hs⟩) (ih hrest)
  · intro hpairs
    generalize hks : ts.map Token.kind = ks at hpairs
    induction hpairs generalizing ts with
    | zero =>
      obtain rfl := List.map_eq_nil_iff.1 hks
      exact ⟨[], .nil, rfl⟩
    | succ hsign _ ih =>
      obtain ⟨s, _, rfl, rfl, htail⟩ := List.map_eq_cons_iff.1 hks
      obtain ⟨n, ts, rfl, hkind, rfl⟩ := List.map_eq_cons_iff.1 htail
      obtain ⟨hn, hrest⟩ := List.forall_mem_cons.1 (List.forall_mem_cons.1 h).2
      obtain ⟨σ, hs⟩ := exists_isSign_iff (α := α).2 hsign
      obtain ⟨v, hv⟩ := (exists_isNumber_iff (α := α) hn).2 hkind
      obtain ⟨as, has, rfl⟩ := ih hrest rfl
      exact ⟨_, .cons hs hv has, rfl⟩

/-- Whether tokens are a right-hand side depends on their kinds alone. -/
theorem exists_rightHandSide_iff (h : Readable ts) : (∃ b : α, RightHandSide ts b) ↔
    ∃ sign, ts.map Token.kind = sign ++ [.number] ∧
      (sign = [] ∨ sign = [.plus] ∨ sign = [.minus]) := by
  constructor
  · rintro ⟨b, hb⟩
    cases hb with
    | @signed s n σ v hs hn =>
      obtain ⟨hkind, -⟩ := hn
      refine ⟨[s.kind], by rw [← hkind]; rfl, .inr ?_⟩
      exact (exists_isSign_iff.1 ⟨σ, hs⟩).imp (congrArg ([·])) (congrArg ([·]))
    | @unsigned n v hn =>
      obtain ⟨hkind, -⟩ := hn
      exact ⟨[], by rw [← hkind]; rfl, .inl rfl⟩
  · rintro ⟨sign, hts, hsign⟩
    rcases hsign with rfl | hsign
    · obtain ⟨n, rfl, hkind⟩ := List.map_eq_singleton_iff.1 hts
      obtain ⟨v, hv⟩ := (exists_isNumber_iff (α := α) (h n (List.mem_singleton_self n))).2 hkind
      exact ⟨_, .unsigned hv⟩
    · obtain ⟨k, rfl, hk⟩ : ∃ k, sign = [k] ∧ (k = .plus ∨ k = .minus) := by
        rcases hsign with rfl | rfl
        · exact ⟨.plus, rfl, .inl rfl⟩
        · exact ⟨.minus, rfl, .inr rfl⟩
      obtain ⟨s, _, rfl, rfl, htail⟩ := List.map_eq_cons_iff.1 hts
      obtain ⟨n, rfl, hkind⟩ := List.map_eq_singleton_iff.1 htail
      obtain ⟨σ, hs⟩ := exists_isSign_iff (α := α).2 hk
      have hn := h n (List.mem_cons_of_mem s (List.mem_singleton_self n))
      obtain ⟨v, hv⟩ := (exists_isNumber_iff (α := α) hn).2 hkind
      exact ⟨_, .signed hs hv⟩

/-- Whether tokens are a constraint on a number of variables depends on their kinds alone. -/
theorem exists_constraintLine_iff {n : ℕ} (h : Readable ts) :
    (∃ c : Constraint α, ConstraintLine ts c ∧ c.coefficients.length = n) ↔
      IsConstraint n (ts.map Token.kind) := by
  constructor
  · rintro ⟨c, hline, rfl⟩
    cases hline with
    | @mk t ts us as r b hpairs hrelation hrhs =>
      obtain ⟨hts, htail⟩ := List.forall_mem_append.1 h
      obtain ⟨sign, hsign, hone⟩ :=
        (exists_rightHandSide_iff (List.forall_mem_cons.1 htail).2).1 ⟨b, hrhs⟩
      refine ⟨ts.map Token.kind, t.kind, sign, ?_, ?_, exists_isRelation_iff.1 ⟨r, hrelation⟩, hone⟩
      · rw [List.map_append, List.map_cons, hsign]
      · exact (exists_coefficients_iff hts).1 ⟨as, hpairs, rfl⟩
  · rintro ⟨pairs, relation, sign, hts, hpairs, hrelation, hsign⟩
    obtain ⟨ts, tail, rfl, rfl, htail⟩ := List.map_eq_append_iff.1 hts
    obtain ⟨t, us, rfl, rfl, hus⟩ := List.map_eq_cons_iff.1 htail
    obtain ⟨hts, htail⟩ := List.forall_mem_append.1 h
    obtain ⟨as, has, hlength⟩ := (exists_coefficients_iff (α := α) hts).2 hpairs
    obtain ⟨r, hr⟩ := exists_isRelation_iff.2 hrelation
    obtain ⟨b, hb⟩ := (exists_rightHandSide_iff (α := α) (List.forall_mem_cons.1 htail).2).2
      ⟨sign, hus, hsign⟩
    exact ⟨_, .mk has hr hb, hlength⟩

end LinOpt.ProblemText
