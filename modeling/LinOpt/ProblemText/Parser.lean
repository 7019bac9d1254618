import LinOpt.Problem.Build
import LinOpt.ProblemText.ParseError

/-!
# Reading a problem text

The format goes line by line; blank lines and comments do not count:

    max + 3 + 5
    + 1 + 0 <= 4
    + 3 + 2 <= 18
    + int

The first line is the objective, the last one restricts each variable and those in between are
constraints. Coefficients are a sign and a number each. A text is refused at the first line, from
the top, that is not what it should be.
-/

namespace LinOpt.ProblemText

/-- The tokens of a line that is not blank, with its number counted from one. -/
structure Line where
  number : Nat
  tokens : List Token
  deriving DecidableEq

/-- The lines of a token list, given the number of the present line and its tokens so far. -/
def linesFrom : (number : Nat) → (current : List Token) → List Token → List Line
  | _, _, [] => []
  | number, current, t :: rest =>
    match t.kind with
    | .newline | .eof =>
      let later := linesFrom (number + 1) [] rest
      if current.isEmpty then later else ⟨number, current⟩ :: later
    | .comment => linesFrom number current rest
    | _ => linesFrom number (current ++ [t]) rest

/-- The lines of a token list that ends with the end of the text. -/
def lines (ts : List Token) : List Line := linesFrom 1 [] ts

/-- The place just behind a line. -/
def Line.stop (l : Line) : Span :=
  let stop := (l.tokens.getLast?.map (·.span.stop)).getD 0
  ⟨stop, stop⟩

variable {α : Type} [Scalar α]

/-- Something else was expected at the rest of a line. -/
def unexpected {β : Type} (l : Line) (expected : Expectation) :
    List Token → Except (ParseError α) β
  | t :: _ => .error (.unexpectedToken expected (some t.text) t.span)
  | [] => .error (.unexpectedToken expected none l.stop)

/-- The line ends here. -/
def expectEnd (l : Line) (rest : List Token) : Except (ParseError α) Unit :=
  if rest.isEmpty then .ok () else unexpected l .endOfLine rest

/-- The factor a sign stands for. -/
def sign? : TokenKind → Option α
  | .plus => some 1
  | .minus => some (-1)
  | _ => none

/-- Reads a number. -/
def readNumber (l : Line) : List Token → Except (ParseError α) (α × List Token)
  | [] => unexpected l .number []
  | t :: rest =>
    if t.kind ≠ .number then unexpected l .number (t :: rest)
    else match Decimal.ofChars? t.text with
      | some d => .ok (Scalar.ofDecimal d, rest)
      | none => .error (.invalidNumber t.text)

/-- Reads pairs of a sign and a number until something else than a sign comes. -/
def readPairs (l : Line) : List Token → Except (ParseError α) (List α × List Token)
  | [] => .ok ([], [])
  | t :: rest =>
    match sign? t.kind with
    | none => .ok ([], t :: rest)
    | some s =>
      match rest with
      | [] => unexpected l .number []
      | n :: rest => do
        let (v, _) ← readNumber l (n :: rest)
        let (vs, rest) ← readPairs l rest
        return (s * v :: vs, rest)

/-- The sense a word stands for. -/
def sense? : TokenKind → Option Sense
  | .max => some .maximize
  | .min => some .minimize
  | _ => none

/-- Reads the objective line into a problem over non-negative variables. -/
def readObjective (l : Line) : Except (ParseError α) (Problem α) :=
  match l.tokens with
  | [] => unexpected l .sense []
  | t :: rest =>
    match sense? t.kind with
    | none => unexpected l .sense (t :: rest)
    | some sense => do
      let (coefficients, rest) ← readPairs l rest
      if coefficients.isEmpty then unexpected l .sign rest
      else
        expectEnd l rest
        return .ofObjective sense coefficients

/-- The relation a token stands for. -/
def relation? : TokenKind → Option Relation
  | .le => some .le
  | .ge => some .ge
  | .eq => some .eq
  | _ => none

/-- Reads a right-hand side, whose sign may be left out, up to the end of the line. -/
def readRhs (l : Line) (ts : List Token) : Except (ParseError α) α := do
  let (s, ts) : α × List Token := match ts with
    | t :: rest =>
      match sign? t.kind with
      | some s => (s, rest)
      | none => (1, t :: rest)
    | [] => (1, [])
  let (v, rest) ← readNumber l ts
  expectEnd l rest
  return s * v

/-- Reads a constraint over `n` variables. -/
def readConstraint (n : Nat) (l : Line) : Except (ParseError α) (Constraint α) := do
  let (coefficients, rest) ← readPairs l l.tokens
  if coefficients.length ≠ n then .error (.coefficientCount l.number n coefficients.length)
  else match rest with
    | [] => unexpected l .relation []
    | t :: rest =>
      match relation? t.kind with
      | none => unexpected l .relation (t :: rest)
      | some relation => return ⟨coefficients, relation, ← readRhs l rest⟩

/-- The restriction a token stands for. -/
def restriction? : TokenKind → Option Restriction
  | .plus => some .nonNegative
  | .minus => some .nonPositive
  | .urs => some .unrestricted
  | .int => some .integer
  | .bin => some .binary
  | _ => none

/-- Reads the restriction of every token. -/
def readRestrictions (l : Line) : Except (ParseError α) (List Restriction) :=
  l.tokens.mapM fun t =>
    match restriction? t.kind with
    | some r => .ok r
    | none => .error (.unknownRestriction t.text t.span)

/-- Adds a constraint that was read. -/
def addLine (p : Problem α) (l : Line) : Except (ParseError α) (Problem α) := do
  let k ← readConstraint p.numVariables l
  (p.addConstraint k).mapError .problem

/-- Restricts the variables as the last line says. -/
def restrict (p : Problem α) (l : Line) : Except (ParseError α) (Problem α) := do
  let restrictions ← readRestrictions l
  if restrictions.length ≠ p.numVariables then
    .error (.restrictionCount p.numVariables restrictions.length)
  else (p.withRestrictions restrictions).mapError .problem

/-- Reads the lines of a text. -/
def readLines : List Line → Except (ParseError α) (Problem α)
  | [] => .error .unexpectedEnd
  | [_] => .error .missingLines
  | objective :: second :: rest => do
    let p ← readObjective objective
    let p ← ((second :: rest).dropLast).foldlM addLine p
    restrict p ((second :: rest).getLast (List.cons_ne_nil second rest))

/-- Reads a problem text. -/
def parse (text : String) : Except (ParseError α) (Problem α) := readLines (lines (tokens text))

end LinOpt.ProblemText
