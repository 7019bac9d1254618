import LinOpt.Error
import LinOpt.ProblemText.Token

/-!
# Errors of the problem text

What can be wrong with a problem text, with the place where it shows. `LinOpt.Text.Wording` has the
texts of the other errors; those of these stand here, since they are all about tokens.
-/

namespace LinOpt

/-- What was expected in place of a token. -/
inductive Expectation where
  | sense
  | sign
  | number
  | relation
  | endOfLine
  deriving DecidableEq

/-- Why a text is no problem. -/
inductive ParseError (α : Type) where
  /-- Another token was expected; without a token, the line ended. -/
  | unexpectedToken (expected : Expectation) (found : Option (List Char)) (span : Span)
  /-- There is no line. -/
  | unexpectedEnd
  | invalidNumber (text : List Char)
  | unknownRestriction (text : List Char) (span : Span)
  | coefficientCount (line expected found : Nat)
  | restrictionCount (expected found : Nat)
  /-- There is only one line. -/
  | missingLines
  | problem (error : Error α)
  deriving DecidableEq

/-- The written expectation. -/
def Expectation.text : Expectation → String
  | .sense => "'max' or 'min'"
  | .sign => "'+' or '-'"
  | .number => "number"
  | .relation => "'<=', '>=' or '='"
  | .endOfLine => "end of line"

/-- The written place. -/
def Span.text (s : Span) : String := s!"Span \x7b start: {s.start}, end: {s.stop} \x7d"

/-- What is wrong with a text. -/
def ParseError.message {α : Type} (problemMessage : Error α → String) : ParseError α → String
  | .unexpectedToken expected found span =>
    let found := match found with
      | some text => "'" ++ String.ofList text ++ "'"
      | none => "end of line"
    s!"Unexpected token: expected {expected.text}, found {found} at position {span.text}"
  | .unexpectedEnd => "Unexpected end of file"
  | .invalidNumber text => "Invalid number: " ++ String.ofList text
  | .unknownRestriction text span =>
    s!"Unknown restriction '{String.ofList text}' at position {span.text}; " ++
      "expected +, -, urs, int or bin"
  | .coefficientCount line expected found =>
    s!"Line {line}: expected {expected} coefficients, found {found}"
  | .restrictionCount expected found => s!"Expected {expected} restrictions, found {found}"
  | .missingLines => "A problem needs an objective line and a restriction line"
  | .problem error => problemMessage error

end LinOpt
