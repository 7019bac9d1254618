import LinOpt.ProblemText.CharClass

/-!
# Tokens of the problem text

`tokens` cuts a text into tokens up to the end, whatever the text is: a character that starts
nothing else is a token of its own (`TokenKind.error`). Blanks separate tokens and are dropped,
newlines and comments are tokens. Every token knows its place in the text, in bytes of its UTF-8
form.

A token is found by its first character and the number of characters that go with it, so that the
tokens and the blanks between them make up the text by construction.
-/

namespace LinOpt

/-- What a token is. -/
inductive TokenKind where
  | max
  | min
  | urs
  | int
  | bin
  | number
  | ident
  | plus
  | minus
  | le
  | ge
  | eq
  | newline
  | comment
  /-- The end of the text. -/
  | eof
  | error
  deriving DecidableEq

/-- A range of bytes, the end not included. -/
structure Span where
  start : Nat
  stop : Nat
  deriving DecidableEq

/-- A token, its place and its text. -/
structure Token where
  kind : TokenKind
  span : Span
  text : List Char
  deriving DecidableEq

namespace ProblemText

/-- Number of bytes of a text. -/
def byteLength : List Char → Nat
  | [] => 0
  | c :: cs => c.utf8Size + byteLength cs

/-- Characters that separate tokens. -/
def isBlank (c : Char) : Bool := c == ' ' || c == '\t' || c == '\r'

/-- Characters that words start with. -/
def isWordStart (c : Char) : Bool := CharClass.isAlphabetic c || c == '_'

/-- Characters that words go on with. -/
def isWordPart (c : Char) : Bool := CharClass.isAlphanumeric c || c == '_'

/-! ## Lengths -/

/-- Number of leading digits. -/
def digitsLength (cs : List Char) : Nat := (cs.takeWhile Char.isDigit).length

/-- Length of a leading point with the digits after it, of which there may be none. -/
def fractionLength : List Char → Nat
  | '.' :: rest => 1 + digitsLength rest
  | _ => 0

/-- Length of a leading sign. -/
def signLength : List Char → Nat
  | '+' :: _ | '-' :: _ => 1
  | _ => 0

/-- Length of a leading exponent, which has at least one digit. -/
def exponentLength : List Char → Nat
  | 'e' :: rest | 'E' :: rest =>
    let sign := signLength rest
    let digits := digitsLength (rest.drop sign)
    if digits = 0 then 0 else 1 + sign + digits
  | _ => 0

/-- Length of a leading unsigned number. -/
def numberLength (cs : List Char) : Nat :=
  let whole := digitsLength cs
  let fraction := fractionLength (cs.drop whole)
  whole + fraction + exponentLength (cs.drop (whole + fraction))

/-- The kind of a word. -/
def wordKind (word : List Char) : TokenKind :=
  if word = ['m', 'a', 'x'] then .max
  else if word = ['m', 'i', 'n'] then .min
  else if word = ['u', 'r', 's'] then .urs
  else if word = ['i', 'n', 't'] then .int
  else if word = ['b', 'i', 'n'] then .bin
  else .ident

/-- A comparison that needs an equals sign after its first character. -/
def comparison (kind : TokenKind) : List Char → TokenKind × Nat
  | '=' :: _ => (kind, 1)
  | _ => (.error, 0)

/-- Whether a digit comes next. -/
def startsWithDigit : List Char → Bool
  | c :: _ => c.isDigit
  | [] => false

/-- The token that starts with a character, and how many of the following characters belong to it.
-/
def readToken (c : Char) (rest : List Char) : TokenKind × Nat :=
  if c = '\n' then (.newline, 0)
  else if c = '/' ∧ rest.head? = some '/' then (.comment, (rest.takeWhile (· ≠ '\n')).length)
  else if c = '+' then (.plus, 0)
  else if c = '-' then (.minus, 0)
  else if c = '=' then (.eq, 0)
  else if c = '<' then comparison .le rest
  else if c = '>' then comparison .ge rest
  else if c.isDigit || (c = '.' && startsWithDigit rest) then
    (.number, numberLength (c :: rest) - 1)
  else if isWordStart c then
    let further := rest.takeWhile isWordPart
    (wordKind (c :: further), further.length)
  else (.error, 0)

/-- The tokens of a text that starts at a byte position. -/
def tokensFrom (position : Nat) (cs : List Char) : List Token :=
  let start := position + byteLength (cs.takeWhile isBlank)
  match _h : cs.dropWhile isBlank with
  | [] => [⟨.eof, ⟨start, start⟩, []⟩]
  | c :: rest =>
    let (kind, further) := readToken c rest
    let text := c :: rest.take further
    let stop := start + byteLength text
    ⟨kind, ⟨start, stop⟩, text⟩ :: tokensFrom stop (rest.drop further)
termination_by cs.length
decreasing_by
  have := (List.dropWhile_suffix (l := cs) isBlank).length_le
  simp only [_h, List.length_cons] at this
  simp only [List.length_drop]
  omega

/-- The tokens of a text, the end of the text last. -/
def tokens (text : String) : List Token := tokensFrom 0 text.toList

end ProblemText
end LinOpt
