/-!
# Unsigned decimal numerals

A numeral is read into a mantissa and a power of ten, `⟨mantissa, exponent⟩` standing for `mantissa
* 10 ^ exponent`, and nothing is rounded here: how an arithmetic represents the value is that
arithmetic's own business (`Scalar.ofDecimal`). `Decimal.ofChars?` reads the notation of the problem
text: digits, an optional point with more digits, an optional exponent with an optional sign.
-/

namespace LinOpt

/-- The number `mantissa * 10 ^ exponent`. -/
structure Decimal where
  mantissa : Nat
  exponent : Int
  deriving DecidableEq

namespace Decimal

/-- The decimal of a natural number. -/
def ofNat (n : Nat) : Decimal := ⟨n, 0⟩

/-- The number a run of digits stands for. -/
def digitsValue (digits : List Char) : Nat :=
  digits.foldl (fun n c => 10 * n + (c.toNat - '0'.toNat)) 0

/-- Splits off the leading digits. -/
def spanDigits (cs : List Char) : List Char × List Char :=
  (cs.takeWhile Char.isDigit, cs.dropWhile Char.isDigit)

/-- Reads an exponent part: nothing at all, or a letter `e`, an optional sign and at least one
digit up to the end. -/
def exponentOf? : List Char → Option Int
  | [] => some 0
  | 'e' :: rest | 'E' :: rest =>
    let (negative, digits) := match rest with
      | '-' :: ds => (true, ds)
      | '+' :: ds => (false, ds)
      | ds => (false, ds)
    if digits.isEmpty || !digits.all Char.isDigit then none
    else if negative then some (-(digitsValue digits : Int))
    else some (digitsValue digits)
  | _ :: _ => none

/-- Reads a whole numeral; at least one digit stands before the exponent. -/
def ofChars? (cs : List Char) : Option Decimal :=
  let (whole, rest) := spanDigits cs
  let (fraction, rest) := match rest with
    | '.' :: r => spanDigits r
    | r => ([], r)
  if whole.isEmpty && fraction.isEmpty then none
  else (exponentOf? rest).map fun e => ⟨digitsValue (whole ++ fraction), e - fraction.length⟩

end Decimal
end LinOpt
