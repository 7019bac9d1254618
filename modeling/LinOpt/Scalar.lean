import LinOpt.Decimal

/-!
# Scalars

Every solver of this library is written once, over a type `α` with the operations of `Scalar`, and
takes nothing else about `α` for granted. The program runs it over binary floating point
(`LinOpt.Scalar.Float`); what can be proved exactly is proved over the rationals
(`LinOpt.Scalar.Rational`), about the very same definitions.

The class holds operations only, no law. Some of them would be redundant over an ordered field and
are kept apart because floating point tells them apart: `0 - x` is not `-x` at a zero, a comparison
with an undefined value fails both ways, and a quotient can be infinite. So the first candidate of a
ratio test is accepted by `belowInfinity`, and orders that must be total go through `rankLe`.
-/

namespace LinOpt

/-- The arithmetic the solvers use. -/
class Scalar (α : Type) extends
    Zero α, One α, Add α, Sub α, Mul α, Div α, Neg α, LT α, LE α, BEq α where
  decLt : DecidableLT α
  decLe : DecidableLE α
  /-- Magnitude. -/
  abs : α → α
  /-- Greatest integer not above the argument. -/
  floor : α → α
  /-- Whether a value may open a search for the least one; fails at infinity and at undefined
  values. -/
  belowInfinity : α → Bool
  /-- Total order in which `none` is plus infinity; it agrees with `≤` on ordinary numbers. -/
  rankLe : Option α → Option α → Bool
  /-- The value of a numeral, rounded as the arithmetic rounds. -/
  ofDecimal : Decimal → α

namespace Scalar

attribute [reducible, instance] decLt decLe

variable {α : Type} [Scalar α]

/-- One half. -/
def half : α := 1 / (1 + 1)

/-- The spacing of double precision numbers just above one, `2 ^ -52`. -/
def epsilon : α := 1 / ofDecimal (.ofNat 0x10000000000000)

/-- Least integer not below the argument. -/
def ceil (x : α) : α := -floor (-x)

/-- The integer part, towards zero. -/
def trunc (x : α) : α := if x < 0 then ceil x else floor x

/-- The nearest integer, halves away from zero. The distance to the integer part decides, because
adding one half first could itself be rounded up. -/
def round (x : α) : α :=
  let t := trunc x
  if half ≤ abs (x - t) then (if x < 0 then t - 1 else t + 1) else t

/-- Sum from left to right. It starts at `-0`, the neutral element of floating point addition. -/
def sum (xs : List α) : α := xs.foldl (· + ·) (-0)

/-- Scalar product of two lists, as far as both reach. -/
def dot (xs ys : List α) : α := sum (xs.zipWith (· * ·) ys)

/-- The list of `n` entries with `1` at position `i` and `0` elsewhere. -/
def unit (n i : Nat) : List α := (List.range n).map fun k => if k = i then 1 else 0

/-- Whether a value is comparable at all; only an undefined value is not. -/
def isDefined (x : α) : Bool := decide (x ≤ x)

/-- Values within the tolerance of zero become zero. -/
def clean (tolerance x : α) : α := if abs x ≤ tolerance then 0 else x

end Scalar
end LinOpt
