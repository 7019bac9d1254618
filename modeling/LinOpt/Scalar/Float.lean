import LinOpt.Scalar
import LinOpt.Number.Double

/-!
# Floating point as an arithmetic

The double precision instance of `Scalar`, on which the program runs. Numerals are rounded once, by
exact integer arithmetic (`Double.nearest`), and `rankLe` is the total order on bit patterns: a
negative zero is below a positive one and an undefined value above infinity.
-/

namespace LinOpt

/-- The double nearest to a decimal. Exponents far outside the range are answered without forming
the power of ten. -/
def Decimal.toFloat (d : Decimal) : Float :=
  let magnitude : Int := (Nat.toDigits 10 d.mantissa).length + d.exponent
  if d.mantissa = 0 ∨ magnitude < -400 then 0.0
  else if 400 < magnitude then Double.infinity
  else
    let bits := if d.exponent < 0 then Double.nearest d.mantissa (Nat.pow 10 d.exponent.natAbs)
      else Double.nearest (d.mantissa * Nat.pow 10 d.exponent.natAbs) 1
    Float.ofBits (UInt64.ofNat bits)

instance : Scalar Float where
  zero := 0.0
  one := 1.0
  add := (· + ·)
  sub := (· - ·)
  mul := (· * ·)
  div := (· / ·)
  neg := (- ·)
  lt := (· < ·)
  le := (· ≤ ·)
  beq := (· == ·)
  decLt := inferInstanceAs (DecidableLT Float)
  decLe := inferInstanceAs (DecidableLE Float)
  abs := Float.abs
  floor := Float.floor
  belowInfinity x := x < Double.infinity
  rankLe x y := Double.rank (x.getD Double.infinity) ≤ Double.rank (y.getD Double.infinity)
  ofDecimal := Decimal.toFloat

end LinOpt
