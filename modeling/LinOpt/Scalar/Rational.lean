import Mathlib.Data.Rat.Floor
import LinOpt.Scalar

/-!
# Rational numbers as an arithmetic

The exact instance of `Scalar`. Its operations are those of the ordered field of rational numbers,
so whatever is known of the field applies to the solvers over it. Every value is below infinity, and
the total order is the order of the field with `none` on top.
-/

namespace LinOpt

/-- The value of a decimal. -/
def Decimal.toRat (d : Decimal) : ℚ := d.mantissa * 10 ^ d.exponent

instance : Scalar ℚ where
  toZero := inferInstanceAs (Zero ℚ)
  toOne := inferInstanceAs (One ℚ)
  toAdd := inferInstanceAs (Add ℚ)
  toSub := inferInstanceAs (Sub ℚ)
  toMul := inferInstanceAs (Mul ℚ)
  toDiv := inferInstanceAs (Div ℚ)
  toNeg := inferInstanceAs (Neg ℚ)
  toLT := inferInstanceAs (LT ℚ)
  toLE := inferInstanceAs (LE ℚ)
  toBEq := inferInstanceAs (BEq ℚ)
  decLt := inferInstanceAs (DecidableLT ℚ)
  decLe := inferInstanceAs (DecidableLE ℚ)
  abs x := |x|
  floor x := ⌊x⌋
  belowInfinity _ := true
  rankLe
    | _, none => true
    | none, some _ => false
    | some x, some y => x ≤ y
  ofDecimal := Decimal.toRat

end LinOpt
