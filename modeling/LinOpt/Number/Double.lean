/-!
# Double precision numbers as integers

`Double.ofFloat` takes a floating point number apart into a sign, an integer mantissa and a power of
two, so that the modules that write numbers work in exact integer arithmetic. `Double.nearest` goes
the other way: the bits of the double nearest to a quotient of two natural numbers, ties to the even
mantissa.
-/

namespace LinOpt

/-- A double precision number: its value is `± mantissa * 2 ^ exponent` when it is finite. -/
inductive Double where
  | undefined
  | infinite (negative : Bool)
  | finite (negative : Bool) (mantissa : Nat) (exponent : Int)
  deriving DecidableEq

namespace Double

/-- The least power of two a mantissa is multiplied by. -/
def minExponent : Int := -1074

/-- The mantissa of a power of two in the normal range, with fifty-two digits behind the first. -/
def hiddenBit : Nat := 0x10000000000000

/-- The bit of the sign, behind eleven bits of exponent. -/
def signBit : Nat := 0x800 * hiddenBit

/-- Takes a bit pattern apart: sign, eleven bits of exponent, fifty-two bits of fraction. -/
def ofBits (bits : Nat) : Double :=
  let negative : Bool := signBit ≤ bits
  let field : Nat := bits / hiddenBit % 2048
  let fraction : Nat := bits % hiddenBit
  if field = 2047 then (if fraction = 0 then .infinite negative else .undefined)
  else if field = 0 then .finite negative fraction minExponent
  else .finite negative (hiddenBit + fraction) ((field : Int) - 1075)

/-- The parts of a floating point number. -/
def ofFloat (x : Float) : Double := ofBits x.toBits.toNat

/-- `n * 2 ^ k` as a quotient of natural numbers. -/
def scale (n : Nat) (k : Int) : Nat × Nat :=
  if k < 0 then (n, Nat.pow 2 k.natAbs) else (n * Nat.pow 2 k.natAbs, 1)

/-- Rounds a quotient to the nearest natural number, ties to the even one. -/
def roundHalfEven (n d : Nat) : Nat :=
  let q := n / d
  let r := n % d
  if d < 2 * r ∨ (d = 2 * r ∧ q % 2 = 1) then q + 1 else q

/-- The exponent `e` with `2 ^ e ≤ n / d < 2 ^ (e + 1)`, for positive `n` and `d`. -/
def log2Quotient (n d : Nat) : Int :=
  let guess : Int := (n.log2 : Int) - d.log2
  let (p, q) := scale d guess
  if n * q < p then guess - 1 else guess

/-- The bits of the double nearest to `n / d`, ties to the even mantissa, infinity above the range.
A mantissa that rounds up to `2 ^ 53` carries into the exponent by the addition alone. -/
def nearest (n d : Nat) : Nat :=
  if n = 0 then 0
  else
    let shift := max (log2Quotient n d - 52) minExponent
    let (p, q) := scale d shift
    let mantissa := roundHalfEven (n * q) p
    min (2047 * hiddenBit) ((shift - minExponent).toNat * hiddenBit + mantissa)

/-- Plus infinity. -/
def infinity : Float := 1.0 / 0.0

/-- Position of a number in the total order of bit patterns. -/
def rank (x : Float) : Int :=
  let bits := x.toBits.toNat
  if signBit ≤ bits then (signBit : Int) - 1 - bits else bits

end Double
end LinOpt
