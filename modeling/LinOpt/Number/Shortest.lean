import LinOpt.Number.Double

/-!
# The fewest digits that read back

`Shortest.digits` writes a positive number `m * 2 ^ q` with as few decimal digits as still determine
it among the doubles, and of those the digits nearest to it. It searches decimal grids from coarse
to fine: on each, only the two multiples of the power of ten around the number can lie closer to it
than its neighbouring doubles do, and the first grid with such a multiple gives the digits. All of
it is exact integer arithmetic; only how a tie between the two multiples falls is left to the
caller.
-/

namespace LinOpt

/-- Which of two equally near neighbours is taken. -/
inductive TieRule where
  | up
  | toEven
  deriving DecidableEq

namespace Shortest

/-- The numbers that read as one double, over a common denominator: the double itself and the two
bounds half way to its neighbours, which belong to it when its mantissa is even. -/
structure Interval where
  value : Nat
  low : Nat
  high : Nat
  denominator : Nat
  closed : Bool

/-- The interval of the double `m * 2 ^ q`. Below a power of two the neighbour is nearer. -/
def Interval.ofDouble (m : Nat) (q : Int) : Interval :=
  let below := if m = Double.hiddenBit ∧ Double.minExponent < q then 1 else 2
  let (value, denominator) := Double.scale (4 * m) (q - 2)
  let (low, _) := Double.scale (4 * m - below) (q - 2)
  let (high, _) := Double.scale (4 * m + 2) (q - 2)
  ⟨value, low, high, denominator, m % 2 = 0⟩

/-- Whether `n / d`, brought to the interval's denominator, lies inside. -/
def Interval.contains (i : Interval) (n d : Nat) : Bool :=
  if i.closed then i.low * d ≤ n * i.denominator && n * i.denominator ≤ i.high * d
  else i.low * d < n * i.denominator && n * i.denominator < i.high * d

/-- The multiple of `10 ^ k` inside the interval nearest to its value, if there is one, as a number
of powers of ten. -/
def onGrid? (tie : TieRule) (i : Interval) (k : Int) : Option Nat :=
  let (up, down) := if k < 0 then (Nat.pow 10 k.natAbs, 1) else (1, Nat.pow 10 k.natAbs)
  let n := i.value * up
  let d := i.denominator * down
  let floor := n / d
  let twice := 2 * (n % d)
  let inside (c : Nat) : Bool := i.contains (c * down) up
  if inside floor then
    if inside (floor + 1) && (d < twice || (d == twice && (tie == .up || floor % 2 == 1))) then
      some (floor + 1)
    else some floor
  else if inside (floor + 1) then some (floor + 1)
  else none

/-- Searches the grids `10 ^ k`, `10 ^ (k - 1)`, … for the first hit. -/
def search (tie : TieRule) (i : Interval) : Nat → Int → Nat × Int
  | 0, k => (i.value / i.denominator, k)
  | fuel + 1, k =>
    match onGrid? tie i k with
    | some c => (c, k)
    | none => search tie i fuel (k - 1)

/-- A power of ten above `m * 2 ^ q`, found from its binary length. -/
def powerAbove (m : Nat) (q : Int) : Int := ((m.log2 : Int) + 1 + q) * 30103 / 100000 + 1

/-- Digits `c` and an exponent `k` such that `c * 10 ^ k` stands for `m * 2 ^ q`. Seventeen digits
always suffice, and the first grid is at most three powers of ten too coarse. -/
def digits (tie : TieRule) (m : Nat) (q : Int) : Nat × Int :=
  search tie (.ofDouble m q) 24 (powerAbove m q)

end Shortest
end LinOpt
