import LinOpt.Scalar

/-!
# Fractional values

Which variable a search branches or cuts on: the one whose fractional part is nearest to one half.
Two parts that are equally far from it up to rounding count as equal, and then the lower index wins.
-/

namespace LinOpt.Fractional

variable {α : Type} [Scalar α]

/-- Whether a value is an integer within the tolerance. -/
def isIntegral (tolerance value : α) : Bool :=
  decide (Scalar.abs (value - Scalar.round value) ≤ tolerance)

/-- Distance of the fractional part from one half. -/
def distance (value : α) : α := Scalar.abs (value - Scalar.floor value - Scalar.half)

/-- A fractional value at an index. -/
structure Candidate (α : Type) where
  index : Nat
  value : α

/-- Whether a candidate is to be preferred to another. -/
def Candidate.isBetter (c best : Candidate α) : Bool :=
  let d := distance c.value
  let b := distance best.value
  decide (d < b - Scalar.epsilon) ||
    (decide (Scalar.abs (d - b) ≤ Scalar.epsilon) && decide (c.index < best.index))

/-- The better of the best so far and another value, which is passed over if it is integral. -/
def choose (tolerance : α) (best : Option (Candidate α)) (c : Candidate α) :
    Option (Candidate α) :=
  if isIntegral tolerance c.value then best
  else match best with
    | none => some c
    | some b => if c.isBetter b then some c else some b

/-- The most fractional of the values, if one of them is fractional. -/
def most (tolerance : α) (values : List (Candidate α)) : Option (Candidate α) :=
  values.foldl (choose tolerance) none

end LinOpt.Fractional
