import LinOpt.Number.Shortest

/-!
# Layouts of written numbers

Two ways of writing a number. `Layout.write` takes the fewest digits that read back
(`Shortest.digits`) and lays them out as a `Layout` record asks: where positional notation ends,
whether a fraction is always shown, how an exponent looks. `fixed` writes a given number of places
of the exact binary value, halves to the even digit. Both keep the sign of a negative zero.
-/

namespace LinOpt

/-- How the shortest digits of a number are laid out. -/
structure Layout where
  tie : TieRule := .up
  /-- Positions of the point, counted from before the first digit, that are written positionally. -/
  positional : Int → Bool
  /-- Whether a positional number without fraction ends in `.0`. -/
  keepFraction : Bool := false
  /-- Whether a non-negative exponent carries a plus sign. -/
  plusSign : Bool := false

namespace Layout

/-- Lists, options and answers: positional from `0.0001` to below `10 ^ 16`. -/
def exact : Layout where
  positional p := -3 ≤ p && p ≤ 16
  keepFraction := true

/-- Running text: never an exponent. -/
def plain : Layout where
  positional _ := true

/-- Pivot sizes: always an exponent. -/
def scientific : Layout where
  positional _ := false

/-- JSON numbers: positional from `0.00001` to below `10 ^ 16`, ties to the even digit. -/
def json : Layout where
  tie := .toEven
  positional p := -4 ≤ p && p ≤ 16
  keepFraction := true
  plusSign := true

/-- Writes `c` digits with the point at position `p`. -/
def positionalText (keepFraction : Bool) (c : List Char) (p : Int) : List Char :=
  if p ≤ 0 then '0' :: '.' :: List.replicate p.natAbs '0' ++ c
  else
    let whole := c.take p.toNat ++ List.replicate (p.toNat - c.length) '0'
    let fraction := c.drop p.toNat
    if fraction.isEmpty then (if keepFraction then whole ++ ['.', '0'] else whole)
    else whole ++ '.' :: fraction

/-- Writes digits with the point after the first one and an exponent. -/
def exponentText (plusSign : Bool) (c : List Char) (p : Int) : List Char :=
  let e := p - 1
  let sign := if e < 0 then ['-'] else if plusSign then ['+'] else []
  let fraction := c.drop 1
  c.take 1 ++ (if fraction.isEmpty then [] else '.' :: fraction)
    ++ 'e' :: sign ++ Nat.toDigits 10 e.natAbs

/-- Writes the digits `c * 10 ^ k`. -/
def digitsText (l : Layout) (c : Nat) (k : Int) : List Char :=
  let cs := Nat.toDigits 10 c
  let p := k + cs.length
  if l.positional p then positionalText l.keepFraction cs p else exponentText l.plusSign cs p

/-- The sign of a written number. -/
def signText (negative : Bool) : List Char := if negative then ['-'] else []

/-- Writes a number taken apart. -/
def writeDouble (l : Layout) : Double → List Char
  | .undefined => "NaN".toList
  | .infinite negative => signText negative ++ "inf".toList
  | .finite negative m q =>
    let (c, k) := if m = 0 then (0, 0) else Shortest.digits l.tie m q
    signText negative ++ l.digitsText c k

/-- Writes a number with the fewest digits that read back. -/
def write (l : Layout) (x : Float) : String := String.ofList (l.writeDouble (.ofFloat x))

end Layout

/-! ## Fixed places and columns -/

/-- Writes a number taken apart with a fixed number of places. -/
def Double.fixedText (places : Nat) : Double → List Char
  | .undefined => "NaN".toList
  | .infinite negative => Layout.signText negative ++ "inf".toList
  | .finite negative m q =>
    let (n, d) := Double.scale m q
    let cs := Nat.toDigits 10 (Double.roundHalfEven (n * Nat.pow 10 places) d)
    let cs := List.replicate (places + 1 - cs.length) '0' ++ cs
    let whole := cs.take (cs.length - places)
    let fraction := cs.drop (cs.length - places)
    Layout.signText negative ++ whole ++ (if places = 0 then [] else '.' :: fraction)

/-- Writes a number with a fixed number of places, halves to the even digit. -/
def fixed (places : Nat) (x : Float) : String :=
  String.ofList ((Double.ofFloat x).fixedText places)

/-- Pads a text with spaces on the left up to a width in characters. -/
def padLeft (width : Nat) (s : String) : String :=
  String.ofList (List.replicate (width - s.length) ' ') ++ s

/-- Pads a text with spaces on the right up to a width in characters. -/
def padRight (width : Nat) (s : String) : String :=
  s ++ String.ofList (List.replicate (width - s.length) ' ')

end LinOpt
