import LinOpt.Decimal

/-!
# Names of values

A solution reports values by name: `x1`, `x2`, … for the decision variables, and `s1`, `e1`, `a1`, …
for the auxiliary columns of `≤`, `≥` and `=` rows, counted separately. `ColumnName` holds what a
name says; `ColumnName.text` writes it and `ColumnName.ofText` reads every text back, with `other`
for texts that name no column.
-/

namespace LinOpt

/-- The kind of auxiliary column that a row gets. -/
inductive AuxKind where
  /-- The column of a `≤` row. -/
  | slack
  /-- The column of a `≥` row, which is negated first. -/
  | excess
  /-- The penalized column of an `=` row. -/
  | artificial
  deriving DecidableEq

/-- The name of a reported value. -/
inductive ColumnName where
  /-- A decision variable, by position. -/
  | decision (index : Nat)
  /-- An auxiliary column, by its number among those of its kind, counted from one. -/
  | auxiliary (kind : AuxKind) (number : Nat)
  /-- Any other name. -/
  | other (text : String)
  deriving DecidableEq

namespace AuxKind

/-- The letter that names of this kind start with. -/
def letter : AuxKind → Char
  | .slack => 's'
  | .excess => 'e'
  | .artificial => 'a'

end AuxKind

namespace ColumnName

/-- A letter and a number. -/
def numbered (letter : Char) (n : Nat) : String := String.ofList (letter :: Nat.toDigits 10 n)

/-- The written name. -/
def text : ColumnName → String
  | .decision index => numbered 'x' (index + 1)
  | .auxiliary kind number => numbered kind.letter number
  | .other text => text

/-- A positive number without leading zeros. -/
def positive? (digits : List Char) : Option Nat :=
  if digits.isEmpty || digits.head? == some '0' || !digits.all Char.isDigit then none
  else some (Decimal.digitsValue digits)

/-- The name a text is written for. -/
def ofText (text : String) : ColumnName :=
  match text.toList with
  | 'x' :: digits =>
    match positive? digits with
    | some n => .decision (n - 1)
    | none => .other text
  | c :: digits =>
    match [AuxKind.slack, .excess, .artificial].find? (·.letter == c), positive? digits with
    | some kind, some n => .auxiliary kind n
    | _, _ => .other text
  | [] => .other text

end ColumnName

/-- Values by name, in the order in which the names came up first. -/
structure Valuation (α : Type) where
  entries : List (ColumnName × α) := []
  deriving DecidableEq

namespace Valuation

variable {α : Type}

/-- The value of a name. -/
def get? (v : Valuation α) (name : ColumnName) : Option α :=
  (v.entries.find? (·.1 = name)).map (·.2)

/-- Whether a name has a value. -/
def contains (v : Valuation α) (name : ColumnName) : Bool := v.entries.any (·.1 = name)

/-- Changes the value of a name that has one. -/
def modify (v : Valuation α) (name : ColumnName) (f : α → α) : Valuation α :=
  ⟨v.entries.map fun e => if e.1 = name then (e.1, f e.2) else e⟩

/-- Gives a name a value. -/
def insert (v : Valuation α) (name : ColumnName) (value : α) : Valuation α :=
  if v.contains name then v.modify name fun _ => value else ⟨v.entries ++ [(name, value)]⟩

/-- Gives the names their values, one after the other. -/
def insertAll (v : Valuation α) (entries : List (ColumnName × α)) : Valuation α :=
  entries.foldl (fun v e => v.insert e.1 e.2) v

end Valuation
end LinOpt
