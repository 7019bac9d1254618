import LinOpt.Number.Layout

/-!
# JSON documents

A document to be written. `Json.pretty` writes it with two spaces per level, one item per line and
empty containers closed at once; fields stay in the order in which they are given. A number that is
not finite has no JSON form and is written as `null`.
-/

namespace LinOpt

/-- A JSON document. -/
inductive Json where
  | null
  | bool (value : Bool)
  | natural (value : Nat)
  | number (value : Float)
  | text (value : String)
  | array (items : List Json)
  | object (fields : List (String × Json))

namespace Json

/-- A list as an array. -/
def ofList {β : Type} (f : β → Json) (items : List β) : Json := .array (items.map f)

/-- A value that may be missing. -/
def ofOption {β : Type} (f : β → Json) : Option β → Json
  | none => .null
  | some v => f v

/-! ## Leaves -/

/-- One hexadecimal digit. -/
def hexDigit (n : Nat) : Char := (Nat.toDigits 16 n).headD '0'

/-- A character inside a string. -/
def escape (c : Char) : List Char :=
  if c = '"' then ['\\', '"']
  else if c = '\\' then ['\\', '\\']
  else if c = '\n' then ['\\', 'n']
  else if c = '\r' then ['\\', 'r']
  else if c = '\t' then ['\\', 't']
  else if c = '\x08' then ['\\', 'b']
  else if c = '\x0c' then ['\\', 'f']
  else if c < ' ' then ['\\', 'u', '0', '0', hexDigit (c.toNat / 16), hexDigit (c.toNat % 16)]
  else [c]

/-- A string with its quotes. -/
def quote (s : String) : String := "\"" ++ String.ofList (s.toList.flatMap escape) ++ "\""

/-- A number. -/
def numberText (x : Float) : String :=
  match Double.ofFloat x with
  | .finite .. => Layout.json.write x
  | _ => "null"

/-- The start of a line at a level. -/
def newline (level : Nat) : String := String.ofList ('\n' :: List.replicate (2 * level) ' ')

/-! ## Documents -/

mutual

/-- Writes a document whose first line is at a level. -/
def pretty (level : Nat) : Json → String
  | .null => "null"
  | .bool b => if b then "true" else "false"
  | .natural n => toString n
  | .number x => numberText x
  | .text s => quote s
  | .array [] => "[]"
  | .array (v :: vs) =>
    "[" ++ newline (level + 1) ++ pretty (level + 1) v ++ prettyItems (level + 1) vs ++
      newline level ++ "]"
  | .object [] => "\x7b\x7d"
  | .object ((k, v) :: fs) =>
    "\x7b" ++ newline (level + 1) ++ quote k ++ ": " ++ pretty (level + 1) v ++
      prettyFields (level + 1) fs ++ newline level ++ "\x7d"

/-- Writes the items that follow another one. -/
def prettyItems (level : Nat) : List Json → String
  | [] => ""
  | v :: vs => "," ++ newline level ++ pretty level v ++ prettyItems level vs

/-- Writes the fields that follow another one. -/
def prettyFields (level : Nat) : List (String × Json) → String
  | [] => ""
  | (k, v) :: fs =>
    "," ++ newline level ++ quote k ++ ": " ++ pretty level v ++ prettyFields level fs

end

end Json
end LinOpt
