import LinOpt.CommandLine

/-!
# Arguments

How a command is written: its name, one file and options in any order. An option with a value takes
it from the next argument or from behind an equals sign. Arguments that say something else are
refused as a whole.
-/

namespace LinOpt.CommandLine.Arguments

/-- What was read so far. The method is looked up at the end, when it is known whether to prune. -/
structure Reading where
  options : Options := {}
  methodName : String := "dual"
  prune : Bool := false
  file : Option String := none

/-- The number a text stands for. -/
def float? (text : String) : Option Float :=
  let (negative, digits) := match text.toList with
    | '-' :: ds => (true, ds)
    | '+' :: ds => (false, ds)
    | ds => (false, ds)
  let signed (x : Float) : Float := if negative then -x else x
  match (String.ofList digits).toLower with
  | "inf" | "infinity" => some (signed Double.infinity)
  | "nan" => some (Double.infinity - Double.infinity)
  | _ => (Decimal.ofChars? digits).map fun d => signed d.toFloat

/-- The natural number a text stands for. -/
def natural? (text : String) : Option Nat :=
  let digits := text.toList
  if digits.isEmpty || !digits.all Char.isDigit then none else some (Decimal.digitsValue digits)

/-- Changes the options. -/
def Reading.set (r : Reading) (f : Options → Options) : Reading := { r with options := f r.options }

/-- Reads an option without value. -/
def flag? (r : Reading) (name : String) : Option Reading :=
  match name with
  | "--json" => some (r.set fun o => { o with json := true })
  | "--steps" => some (r.set fun o => { o with steps := true })
  | "--analysis" | "-a" => some (r.set fun o => { o with analysis := true })
  | "--prune" => some { r with prune := true }
  | _ => none

/-- Whether an option takes a value. -/
def takesValue (name : String) : Bool :=
  ["--method", "-m", "--tolerance", "--integrality-tolerance", "--big-m", "--max-iterations",
    "--max-depth", "--max-cuts", "--timeout-ms"].contains name

/-- Reads an option with its value. -/
def setting? (r : Reading) (name value : String) : Option Reading :=
  match name with
  | "--method" | "-m" => some { r with methodName := value }
  | "--tolerance" => (float? value).map fun x => r.set fun o => { o with tolerance := some x }
  | "--integrality-tolerance" =>
    (float? value).map fun x => r.set fun o => { o with integralityTolerance := some x }
  | "--big-m" => (float? value).map fun x => r.set fun o => { o with bigM := some x }
  | "--max-iterations" =>
    (natural? value).map fun n => r.set fun o => { o with maxIterations := some n }
  | "--max-depth" => (natural? value).map fun n => r.set fun o => { o with maxDepth := some n }
  | "--max-cuts" => (natural? value).map fun n => r.set fun o => { o with maxCuts := some n }
  | "--timeout-ms" => (natural? value).map fun n => r.set fun o => { o with timeoutMs := some n }
  | _ => none

/-- An option as its name and the value behind an equals sign, if there is one. -/
def splitOption (argument : String) : String × Option String :=
  let name := argument.toList.takeWhile (· ≠ '=')
  match argument.toList.dropWhile (· ≠ '=') with
  | [] => (argument, none)
  | _ :: value => (String.ofList name, some (String.ofList value))

/-- Reads an argument that is no option. -/
def file? (r : Reading) (argument : String) : Option Reading :=
  if r.file.isSome then none else some { r with file := some argument }

/-- Reads the arguments behind the command. -/
def readAll : List String → Reading → Option Reading
  | [], r => some r
  | [argument], r =>
    if argument.toList.head? != some '-' then file? r argument
    else match splitOption argument with
      | (name, some value) => setting? r name value
      | (name, none) => flag? r name
  | argument :: next :: rest, r =>
    if argument.toList.head? != some '-' then (file? r argument).bind (readAll (next :: rest))
    else match splitOption argument with
      | (name, some value) => (setting? r name value).bind (readAll (next :: rest))
      | (name, none) =>
        if takesValue name then (setting? r name next).bind (readAll rest)
        else (flag? r name).bind (readAll (next :: rest))

/-- Reads a command and the name of its file. -/
def read? : List String → Option (Command × String)
  | "check" :: rest => do
    let r ← readAll rest {}
    return (.check, ← r.file)
  | "solve" :: rest => do
    let r ← readAll rest {}
    let method ← Method.ofName? r.methodName r.prune
    return (.solve { r.options with method }, ← r.file)
  | _ => none

/-- How commands are written. -/
def usage : String :=
  unlines [
    "Usage: solve [OPTIONS] <FILE>",
    "       check <FILE>",
    "Options:",
    "  -m, --method <dual|primal|revised|branch-and-bound|cutting-plane|knapsack>",
    "  -a, --analysis  --json  --steps  --prune",
    "  --tolerance <X>  --integrality-tolerance <X>  --big-m <X>",
    "  --max-iterations <N>  --max-depth <N>  --max-cuts <N>  --timeout-ms <N>"]

end LinOpt.CommandLine.Arguments
