import LinOpt.Method
import LinOpt.ProblemText.Parser
import LinOpt.Report.Plain

/-!
# The commands

What a command answers to a problem file: an exit code and the texts for both output channels. It is
a function of the command and of the file's content, so a run of the program is a single value.
Everything that is printed for `solve` is decided here, except how arguments are written
(`LinOpt.CommandLine.Arguments`).
-/

namespace LinOpt.CommandLine

/-- What may be asked for when a problem is solved. A setting that is missing keeps its standard
value. -/
structure Options where
  method : Method := .dual
  json : Bool := false
  steps : Bool := false
  analysis : Bool := false
  tolerance : Option Float := none
  integralityTolerance : Option Float := none
  bigM : Option Float := none
  maxIterations : Option Nat := none
  maxDepth : Option Nat := none
  maxCuts : Option Nat := none
  timeoutMs : Option Nat := none

/-- A command. -/
inductive Command where
  | solve (options : Options)
  | check

/-- Why a file could not be read. -/
inductive ReadFailure where
  | missing
  | other (reason : String)

/-- The written reason. -/
def ReadFailure.text : ReadFailure → String
  | .missing => "No such file or directory (os error 2)"
  | .other reason => reason

/-- The end of a run. -/
structure Outcome where
  exitCode : Nat := 0
  stdout : String := ""
  stderr : String := ""
  deriving DecidableEq

/-- A run that failed with an explanation. -/
def Outcome.failed (lines : List String) : Outcome := { exitCode := 1, stderr := unlines lines }

/-- The stop signal of a time limit. A run reads no clock: it takes a limit of zero as passed and
any other as one that it never reaches. -/
def interrupt : Option Nat → Interrupt Float
  | some 0 => .raised
  | _ => .never

/-- The settings that options stand for. Steps are recorded if they are to be shown. -/
def Options.config (o : Options) : Config Float :=
  let c : Config Float := .standard
  { c with
    tolerance := o.tolerance.getD c.tolerance
    integralityTolerance := o.integralityTolerance.getD c.integralityTolerance
    bigM := o.bigM.getD c.bigM
    maxPhase2Iterations := o.maxIterations.getD c.maxPhase2Iterations
    maxBranchDepth := o.maxDepth.getD c.maxBranchDepth
    maxCuts := o.maxCuts.getD c.maxCuts
    recordSteps := o.steps
    interrupt := interrupt o.timeoutMs }

/-- What is printed about a solution. -/
def Options.report (o : Options) (p : Problem Float) (s : Solution Float) : String :=
  if o.json then s.toJson.pretty 0 ++ "\n"
  else unlines <|
    (if o.steps then Report.steps s else []) ++ Report.result s p.numVariables ++
      (if o.analysis && s.isOptimal then "" :: Report.analysis s else [])

/-- Solves a problem and reports; only an optimum is a success. -/
def solve (o : Options) (p : Problem Float) : Outcome :=
  match (o.method.solve o.config p {}).result with
  | .error e => .failed ["Solver error: " ++ e.message]
  | .ok s => { exitCode := if s.isOptimal then 0 else 1, stdout := o.report p s }

/-- Describes a problem that was read. -/
def check (file : String) (p : Problem Float) : Outcome where
  stdout := unlines [
    s!"✓ {file} is valid",
    s!"  {p.sense.text}",
    s!"  {p.numVariables} variables ({p.integerVariables.length} integer)",
    s!"  {p.numConstraints} constraints"]

/-- Runs a command on the content of a file. -/
def run (command : Command) (file : String) (content : Except ReadFailure String) : Outcome :=
  match content with
  | .error reason => .failed ["Error reading file: " ++ reason.text]
  | .ok text =>
    match ProblemText.parse text with
    | .error e => .failed [s!"✗ {file} has errors:", "  " ++ e.message Error.message]
    | .ok p =>
      match command with
      | .solve o => solve o p
      | .check => check file p

end LinOpt.CommandLine
