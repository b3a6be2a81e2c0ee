import ApiLint.Batch
import ApiLint.Command.Arguments
import ApiLint.Config.File
import ApiLint.Report
import ApiLint.Report.Screen
import ApiLint.Result.Display
import ApiLint.Targets

/-! The command. It reads the configuration, lints the files that it is given or finds, says what
could not be linted, and shows the report. Its exit code says whether there are errors, or that
nothing could be done at all. -/
namespace ApiLint.Command

def version : Text := "0.2.1"

/-- The exit code when a file has an error. -/
def codeErrors : Nat := 1

/-- The exit code when the configuration is invalid or nothing was linted. -/
def codeInvalid : Nat := 2

/-- What the command finds around it. -/
structure Surroundings where
  environment : Environment := []
  disk : Disk
  listing : Targets.Listing := .unavailable
  validator : Structure.Validator
  program : Program
  scratch : Scratch
  /-- Whether somebody looks at the output. -/
  interactive : Bool := false
  /-- The library that expands patterns. -/
  edition : Glob.Edition := .lenient

/-- How the command ends: its exit code and what it wrote, whether it was asked for more than the
report, and how often the rule engine was started. -/
structure Exit where
  code : Nat := 0
  output : Text := ""
  errors : Text := ""
  verbose : Bool := false
  invocations : List Invocation := []

/-- A complaint, as it is written. Commands to the screen in it are left out. -/
def complaint (message : Text) : Text :=
  Screen.withoutCommands ("Error: " ++ message ++ "\n")

/-- The end of a command that cannot do its work. -/
def refuse (message : Text) (code : Nat := codeInvalid) : Exit :=
  { code, errors := complaint message }

/-- What tells a terminal the current directory, so that it can find the files of the report. -/
def terminalDirectory (interactive : Bool) (environment : Environment) (directory : Path) :
    Text :=
  if interactive && (environment.given? "CI").isNone then
    "\x1b]50;CurrentDir=" ++ directory.text ++ "\x07"
  else []

def failureLine (failure : Text × Failure) : Text :=
  Screen.shown (.ofText (failure.1 ++ ": " ++ failure.2.message))

/-- The files to lint: those that are asked for, or all that are found. -/
def targets (s : Surroundings) (arguments : Arguments) : Except Failure (List Text) :=
  if arguments.files.isEmpty then Targets.discover s.disk s.listing s.disk.current
  else Targets.expand s.disk arguments.files s.edition

/-- The failures to speak of. Files that were only found are often no descriptions of an API, and
then nothing is said. -/
def spokenFailures (arguments : Arguments) (failures : List (Text × Failure)) :
    List (Text × Failure) :=
  failures.filter fun failure => !(arguments.files.isEmpty && failure.2.isNoDescriptor)

def exitCode (results : List (Text × Diagnosis)) : Nat :=
  if results.isEmpty then codeInvalid else if anyErrors results then codeErrors else 0

/-- What is written for some results. -/
def reportOutput (s : Surroundings) (results : List (Text × Diagnosis)) :
    Except Failure Text := do
  if results.isEmpty then return "No files to lint\n"
  let report ← (Report.make results).mapError .misuse
  if report.chars.isEmpty then return []
  return terminalDirectory s.interactive s.environment s.disk.current ++ Screen.shown report

/-- Lints the files that are asked for. -/
def lint (s : Surroundings) (arguments : Arguments) (config : Config) : Except Failure Exit := do
  let files ← targets s arguments
  let engine ← EngineSettings.choose s.environment none none (Ruleset.chosen arguments.rulesets)
  let setup : Setup :=
    { config, validator := s.validator, engine, program := s.program, scratch := s.scratch }
  let lints := files.map fun file => (file, Lint.ofName setup s.disk file)
  let batch := Batch.collect (lints.map fun entry => (entry.1, entry.2.result))
  let full := if arguments.verbose then Diagnosis.literals batch.results ++ "\n" else []
  return {
    code := exitCode batch.results
    output := full ++ (← reportOutput s batch.results)
    errors := (spokenFailures arguments batch.failures).flatMap failureLine
    verbose := arguments.verbose
    invocations := lints.flatMap (·.2.invocations) }

/-- Runs the command as it is asked to. -/
def answer (s : Surroundings) (arguments : Arguments) : Except Failure Exit :=
  if arguments.version then .ok { output := "pva version " ++ version ++ "\n" }
  else
    match Config.load s.environment s.disk (arguments.config.map Path.ofText) none with
    | .error (.invalidConfig problems) =>
      .ok { refuse (Failure.message (.invalidConfig problems)) with verbose := arguments.verbose }
    | .error failure => .error failure
    | .ok config => lint s arguments config

def run (s : Surroundings) (words : List Text) : Except Failure Exit :=
  match Arguments.read words with
  | .error fault => .ok (refuse fault.message)
  | .ok arguments => answer s arguments

end ApiLint.Command
