import ApiLint.Document
import ApiLint.Engine.Answer
import ApiLint.Engine.Ruleset
import ApiLint.Environment
import ApiLint.Json.Writer

/-! The rule engine, a program of its own. It is started once for a document, in the document's
directory, on a file beside the document that holds the text as it was read, with a ruleset in a
directory that was opened for it. Both are gone when the program has ended, however it ended. -/
namespace ApiLint

/-- How to run the rule engine: the program, the seconds it may take, and the rulesets. -/
structure EngineSettings where
  program : Text
  seconds : Float
  rulesets : List Text

/-- A start of the rule engine. -/
structure Invocation where
  program : Text
  /-- The document, with its absolute name. -/
  document : Path
  /-- The file that is looked at instead of it. -/
  source : Path
  contents : Text
  ruleset : Value
  /-- The file that the ruleset is in. -/
  rulesetFile : Path
  seconds : Float

/-- The directory that the program is started in. -/
def Invocation.directory (i : Invocation) : Path :=
  i.source.parent

/-- The words that the program is started with. -/
def Invocation.command (i : Invocation) : List Text :=
  [i.program, "lint", i.source.text, "--format", "json", "--ruleset", i.rulesetFile.text, "--quiet"]

/-- How a run of the program ends. -/
inductive Outcome
  | finished (code : Int) (output errors : Text)
  /-- There is no such program. -/
  | missing
  | timedOut
  /-- The system does not let it run. -/
  | denied
  /-- It could not be run for another reason. -/
  | broken
  deriving DecidableEq, Repr

/-- A program, which sees the files and its invocation. -/
abbrev Program := Disk → Invocation → Outcome

/-- What a program says that came to its end. -/
structure Reply where
  code : Int
  output : Text
  errors : Text

/-- The names that a run may use for files of its own: what makes a name beside the document new,
and where the ruleset is written to. -/
structure Scratch where
  unique : Text
  rulesetFile : Path

/-- Where a run works: the files, the directories that are open for a while with what is in them, and
the invocations that were tried. -/
structure Workspace where
  disk : Disk
  temporary : List (Path × Tree) := []
  invocations : List Invocation := []

/-- A part of a run. It can fail; what it did before that stays done. -/
abbrev Session := ExceptT Failure (StateM Workspace)

/-- A run of the rule engine on a document: its answer, the invocations that were tried, and the
files afterwards. -/
structure EngineRun where
  answer : Except Failure (List Finding)
  invocations : List Invocation
  disk : Disk

namespace EngineSettings

def defaultProgram : Text := "spectral"

def defaultSeconds : Float := 60.0

/-- The rule engine for a run: what is not given is taken from the environment. -/
def choose (env : Environment) (program : Option Text) (seconds : Option Float)
    (rulesets : List Text) : Except Failure EngineSettings := do
  let program := (program.filter (· ≠ [])).getD
    ((env.lookup "PVA_SPECTRAL_BIN").getD defaultProgram)
  let seconds ←
    match seconds with
    | some x => .ok x
    | none =>
      match env.lookup "PVA_SPECTRAL_TIMEOUT" with
      | some text => (Numeral.readFloat text).mapError Failure.number
      | none => .ok defaultSeconds
  return { program, seconds, rulesets }

/-- The file beside a document that the program looks at. -/
def sourceFile (scratch : Scratch) (document : Path) : Path :=
  document.parent.child ("." ++ document.stem ++ ".pva-" ++ scratch.unique ++ document.suffix)

/-- The exit codes of a run that did what it should; one of them says that something was found. -/
def goodCodes : List Int := [0, 1]

/-- The reply of a program that came to its end; any other end is a failure. -/
def reply (engine : EngineSettings) (d : Document) : Outcome → Except Failure Reply
  | .finished code output errors => .ok ⟨code, output, errors⟩
  | .missing => .error (.engine (.noProgram engine.program) d.path)
  | .timedOut => .error (.engine (.timedOut engine.seconds) d.path)
  | .denied => .error (.file .denied engine.program)
  | .broken => .error .process

/-- The findings in a reply, each once; `key` says which are the same. -/
def assess {κ : Type} [BEq κ] (key : Finding → κ) (d : Document) (r : Reply) :
    Except Failure (List Finding) :=
  if r.code ∈ goodCodes then (Answer.parse r.output).map (Finding.distinct key)
  else
    let said := Text.trimmed r.errors
    .error (.engine (.refused (if said.isEmpty then Text.trimmed r.output else said)) d.path)

/-- The findings after a run of the program, each once; `key` says which are the same. -/
def judge {κ : Type} [BEq κ] (key : Finding → κ) (engine : EngineSettings) (d : Document)
    (outcome : Outcome) : Except Failure (List Finding) := do
  assess key d (← engine.reply d outcome)

/-- The ruleset for a configuration. -/
def rulesetFor (engine : EngineSettings) (config : Config) : Except Failure Value :=
  let ruleset : Except Misuse Value := do Ruleset.build (← config.engineRules) engine.rulesets
  ruleset.mapError .misuse

/-- The invocation for a document. -/
def invocation (engine : EngineSettings) (scratch : Scratch) (disk : Disk) (d : Document)
    (ruleset : Value) : Invocation :=
  let document := disk.resolve d.path
  { program := engine.program
    document
    source := sourceFile scratch document
    contents := d.contents
    ruleset
    rulesetFile := scratch.rulesetFile
    seconds := engine.seconds }

/-- Writes the text of a document to the file beside it. -/
def placeSource (i : Invocation) : Session Unit := do
  match (← get).disk.find i.source with
  | .error .nameTooLong => throw (.file .nameTooLong i.source.text)
  | _ => modify fun w => { w with disk := w.disk.write i.source (Text.bytes i.contents) }

def removeSource (i : Invocation) : Session Unit :=
  modify fun w => { w with disk := w.disk.delete i.source }

/-- Opens a directory and writes the ruleset to a file in it. -/
def placeRuleset (i : Invocation) : Session Unit :=
  let content := Tree.directory
    [(i.rulesetFile.name, .file (Text.bytes (Json.write i.ruleset)))]
  modify fun w => { w with temporary := (i.rulesetFile.parent, content) :: w.temporary }

/-- Removes the directory of the ruleset with all that is in it. -/
def removeRuleset (i : Invocation) : Session Unit :=
  modify fun w => { w with temporary := w.temporary.filter (·.1 ≠ i.rulesetFile.parent) }

def start (engine : EngineSettings) (program : Program) (d : Document) (i : Invocation) :
    Session Reply := do
  modify fun w => { w with invocations := w.invocations ++ [i] }
  liftExcept (engine.reply d (program (← get).disk i))

/-- Starts the program while its ruleset is there. -/
def consult (engine : EngineSettings) (program : Program) (d : Document) (i : Invocation) :
    Session Reply := do
  placeRuleset i
  try engine.start program d i finally removeRuleset i

/-- A run of the rule engine on a document, part by part. -/
def session (engine : EngineSettings) (program : Program) (scratch : Scratch) (config : Config)
    (d : Document) : Session (List Finding) := do
  let ruleset ← liftExcept (engine.rulesetFor config)
  let i := engine.invocation scratch (← get).disk d ruleset
  placeSource i
  let reply ← try engine.consult program d i finally removeSource i
  liftExcept (assess Finding.key d reply)

/-- Runs the rule engine on a document. -/
def run (engine : EngineSettings) (program : Program) (scratch : Scratch) (disk : Disk)
    (config : Config) (d : Document) : EngineRun :=
  let (answer, w) := (engine.session program scratch config d).run.run { disk }
  ⟨answer, w.invocations, w.disk⟩

end EngineSettings

end ApiLint
