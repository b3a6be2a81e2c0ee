import ApiLint.Engine.Program
import ApiLint.Engine.Structure
import ApiLint.Result

/-! Linting one document: it is read, checked, given to the rule engine, and what both find is put
together. The first step that fails ends it. -/
namespace ApiLint

/-- What the checks of a run have in common: the configuration, the outside check, and the rule
engine with its program and its names for files. -/
structure Setup where
  config : Config
  validator : Structure.Validator
  engine : EngineSettings
  program : Program
  scratch : Scratch

/-- What happened while a document was linted: the result, what the outside check was asked, and
the invocations of the rule engine. -/
structure Lint where
  result : Except Failure Diagnosis
  requests : List Structure.Request := []
  invocations : List Invocation := []

/-- Lints a document that was read. -/
def Lint.ofDocument (setup : Setup) (disk : Disk) (d : Document) : Lint :=
  let requests := [Structure.request disk d]
  match Structure.check setup.validator disk setup.config d with
  | .error e => { result := .error e, requests }
  | .ok built =>
    let run := setup.engine.run setup.program setup.scratch disk setup.config d
    let result := do
      let findings ← run.answer
      let locator ← Locator.ofText d.contents
      Diagnosis.merge built.version built.findings findings locator
    { result, requests, invocations := run.invocations }

/-- Lints the document in a file. -/
def Lint.ofFile (setup : Setup) (disk : Disk) (path : Path) : Lint :=
  match Document.load disk path with
  | .error e => { result := .error e }
  | .ok d => Lint.ofDocument setup disk d

end ApiLint
