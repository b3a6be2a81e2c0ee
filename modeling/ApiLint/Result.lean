import ApiLint.Document.Line
import ApiLint.Finding

/-! The result for a document: what both engines found, by severity, each message with its line.
Messages keep the order in which they were found, those of the structure check first. -/
namespace ApiLint

/-- A message: a finding with its line. -/
structure Message where
  path : List Value
  message : Value
  rule : Text
  line : Int
  deriving Inhabited

/-- The result for a document. -/
structure Diagnosis where
  version : Text
  errors : List Message := []
  warnings : List Message := []
  infos : List Message := []
  hints : List Message := []
  deriving Inhabited

/-- The severities that a message can have. -/
inductive Severity
  | error
  | warning
  | info
  | hint
  deriving DecidableEq, Repr

namespace Severity

def text : Severity → Text
  | error => "error"
  | warning => "warning"
  | info => "info"
  | hint => "hint"

/-- The severities, the worst first. -/
def all : List Severity := [error, warning, info, hint]

/-- The severity that a value names. -/
def ofValue (v : Value) : Except Misuse Severity :=
  let named : Option Severity :=
    match v with
    | .str s => all.find? (·.text = s)
    | _ => none
  match named with
  | some severity => .ok severity
  | none => .error (if v.isKey then .noEntry v else .notKey v.kindName)

end Severity

namespace Diagnosis

def bucket (r : Diagnosis) : Severity → List Message
  | .error => r.errors
  | .warning => r.warnings
  | .info => r.infos
  | .hint => r.hints

/-- The result with a message more. -/
def add (r : Diagnosis) (severity : Severity) (m : Message) : Diagnosis :=
  match severity with
  | .error => { r with errors := r.errors ++ [m] }
  | .warning => { r with warnings := r.warnings ++ [m] }
  | .info => { r with infos := r.infos ++ [m] }
  | .hint => { r with hints := r.hints ++ [m] }

def counts (r : Diagnosis) : List Nat :=
  [r.errors.length, r.warnings.length, r.infos.length, r.hints.length]

def total (r : Diagnosis) : Nat :=
  r.errors.length + r.warnings.length + r.infos.length + r.hints.length

/-- The result with a finding more. -/
def addFinding (locator : Locator) (r : Diagnosis) (f : Finding) : Except Failure Diagnosis := do
  let severity ← (Severity.ofValue f.severity).mapError .misuse
  let line ← locator.lineOf f.path
  return r.add severity ⟨f.path, f.message, f.rule, line⟩

/-- The result for a document of a version. -/
def merge (version : Text) (structural rules : List Finding) (locator : Locator) :
    Except Failure Diagnosis :=
  (structural ++ rules).foldlM (addFinding locator) { version }

end Diagnosis

end ApiLint
