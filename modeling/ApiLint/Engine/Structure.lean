import ApiLint.Config.Basic
import ApiLint.Document
import ApiLint.Document.Reference
import ApiLint.Finding

/-! The structure check. Whether a document has the structure that its format asks for is left to
an outside check, which is told the dialect and the address that references start from; what it
finds is an error. Besides, a document whose references form a circle is reported, as badly as the
configuration says. -/
namespace ApiLint

/-- The dialects that the structure of a document can be checked for. -/
inductive Dialect
  | swagger2
  | openapi30
  | openapi31
  deriving DecidableEq, Repr

namespace Structure

/-- What the outside check is asked. -/
structure Request where
  document : Document
  dialect : Dialect
  address : Text

/-- How the outside check can break down. -/
inductive Breakdown
  /-- Following references came to no end. -/
  | endless
  /-- It looked for a key that is not there. -/
  | missingKey (name : Text)
  | other (text : Text)
  deriving DecidableEq, Repr

def Breakdown.text : Breakdown → Text
  | endless => ""
  | missingKey name => Text.quoted name
  | other text => text

/-- What the outside check answers: the places and messages of what it finds, and how it broke
down, if it did. -/
structure Verdict where
  errors : List (List Value × Value)
  breakdown : Option Breakdown := none

/-- An outside check. -/
abbrev Validator := Request → Verdict

/-- What is known of a document after the check. -/
structure Built where
  version : Text
  document : Value
  circular : Bool
  findings : List Finding

/-- The rule that errors of structure belong to. -/
def errorRule : Text := "openapi-structure"

/-- The rule against circular references. -/
def circleRule : Text := "has_circular_references"

def circleMessage : Text := "API definition contains circular references."

def dialect (d : Document) : Dialect :=
  if d.isLegacy then .swagger2
  else if d.version.take 3 = "3.1" then .openapi31
  else .openapi30

/-- What the outside check is asked about a document. -/
def request (disk : Disk) (d : Document) : Request :=
  ⟨d, dialect d, (disk.resolve d.path).address⟩

def Breakdown.fault : Breakdown → EngineFault
  | .endless => .endlessReferences
  | b => .checkFailed b.text

def errorFinding (e : List Value × Value) : Finding :=
  ⟨e.1, e.2, errorRule, .str "error"⟩

/-- The finding that references form a circle, unless the rule is off. -/
def circularFinding (circular : Bool) (status : Value) : List Finding :=
  if circular && !status.same (.str offStatus) then
    [⟨[], .str circleMessage, circleRule, status⟩]
  else []

/-- Checks a document. -/
def check (validator : Validator) (disk : Disk) (config : Config) (d : Document) :
    Except Failure Built := do
  let verdict := validator (request disk d)
  match verdict.breakdown with
  | some b => throw (.engine b.fault d.path)
  | none =>
    let circular ← Reference.isCircular d.data
    let status ← (config.status (.str "shared") (.str "walker") (.str circleRule)).mapError
      .misuse
    return {
      version := d.version
      document := d.data
      circular
      findings := verdict.errors.map errorFinding ++ circularFinding circular status }

end Structure

end ApiLint
