import ApiLint.Config.Schema

/-! The grammar of configurations: the schema that follows from the declared rules, and the
problems of a value, in the order of their places. -/
namespace ApiLint.Config

def statusSchema : Schema := .oneOf statuses

/-- What a value of some kind may be. -/
def kindSchema : RuleKind → Schema
  | .status => statusSchema
  | .case => .either (.exactly [offStatus]) (.pair statusSchema (.oneOf cases))
  | .propertyType =>
    .either (.exactly [offStatus]) (.pair statusSchema (.each (.oneOf excludedProperties)))

def ruleSchema (rule : Rule) : Schema := kindSchema rule.kind

/-- What a category may hold. In an open scope rules of any name may have a status. -/
def categorySchema (scope : Text) (rules : List Rule) : Schema :=
  .mapping (rules.map fun rule => (rule.name, ruleSchema rule))
    (if scope ∈ Rule.extensibleScopes then some statusSchema else none)

def scopeSchema (scope : Text) (categories : List (Text × List Rule)) : Schema :=
  .mapping (categories.map fun c => (c.1, categorySchema scope c.2)) none

def schema : Schema :=
  .mapping (Rule.catalogue.map fun s => (s.1, scopeSchema s.1 s.2)) none

/-- The schema of configurations as a value, with its title. -/
def schemaValue : Value :=
  match schema.toValue with
  | .map fields =>
    .map ((.str "$schema", .str "http://json-schema.org/draft-07/schema#") ::
      (.str "title", .str "pva configuration") :: fields)
  | v => v

/-- The keys that lead to a place, as texts. -/
def Problem.steps (p : Problem) : List Text :=
  p.place.map Value.text

/-- Whether one row of texts comes before another, or is the same: the first difference decides,
and a row comes after its own beginnings. -/
def stepsLe : List Text → List Text → Bool
  | [], _ => true
  | _ :: _, [] => false
  | s :: ss, t :: ts => if s = t then stepsLe ss ts else Text.atMost s t

/-- A problem with its place in front. -/
def Problem.message (p : Problem) : Text :=
  let place := Text.joined "." p.steps
  (if place.isEmpty then ("<root>" : Text) else place) ++ ": " ++ p.offence.message

/-- The problems of a configuration, in the order of their places. -/
def problems (v : Value) : List Problem :=
  (schema.problems v).mergeSort fun a b => stepsLe a.steps b.steps

/-- The values that are written in the message for an offence. -/
def Offence.shown : Offence → List Value
  | notMapping given | notOneOf given _ | badList given | noneOf given => [given]
  | unknownKeys keys => keys

/-- Whether a problem can be written: no whole number in it is too large for that. -/
def Problem.isWritable (p : Problem) : Bool :=
  !(p.place ++ p.offence.shown).any Value.hasLongNumeral

/-- The problems of a configuration, as messages. -/
def complaints (v : Value) : Except Failure (List Text) :=
  let found := problems v
  if found.all Problem.isWritable then .ok (found.map Problem.message)
  else .error (.number .tooLarge)

end ApiLint.Config
