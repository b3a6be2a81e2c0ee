import ApiLint.Rule
import ApiLint.Text.Order

/-! What a configuration may say, as a schema that follows the declared rules. A value is checked
against it place by place; what is wrong at a place is reported once, with the keys that lead
there. -/
namespace ApiLint.Config

/-- What a value may be. -/
inductive Schema
  /-- One of some texts. -/
  | oneOf (texts : List Text)
  /-- A list of exactly these texts. -/
  | exactly (texts : List Text)
  /-- A list of two items. -/
  | pair (first second : Schema)
  /-- A list of items of one form. -/
  | each (item : Schema)
  /-- Whatever one of two schemas allows. -/
  | either (first second : Schema)
  /-- A mapping with some keys; other keys need a schema of their own, if they are allowed at
  all. -/
  | mapping (properties : List (Text × Schema)) (others : Option Schema)
  deriving Inhabited

/-- What is wrong at a place of a value. -/
inductive Offence
  | notMapping (given : Value)
  | notOneOf (given : Value) (texts : List Text)
  /-- The value has not the form of the list that it should be. -/
  | badList (given : Value)
  | noneOf (given : Value)
  | unknownKeys (keys : List Value)

/-- A place, as the keys that lead to it, and what is wrong there. -/
structure Problem where
  place : List Value
  offence : Offence

/-- Keys in the order of their texts. -/
def sortedKeys (keys : List Value) : List Value :=
  keys.mergeSort fun a b => Text.atMost a.text b.text

/-- The words for an offence. -/
def Offence.message : Offence → Text
  | notMapping given => given.literal ++ " is not of type 'object'"
  | notOneOf given texts => given.literal ++ " is not one of " ++ (Value.texts texts).literal
  | badList given => given.literal ++ " is not a list of the right form"
  | noneOf given => given.literal ++ " is not valid under any of the given schemas"
  | unknownKeys keys =>
    let verb : Text := if keys.length = 1 then "was" else "were"
    let names := Text.joined ", " ((sortedKeys keys).map Value.literal)
    "Additional properties are not allowed (" ++ names ++ " " ++ verb ++ " unexpected)"

/-- A problem of a part, seen from the value that holds it under a key. -/
def Problem.under (key : Value) (p : Problem) : Problem :=
  { p with place := key :: p.place }

/-- The entries of a mapping whose keys are none of the given ones. -/
def unknownEntries (known : List Text) (entries : Entries) : Entries :=
  entries.filter fun e => !known.any fun name => e.1.same (.str name)

/-- The problems of entries that no property is for. -/
def otherProblems (check : Option (Value → List Problem)) (entries : Entries) : List Problem :=
  match check with
  | some check => entries.flatMap fun e => (check e.2).map (·.under e.1)
  | none => if entries.isEmpty then [] else [⟨[], .unknownKeys (entries.map (·.1))⟩]

namespace Schema

mutual

/-- What is wrong in a value, place by place. -/
def problems : Schema → Value → List Problem
  | oneOf texts, v =>
    if texts.any fun t => v.same (.str t) then [] else [⟨[], .notOneOf v texts⟩]
  | exactly texts, v => if v.opened.same (.texts texts) then [] else [⟨[], .badList v⟩]
  | pair first second, v =>
    match v.opened with
    | .list [a, b] =>
      (problems first a).map (·.under (.int 0)) ++ (problems second b).map (·.under (.int 1))
    | _ => [⟨[], .badList v⟩]
  | each item, v =>
    match v.opened with
    | .list items =>
      (items.zipIdx.map fun x => (problems item x.1).map (·.under (.int x.2))).flatten
    | _ => [⟨[], .badList v⟩]
  | either first second, v =>
    if (problems first v).isEmpty || (problems second v).isEmpty then [] else [⟨[], .noneOf v⟩]
  | mapping properties others, v =>
    match v.opened with
    | .map entries =>
      propertyProblems properties entries ++
        otherProblems (otherCheck others) (unknownEntries (properties.map (·.1)) entries)
    | _ => [⟨[], .notMapping v⟩]
termination_by structural schema => schema

/-- What is wrong in the entries that the properties are for, property by property. -/
def propertyProblems : List (Text × Schema) → Entries → List Problem
  | [], _ => []
  | (name, schema) :: properties, entries =>
    let found :=
      match Entries.find? (.str name) entries with
      | some v => (problems schema v).map (·.under (.str name))
      | none => []
    found ++ propertyProblems properties entries

def otherCheck : Option Schema → Option (Value → List Problem)
  | some schema => some (problems schema)
  | none => none

end

mutual

/-- A schema as a value of its own. -/
def toValue : Schema → Value
  | oneOf texts => .record [("enum", .texts texts)]
  | exactly texts => .record [("const", .texts texts)]
  | pair first second =>
    .record [("type", .str "array"), ("items", .list [toValue first, toValue second]),
      ("minItems", .int 2), ("maxItems", .int 2)]
  | each item => .record [("type", .str "array"), ("items", toValue item)]
  | either first second => .record [("anyOf", .list [toValue first, toValue second])]
  | mapping properties others =>
    .record [("type", .str "object"), ("properties", .record (propertyValues properties)),
      ("additionalProperties", otherValue others)]
termination_by structural schema => schema

def propertyValues : List (Text × Schema) → List (Text × Value)
  | [] => []
  | (name, schema) :: properties => (name, toValue schema) :: propertyValues properties

def otherValue : Option Schema → Value
  | some schema => toValue schema
  | none => .bool false

end

end Schema

end ApiLint.Config
