import ApiLint.Failure
import ApiLint.Finding
import ApiLint.Json.Reader
import ApiLint.Text.Blank

/-! The rule engine's answer: a list in JSON, an item for each finding, with levels from zero for
errors to three for hints. -/
namespace ApiLint.Answer

/-- The severities of the levels. -/
def levels : Entries :=
  [(.int 0, .str "error"), (.int 1, .str "warning"), (.int 2, .str "info"), (.int 3, .str "hint")]

/-- The severity of a level; an unknown one is a warning. -/
def severity (level : Value) : Except Misuse Value :=
  if level.isKey then .ok ((levels.find? level).getD (.str "warning"))
  else .error (.notKey level.kindName)

def steps (path : Value) : Except Misuse (List Value) :=
  match path.elements? with
  | some steps => .ok steps
  | none => .error (.notIterable path.kindName)

/-- What stands under a key of an item, or something else where it is missing. -/
def field (entries : Entries) (name : Text) (otherwise : Value) : Value :=
  (entries.find? (.str name)).getD otherwise

/-- The finding of an item. -/
def finding (item : Value) : Except Misuse Finding :=
  match item with
  | .map entries => do
    let path ← steps (field entries "path" (.list []))
    let severity ← severity (field entries "severity" (.int 1))
    return {
      path
      message := field entries "message" (.str "")
      rule := (field entries "code" (.str "")).text
      severity }
  | v => .error (.notMapping v.kindName "get")

/-- The start of an answer, as it is quoted in messages. -/
def start (output : Text) : Text :=
  output.take 200

/-- The findings of an answer. An empty one has none. -/
def parse (output : Text) : Except Failure (List Finding) :=
  if (Text.trimmed output).isEmpty then .ok []
  else
    match Json.read output with
    | .error (.mistake _) => .error (.engine (.unreadableAnswer (start output)) none)
    | .error (.numeral fault) => .error (.number fault)
    | .ok (.list items) => (items.mapM finding).mapError .misuse
    | .ok _ => .error (.engine (.strangeAnswer (start output)) none)

end ApiLint.Answer
