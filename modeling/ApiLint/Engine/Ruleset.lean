import ApiLint.Config.Basic
import ApiLint.Text.Order

/-! The ruleset that the rule engine is given: which rulesets it extends, and the severity of each
configured rule that one of them defines. Rules of other rulesets are left out, since the engine
refuses rules that it does not know. -/
namespace ApiLint.Ruleset

/-- The rule engine's words for the statuses. -/
def severities : List (Text × Text) :=
  [("error", "error"), ("warning", "warn"), ("info", "info"), ("hint", "hint"), ("off", "off")]

/-- The rule engine's word for a status. -/
def severity (status : Value) : Except Misuse Text :=
  let word : Option Text :=
    match status with
    | .str s => severities.lookup s
    | _ => none
  match word with
  | some w => .ok w
  | none => .error (if status.isKey then .noEntry status else .notKey status.kindName)

/-- An extended ruleset; of the standard one the recommended rules are used. -/
def extension (ruleset : Text) : Value :=
  if ruleset = standardRuleset then .texts [ruleset, "recommended"] else .str ruleset

/-- Whether one of the rulesets defines a rule. -/
def isProvided (rulesets : List Text) (name : Value) : Bool :=
  (Rule.find? "spectral" "rules" name).any fun rule => rule.ruleset.any rulesets.contains

/-- The rules of a ruleset: each configured rule that is provided, and its severity. -/
def rules (rulesets : List Text) : Entries → Except Misuse Entries
  | [] => .ok []
  | (name, status) :: entries =>
    if isProvided rulesets name then do
      let word ← severity status
      return (name, .str word) :: (← rules rulesets entries)
    else rules rulesets entries

/-- The ruleset for configured rules with their statuses. -/
def build (statuses : Entries) (rulesets : List Text) : Except Misuse Value := do
  return .record
    [("extends", .list (rulesets.map extension)), ("rules", .map (← rules rulesets statuses))]

/-- The rulesets of a run: the standard one first, then those that are asked for, each once. -/
def chosen (extra : List Text) : List Text :=
  Text.unique (standardRuleset :: extra)

end ApiLint.Ruleset
