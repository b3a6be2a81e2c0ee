import ApiLint.Config.Default
import ApiLint.Config.Overlay
import ApiLint.Rule

/-! The configuration of a run. Its rules are frozen when it is made: its lists become tuples, as
far as only mappings and lists lead to them. A copy that is asked for has lists again. -/
namespace ApiLint

namespace Value

mutual

/-- A value with tuples for its lists. Tuples stay with all that is in them. -/
def frozen : Value → Value
  | map entries => map (frozenEntries entries)
  | list items => tuple (frozenItems items)
  | loop l body => fill l (loop l body) (frozen body)
  | v => v
termination_by structural v => v

def frozenItems : List Value → List Value
  | [] => []
  | x :: xs => frozen x :: frozenItems xs

def frozenEntries : List (Value × Value) → List (Value × Value)
  | [] => []
  | (k, v) :: es => (k, frozen v) :: frozenEntries es

end

mutual

/-- A value with lists for its tuples. Lists stay with all that is in them. -/
def thawed : Value → Value
  | map entries => map (thawedEntries entries)
  | tuple items => list (thawedItems items)
  | loop l body => fill l (loop l body) (thawed body)
  | v => v
termination_by structural v => v

def thawedItems : List Value → List Value
  | [] => []
  | x :: xs => thawed x :: thawedItems xs

def thawedEntries : List (Value × Value) → List (Value × Value)
  | [] => []
  | (k, v) :: es => (k, thawed v) :: thawedEntries es

end

/-- What stands under a key of a value that must be a mapping. -/
def lookup (v key : Value) : Except Misuse (Option Value) :=
  match v.opened with
  | map entries =>
    if key.isKey then .ok (Entries.find? key entries) else .error (.notKey key.kindName)
  | _ => .error (.notMapping v.kindName "get")

end Value

/-- The configuration of a run: the values of the rules as they were given, by scope, category and
name, and the file that says what differs from the defaults. -/
structure Config where
  given : Value
  source : Option Path := none

namespace Config

/-- A configuration with given values. What contains itself cannot be frozen. -/
def ofValue (given : Value) (source : Option Path := none) : Except Failure Config :=
  if given.isEndless { tuples := false } then .error .endless else .ok ⟨given, source⟩

/-- The configuration that holds where nothing is said. -/
def default : Config := ⟨defaults, none⟩

def rules (c : Config) : Value :=
  c.given.frozen

/-- The value of a rule, or null if it is not configured. -/
def value (c : Config) (scope category rule : Value) : Except Misuse Value := do
  let categories := (← c.rules.lookup scope).getD (.map [])
  let rules := (← categories.lookup category).getD (.map [])
  return (← rules.lookup rule).getD .null

/-- The status of a rule; one that is not configured is off. -/
def status (c : Config) (scope category rule : Value) : Except Misuse Value := do
  match ← c.value scope category rule with
  | .null => return .str offStatus
  | v => statusIn v

/-- The rules of the rule engine and their statuses. -/
def engineRules (c : Config) : Except Misuse Entries := do
  let categories := (← c.rules.lookup (.str "spectral")).getD (.map [])
  let rules := (← categories.lookup (.str "rules")).getD (.map [])
  match rules.opened with
  | .map entries => entries.mapM fun e => return (e.1, ← statusIn e.2)
  | _ => throw (.notMapping rules.kindName "items")

/-- A copy of the values that may be changed. -/
def toValue (c : Config) : Except Failure Value :=
  if c.rules.isEndless { lists := false } then .error .endless else .ok c.rules.thawed

end Config

end ApiLint
