import ApiLint.Config.Basic

/-! Attempts to change a configuration. Its mappings and lists are frozen, so that setting a value
is refused. Only inside a tuple that was given as one the parts are not frozen, and a value can be
set there; nor is a set frozen that is the whole configuration. -/
namespace ApiLint

namespace Value

def number? : Value → Option Int
  | bool b => some (if b then 1 else 0)
  | int n => some n
  | _ => none

/-- The place that a number means among so many parts; numbers below zero count from the end. -/
def place? (count : Nat) (number : Int) : Option Nat :=
  let place := if number < 0 then number + count else number
  if 0 ≤ place ∧ place < count then some place.toNat else none

/-- The place that a value means in a row of parts. -/
def placeIn (kind : String) (count : Nat) (key : Value) : Except Misuse Nat :=
  match key.number? with
  | none => .error (.notNumber kind)
  | some number =>
    match place? count number with
    | some place => .ok place
    | none => .error (.noPlace kind)

/-- The part of a value that a key or a number leads to. -/
def part (v key : Value) : Except Misuse Value :=
  match v.opened with
  | map entries =>
    if key.isKey then
      match Entries.find? key entries with
      | some inner => .ok inner
      | none => .error (.noEntry key)
    else .error (.notKey key.kindName)
  | list items | tuple items =>
    (placeIn v.kindName items.length key).map fun n => items.getD n null
  | str s => (placeIn v.kindName s.length key).map fun n => str [s.getD n default]
  | bytes bs => (placeIn v.kindName bs.length key).map fun n => int (bs.getD n 0).toNat
  | _ => .error (.noParts v.kindName)

/-- A value with another one in place of a part. -/
def setPart (v key new : Value) : Except Misuse Value :=
  match v.opened with
  | map entries =>
    if key.isKey then .ok (map (Entries.put key new entries)) else .error (.notKey key.kindName)
  | list items => (placeIn v.kindName items.length key).map fun n => list (items.set n new)
  | tuple items => (placeIn v.kindName items.length key).map fun n => tuple (items.set n new)
  | _ => .error (.notChangeable v.kindName)

def isTuple (v : Value) : Bool :=
  match v.opened with
  | tuple _ => true
  | _ => false

/-- A value with another one set at the end of a row of keys. What is frozen, and any tuple, has no
place that could be set, but what is in a tuple is not frozen. -/
def assign (frozen : Bool) (new : Value) : List Value → Value → Except Misuse Value
  | [], _ => .ok new
  | [key], v =>
    if frozen || v.isTuple then .error (.notChangeable v.kindName) else v.setPart key new
  | key :: keys, v => do
    let inner ← v.part key
    v.setPart key (← assign (frozen && !v.isTuple) new keys inner)

end Value

namespace Config

/-- The configuration after a value has been set for a rule. -/
def set (c : Config) (scope category rule new : Value) : Except Misuse Config := do
  return { c with given := ← Value.assign true new [scope, category, rule] c.given }

/-- The configuration after a copy of its values has been emptied. A set is its own copy. -/
def clearCopy (c : Config) : Except Failure Config := do
  match (← c.toValue).opened with
  | .map _ | .list _ => return c
  | .set _ => return { c with given := .set [] }
  | v => throw (.misuse (.notClearable v.kindName))

end Config

end ApiLint
