import ApiLint.Toml.Text
import ApiLint.Value

/-! Tables inside tables. A key of several parts leads through tables, which come into being on the
way; an array of tables is passed through its last one. -/
namespace ApiLint.Toml

/-- The entries with the table at the end of a path changed; nothing when the path leads through
what is no table, or when the change fails. Arrays are passed only if `arrays` says so. -/
def changeAt (arrays : Bool) (change : Entries → Option Entries) :
    List String → Entries → Option Entries
  | [], entries => change entries
  | part :: path, entries =>
    let key := Value.str part
    match Entries.find? key entries with
    | none => do return entries.put key (.map (← changeAt arrays change path []))
    | some (.map table) => do return entries.put key (.map (← changeAt arrays change path table))
    | some (.list items) =>
      match items.getLast? with
      | some (.map table) =>
        if arrays then do
          let table ← changeAt arrays change path table
          return entries.put key (.list (items.dropLast ++ [.map table]))
        else none
      | _ => none
    | some _ => none

/-- The entries with a new one under a key that has none. -/
def addNew (part : String) (value : Value) (entries : Entries) : Option Entries :=
  let key := Value.str part
  if entries.has key then none else some (entries.put key value)

/-- The entries with an empty table added to the array of tables under a key. -/
def addTable (part : String) (entries : Entries) : Option Entries :=
  let key := Value.str part
  match Entries.find? key entries with
  | none => some (entries.put key (.list [.map []]))
  | some (.list items) => some (entries.put key (.list (items ++ [.map []])))
  | some _ => none

/-- Whether a value, once written, is complete: nothing can be added to a table or an array that is
written as a value. -/
def isClosed : Value → Bool
  | .map _ | .list _ => true
  | _ => false

/-- Whether a path starts with one of the closed ones. -/
def isFrozen (frozen : List (List String)) (path : List String) : Bool :=
  frozen.any (·.isPrefixOf path)

end ApiLint.Toml
