import ApiLint.Failure
import ApiLint.Yaml.Node.Reader

/-! The line that a place of a document is on. A place is a row of steps, each a key or an index.
The steps are followed through the nodes of the text; the line is that of the last key or item that
was found. A key is found by its text, and the first of equal keys counts. -/
namespace ApiLint

/-- The nodes of a document's text, if it has any. -/
structure Locator where
  document : Yaml.Document

namespace Locator

open Yaml (Node)

/-- The line that stands for a document as a whole. -/
def wholeDocument : Nat := 0

/-- The nodes of a text. A text that is not YAML has none. -/
def ofText (contents : Text) : Except Failure Locator :=
  match Yaml.compose (.ofText contents) with
  | .ok document => .ok ⟨document⟩
  | .error .malformed => .ok ⟨.empty⟩
  | .error fault => .error (.yaml fault)

/-- The index that a step means, if it means one. -/
def index? : Value → Except Failure (Option Int)
  | .bool b => .ok (some (if b then 1 else 0))
  | .int n => .ok (some n)
  | .float x =>
    if x.isInf then .error (.misuse .infinitePlace)
    else .ok (some (Numeral.truncate x))
  | .str s => .ok (Numeral.readInt 10 s).toOption
  | _ => .ok none

/-- The value under the first key with a text, and the line of the key. -/
def entry? (l : Locator) (text : Text) : List (Node × Node) → Option (Nat × Node)
  | [] => none
  | (key, value) :: entries =>
    match l.document.resolve? key with
    | some (.scalar head name) =>
      if name = text then some (head.mark.line, value) else entry? l text entries
    | _ => entry? l text entries

def item? (index : Int) (items : List Node) : Option Node :=
  if 0 ≤ index then items[index.toNat]? else none

/-- The node that a step leads to, and the line that the step is found on, counted from zero. -/
def step (l : Locator) (segment : Value) (node : Node) : Except Failure (Option (Nat × Node)) :=
  match node with
  | .mapping _ entries =>
    if segment.hasLongNumeral && !entries.isEmpty then .error (.number .tooLarge)
    else
      .ok do
        let (line, value) ← l.entry? segment.text entries
        return (line, ← l.document.resolve? value)
  | .sequence _ items =>
    (index? segment).map fun index => do
      let item ← item? (← index) items
      let item ← l.document.resolve? item
      return (item.line, item)
  | _ => .ok none

/-- The line of the last step that can be followed from a node, when the steps before it led to
`line`. -/
def follow (l : Locator) (line : Nat) (node : Node) : List Value → Except Failure Nat
  | [] => .ok line
  | segment :: path =>
    match l.step segment node with
    | .error e => .error e
    | .ok none => .ok line
    | .ok (some (found, next)) => follow l (found + 1) next path

/-- The line of a place, counted from one; a document as a whole has the line zero. -/
def lineOf (l : Locator) (path : List Value) : Except Failure Nat :=
  match l.document.root? with
  | none => .ok wholeDocument
  | some root => l.follow wholeDocument root path

/-- The line of a place that is given as a value. One that counts as absent is the document as a
whole; any other must have steps, once there are nodes to follow them through. -/
def lineAt (l : Locator) (place : Value) : Except Failure Nat :=
  if !place.isTruthy || l.document.root?.isNone then .ok wholeDocument
  else
    match place.elements? with
    | some path => l.lineOf path
    | none => .error (.misuse (.notIterable place.kindName))

end Locator

end ApiLint
