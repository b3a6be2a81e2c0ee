import ApiLint.Value

/-! Places inside a value. A place is a row of steps from the whole value inwards, each the key of an
entry of a mapping or the index of an item of a list. -/
namespace ApiLint

/-- A step inwards: a text or a whole number. -/
inductive Step
  | text (t : Text)
  | whole (n : Int)
  deriving DecidableEq, Repr

def Step.value : Step → Value
  | text t => .str t
  | whole n => .int n

theorem Step.same_value {s t : Step} : s.value.same t.value = true ↔ s = t := by
  cases s <;> cases t <;> simp [Step.value, Value.same, Value.sameScalar, Value.whole?]

namespace Value

/-- The part of a value that a step leads to: a mapping is asked for the key, a list for the item at
the index. -/
def part? (s : Step) : Value → Option Value
  | map entries => Entries.find? s.value entries
  | list items =>
    match s with
    | .whole i => if 0 ≤ i then items[i.toNat]? else none
    | .text _ => none
  | _ => none

/-- The part of a value at a place, if the place exists. -/
def at? : List Step → Value → Option Value
  | [], v => some v
  | s :: p, v => (v.part? s).bind (at? p)

end Value

end ApiLint
