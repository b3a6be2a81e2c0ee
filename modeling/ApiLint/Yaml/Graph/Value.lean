import ApiLint.Yaml.Graph

/-! The values of the nodes of a graph. They are built level by level: a node without parts has its
value at once, and the parts of a collection come up when all nodes met before it have been dealt
with. At first a collection holds the numbers of its parts in their places. At the end the values
of the parts are put there; those that contain themselves are loops. -/
namespace ApiLint.Yaml

mutual

/-- The numbers that stand in a value. -/
def numbersIn : Value → List Nat
  | .again n => [n]
  | .list items | .tuple items => numbersInAll items
  | .map entries => numbersInEntries entries
  | _ => []
termination_by structural v => v

def numbersInAll : List Value → List Nat
  | [] => []
  | x :: xs => numbersIn x ++ numbersInAll xs

def numbersInEntries : List (Value × Value) → List Nat
  | [] => []
  | (_, v) :: es => numbersIn v ++ numbersInEntries es

end

mutual

/-- A value with values in place of the numbers in it. -/
def assemble (part : Nat → Value) : Value → Value
  | .again n => part n
  | .list items => .list (assembleAll part items)
  | .tuple items => .tuple (assembleAll part items)
  | .map entries => .map (assembleEntries part entries)
  | v => v
termination_by structural v => v

def assembleAll (part : Nat → Value) : List Value → List Value
  | [] => []
  | x :: xs => assemble part x :: assembleAll part xs

def assembleEntries (part : Nat → Value) : List (Value × Value) → List (Value × Value)
  | [] => []
  | (k, v) :: es => (k, assemble part v) :: assembleEntries part es

end

/-- The values of nodes, as far as they are known. -/
abbrev Values := Array (Option Value)

def Values.get? (values : Values) (n : Nat) : Option Value :=
  (values[n]?).join

/-- A document whose values are being built. -/
structure Assembly where
  graph : Graph
  /-- The values of the nodes that have come up. A collection whose parts have not come up stands
  for itself. -/
  shapes : Values
  /-- The collections whose parts are to come up, the last one first. -/
  waiting : List Nat := []

namespace Assembly

/-- Nothing has come up. -/
def start (graph : Graph) : Assembly where
  graph
  shapes := Array.replicate graph.size none

def record (a : Assembly) (n : Nat) (shape : Value) : Assembly :=
  { a with shapes := a.shapes.setIfInBounds n (some shape) }

/-- A node comes up. -/
def visit (document : Nat) (a : Assembly) (n : Nat) : Except Fault Assembly :=
  if (a.shapes.get? n).isSome then .ok a
  else if (a.graph.vertex n).kind ∈ collectionKinds then
    .ok { a.record n (.again n) with waiting := n :: a.waiting }
  else (a.graph.scalar document n).map (a.record n)

/-- An entry comes up, whose key must be a value that can be one. `found` are those before it, the
last one first. -/
def visitEntry (document : Nat) (found : List (Value × Value) × Assembly) (entry : Nat × Nat) :
    Except Fault (List (Value × Value) × Assembly) := do
  let a ← found.2.visit document entry.1
  match (a.shapes.get? entry.1).filter Value.isKey with
  | some key => return ((key, .again entry.2) :: found.1, ← a.visit document entry.2)
  | none => throw .malformed

/-- The entries of a mapping come up. -/
def visitEntries (document : Nat) (a : Assembly) (n : Nat) : Except Fault (Entries × Assembly) := do
  let graph ← a.graph.merged n
  let (found, a) ← (graph.entries n).foldlM (visitEntry document) ([], { a with graph })
  return (Entries.ofPairs found.reverse, a)

/-- An item that is a mapping of one entry comes up. `found` are those before it, the last one
first. -/
def visitPair (document : Nat) (found : List Value × Assembly) (item : Nat) :
    Except Fault (List Value × Assembly) :=
  match (found.2.graph.vertex item).holding with
  | .mapping [(key, value)] => do
    let a ← found.2.visit document key
    return (.tuple [.again key, .again value] :: found.1, ← a.visit document value)
  | _ => .error .malformed

/-- The parts of a collection come up. -/
def complete (document : Nat) (a : Assembly) (n : Nat) : Except Fault Assembly :=
  let v := a.graph.vertex n
  match v.kind, v.holding with
  | .sequence, .sequence items => do
    return (← items.foldlM (visit document) a).record n (.list (items.map .again))
  | .mapping, .mapping _ => do
    let (entries, a) ← a.visitEntries document n
    return a.record n (.map entries)
  | .set, .mapping _ => do
    let (entries, a) ← a.visitEntries document n
    return a.record n (.set (entries.map (·.1)))
  | .omap, .sequence items | .pairs, .sequence items => do
    let (found, a) ← items.foldlM (visitPair document) ([], a)
    return a.record n (.list found.reverse)
  | _, _ => .error .malformed

/-- The collections that wait are completed, level by level. There are no more levels than
nodes. -/
def finish (document : Nat) : (levels : Nat) → Assembly → Except Fault Assembly
  | 0, a => .ok a
  | levels + 1, a =>
    if a.waiting.isEmpty then .ok a
    else do
      let a ← a.waiting.reverse.foldlM (complete document) { a with waiting := [] }
      finish document levels a

end Assembly

namespace Values

/-- The values with that of a node, if those of its parts are there. -/
def extend (shapes values : Values) (n : Nat) : Values :=
  match shapes.get? n, values.get? n with
  | some shape, none =>
    if (numbersIn shape).all fun part => (values.get? part).isSome then
      values.setIfInBounds n (some (assemble (fun part => (values.get? part).getD .null) shape))
    else values
  | _, _ => values

/-- How many values are there. -/
def count (values : Values) : Nat :=
  values.foldl (fun count v => if v.isSome then count + 1 else count) 0

/-- The values that can be put together without loops. Each round goes from the last node to the
first, as most parts start behind what they are parts of. -/
def settle (shapes : Values) : (rounds : Nat) → Values → Values
  | 0, values => values
  | rounds + 1, values =>
    let next := (List.range shapes.size).reverse.foldl (extend shapes) values
    if next.count = values.count then values else settle shapes rounds next

/-- The value of a node inside others. A node that is inside itself is a loop. -/
def unfold (shapes values : Values) : (depth : Nat) → (around : List Nat) → Nat → Value
  | 0, _, n => .again n
  | depth + 1, around, n =>
    match values.get? n with
    | some value => value
    | none =>
      if n ∈ around then .again n
      else
        .labelled n
          (assemble (unfold shapes values depth (n :: around)) ((shapes.get? n).getD .null))

end Values

/-- The value of a node and its parts. `document` tells its numbers that are none from those of
other documents. -/
def Graph.value (document : Nat) (g : Graph) : Except Fault Value := do
  let a ← (Assembly.start g).visit document 0
  let a ← a.finish document g.size
  let values := Values.settle a.shapes g.size (Array.replicate g.size none)
  return Values.unfold a.shapes values (g.size + 1) [] 0

/-- The value of a document. -/
def Document.value (document : Nat) (d : Document) : Except Fault Value :=
  match d.root? with
  | none => .ok .null
  | some root =>
    if root.isTree then (build document root).mapError (·.fault)
    else (Graph.ofNode root).value document

/-- The value of what a source holds. -/
def readFrom (document : Nat) (source : Source) : Except Fault Value := do
  (← compose source).value document

def read (t : Text) : Except Fault Value :=
  readFrom 0 (.ofText t)

end ApiLint.Yaml
