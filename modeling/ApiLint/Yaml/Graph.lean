import ApiLint.Yaml.Content

/-! The nodes of a document as a graph. Every node has a number, in the order in which the nodes
start, and holds the numbers of its parts, so that an alias is one more place where a number
occurs. A key `<<` merges the entries of other mappings into its own; `merged` carries this out. -/
namespace ApiLint.Yaml

/-- What a node holds: a text, or its parts by number. -/
inductive Holding
  | scalar (text : Text)
  | sequence (items : List Nat)
  | mapping (entries : List (Nat × Nat))
  deriving Inhabited, Repr

/-- A node of a graph: its kind, where it starts and what it holds. -/
structure Vertex where
  kind : Kind
  index : Nat
  holding : Holding
  deriving Repr

/-- The nodes of a document by number, the numbers of those with anchors, and how many entries the
mappings had at the start. -/
structure Graph where
  vertices : Array Vertex := #[]
  anchors : List (String × Nat) := []
  entryCount : Nat := 0

namespace Graph

def size (g : Graph) : Nat :=
  g.vertices.size

def vertex (g : Graph) (n : Nat) : Vertex :=
  g.vertices.getD n ⟨.unknown, 0, .scalar []⟩

def entries (g : Graph) (n : Nat) : List (Nat × Nat) :=
  match (g.vertex n).holding with
  | .mapping entries => entries
  | _ => []

def push (g : Graph) (node : Node) (head : Head) (holding : Holding) : Graph :=
  { g with
    vertices := g.vertices.push ⟨node.kind, head.mark.index, holding⟩
    anchors := (head.anchor.map fun name => (name, g.size)).toList ++ g.anchors }

/-- The graph in which a node holds something else. -/
def hold (g : Graph) (n : Nat) (holding : Holding) : Graph :=
  { g with vertices := g.vertices.modify n fun v => { v with holding } }

mutual

/-- The number of a node, and the graph with it and its parts. -/
def place : Node → Graph → Nat × Graph
  | .scalar head text, g => (g.size, g.push (.scalar head text) head (.scalar text))
  | .sequence head items, g =>
    let (numbers, g') := placeItems items (g.push (.sequence head items) head (.sequence []))
    (g.size, g'.hold g.size (.sequence numbers))
  | .mapping head entries, g =>
    let (numbers, g') := placeEntries entries (g.push (.mapping head entries) head (.mapping []))
    (g.size, g'.hold g.size (.mapping numbers))
  | .alias name, g => ((g.anchors.lookup name).getD 0, g)
termination_by structural node => node

/-- The numbers of the items of a sequence, and the graph with them. -/
def placeItems : List Node → Graph → List Nat × Graph
  | [], g => ([], g)
  | item :: items, g =>
    let (number, g) := place item g
    let (numbers, g) := placeItems items g
    (number :: numbers, g)

/-- The numbers of the keys and values of a mapping, and the graph with them. -/
def placeEntries : List (Node × Node) → Graph → List (Nat × Nat) × Graph
  | [], g => ([], g)
  | (key, value) :: entries, g =>
    let (k, g) := place key g
    let (v, g) := place value g
    let (numbers, g) := placeEntries entries { g with entryCount := g.entryCount + 1 }
    ((k, v) :: numbers, g)

end

/-- The graph of a node and its parts. The node has the number zero. -/
def ofNode (node : Node) : Graph :=
  (place node {}).2

/-- The graph in which a key that is the sign of a value is a text. -/
def named (g : Graph) (key : Nat) : Graph :=
  { g with
    vertices := g.vertices.modify key fun v =>
      if v.kind = .value then { v with kind := .str } else v }

/-- The graph in which a mapping has the entries that are merged into it. They come before its own,
so that its own replace them; of a sequence of mappings the first comes last. Each step takes away
one of the entries that there were at the start, so no more steps are needed than those. -/
def mergedIn : (steps : Nat) → Nat → Graph → Except Fault Graph
  | 0, _, _ => .error .endless
  | steps + 1, n, g =>
    match (g.entries n).span fun e => (g.vertex e.1).kind ≠ .merge with
    | (entries, []) => .ok (entries.foldl (fun g e => g.named e.1) g)
    | (before, (_, source) :: after) => do
      let g := g.hold n (.mapping (before ++ after))
      let (extra, g) ←
        match (g.vertex source).holding with
        | .mapping _ => do
          let g ← mergedIn steps source g
          pure (g.entries source, g)
        | .sequence items =>
          items.foldlM
            (fun (extra, g) item =>
              match (g.vertex item).holding with
              | .mapping _ => do
                let g ← mergedIn steps item g
                pure (g.entries item ++ extra, g)
              | _ => .error .malformed)
            ([], g)
        | .scalar _ => .error .malformed
      let g ← mergedIn steps n g
      return g.hold n (.mapping (extra ++ g.entries n))

/-- The graph in which a mapping has the entries that are merged into it. -/
def merged (n : Nat) (g : Graph) : Except Fault Graph :=
  mergedIn (g.entryCount + 1) n g

/-- The text of a node. The text of a mapping is that of the value under the key `=`. -/
def textIn (g : Graph) : (steps : Nat) → Nat → Except Fault Text
  | 0, _ => .error .endless
  | steps + 1, n =>
    match (g.vertex n).holding with
    | .scalar text => .ok text
    | .sequence _ => .error .malformed
    | .mapping entries =>
      match entries.find? fun e => (g.vertex e.1).kind = .value with
      | some (_, value) => textIn g steps value
      | none => .error .malformed

/-- The value of a node without parts of its own. -/
def scalar (g : Graph) (document n : Nat) : Except Fault Value :=
  let v := g.vertex n
  if v.kind ∈ [.merge, .value, .unknown] then .error .malformed
  else do
    let text ← g.textIn (g.size + 1) n
    match v.kind, v.holding with
    | .timestamp, .mapping _ => .error .timeOfMapping
    | kind, _ => scalarValue kind (.scalar document v.index) text

end Graph

end ApiLint.Yaml
