import ApiLint.Yaml.Token

/-! The nodes of a YAML document. What stands in front of a node is its head; a tag is left open
when it follows from the node itself. An alias stands for the node with its anchor, which may be a
node that it is itself a part of. -/
namespace ApiLint.Yaml

/-- What the tags of the standard types start with. -/
def standardTag : String := "tag:yaml.org,2002:"

/-- Where a node starts, and what is said of it in front. -/
structure Head where
  mark : Mark
  anchor : Option String := none
  tag : Option String := none
  deriving DecidableEq, Repr, Inhabited

/-- A node of a document. -/
inductive Node
  /-- A text; without a tag the text decides what it means. -/
  | scalar (head : Head) (text : Text)
  | sequence (head : Head) (items : List Node)
  | mapping (head : Head) (entries : List (Node × Node))
  /-- The node with this anchor. -/
  | alias (name : String)
  deriving Inhabited, Repr

namespace Node

def line : Node → Nat
  | scalar head _ | sequence head _ | mapping head _ => head.mark.line
  | .alias _ => 0

mutual

/-- The nodes with anchors in a node, by anchor. -/
def anchored : Node → List (String × Node)
  | scalar head text => (head.anchor.map fun name => (name, scalar head text)).toList
  | sequence head items =>
    (head.anchor.map fun name => (name, sequence head items)).toList ++ anchoredItems items
  | mapping head entries =>
    (head.anchor.map fun name => (name, mapping head entries)).toList ++ anchoredEntries entries
  | .alias _ => []
termination_by structural node => node

def anchoredItems : List Node → List (String × Node)
  | [] => []
  | item :: items => item.anchored ++ anchoredItems items

def anchoredEntries : List (Node × Node) → List (String × Node)
  | [] => []
  | (key, value) :: entries => key.anchored ++ value.anchored ++ anchoredEntries entries

end

end Node

/-- A document: its node, if the text is not empty, and the nodes with anchors. -/
structure Document where
  root? : Option Node
  anchored : List (String × Node)
  deriving Inhabited, Repr

namespace Document

/-- The document with this node. -/
def ofRoot (root : Node) : Document :=
  ⟨some root, root.anchored⟩

def empty : Document := ⟨none, []⟩

/-- The node that a node stands for. -/
def resolve? (d : Document) : Node → Option Node
  | .alias name => d.anchored.lookup name
  | node => some node

end Document

end ApiLint.Yaml
