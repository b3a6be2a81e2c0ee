import ApiLint.Yaml.Node.Reader
import ApiLint.Yaml.Scalar

/-! The values of trees: nodes among which there is no alias, and no key that does more than name an
entry. Each value is built from those of the parts. When several nodes have no value, the fault is
that of the one nearest to the root, and of equally near ones the first. -/
namespace ApiLint.Yaml

/-- The kind of a node. -/
def Node.kind : Node → Kind
  | .scalar head text => scalarKind head.tag text
  | .sequence head _ => (head.tag.map kindOfTag).getD .sequence
  | .mapping head _ => (head.tag.map kindOfTag).getD .mapping
  | .alias _ => .unknown

/-- Whether a key of a kind does no more than name an entry. -/
def Kind.isName (kind : Kind) : Bool :=
  kind ≠ .merge && kind ≠ .value

mutual

/-- Whether a node is a tree. -/
def Node.isTree : Node → Bool
  | .scalar _ _ => true
  | .sequence _ items => areTrees items
  | .mapping _ entries => areTreeEntries entries
  | .alias _ => false
termination_by structural node => node

def areTrees : List Node → Bool
  | [] => true
  | item :: items => item.isTree && areTrees items

/-- Whether keys and values of a mapping are trees and its keys are names. -/
def areTreeEntries : List (Node × Node) → Bool
  | [] => true
  | (key, value) :: entries =>
    key.kind.isName && key.isTree && value.isTree && areTreeEntries entries

end

/-- A fault and how far below a node it lies. -/
structure Setback where
  depth : Nat
  fault : Fault
  deriving Repr

/-- What is built from a node, unless the node or one inside it has no value. -/
abbrev Built (α : Type) := Except Setback α

/-- A fault of the node itself. -/
def here (fault : Fault) : Setback := ⟨0, fault⟩

/-- A fault of the node's parts. -/
def inside (fault : Fault) : Setback := ⟨1, fault⟩

/-- What is built from a part, seen from the node. -/
def Built.below {α : Type} (b : Built α) : Built α :=
  b.mapError fun s => { s with depth := s.depth + 1 }

/-- What is built from two parts; of two faults the less deep one counts. -/
def Built.both {α β γ : Type} (join : α → β → γ) : Built α → Built β → Built γ
  | .ok x, .ok y => .ok (join x y)
  | .error s, .ok _ => .error s
  | .ok _, .error t => .error t
  | .error s, .error t => .error (if t.depth < s.depth then t else s)

/-- A key, which must be a value that can be one. A collection cannot, whatever is in it. -/
def usableKey (key : Built Value) : Built Value :=
  match key with
  | .ok v => if v.isKey then .ok v else .error (inside .malformed)
  | .error s => .error (if 1 < s.depth then inside .malformed else s)

/-- The kinds of collections. -/
def collectionKinds : List Kind := [.omap, .pairs, .set, .sequence, .mapping]

mutual

/-- The value of a tree. `document` tells its numbers that are none from those of another
document. -/
def build (document : Nat) : Node → Built Value
  | .scalar head text =>
    let kind := scalarKind head.tag text
    if kind ∈ collectionKinds then .error (inside .malformed)
    else (scalarValue kind (.scalar document head.mark.index) text).mapError here
  | .sequence head items =>
    match (head.tag.map kindOfTag).getD .sequence with
    | .sequence => (buildItems document items).map .list
    | .omap | .pairs => (buildPairs document items).map .list
    | .set | .mapping => .error (inside .malformed)
    | _ => .error (here .malformed)
  | .mapping head entries =>
    match (head.tag.map kindOfTag).getD .mapping with
    | .mapping => (buildEntries document entries).map fun pairs => .map (Entries.ofPairs pairs)
    | .set =>
      (buildEntries document entries).map fun pairs => .set ((Entries.ofPairs pairs).map (·.1))
    | .omap | .pairs | .sequence => .error (inside .malformed)
    | _ => .error (here .malformed)
  | .alias _ => .error (here .malformed)
termination_by structural node => node

def buildItems (document : Nat) : List Node → Built (List Value)
  | [] => .ok []
  | item :: items =>
    Built.both (· :: ·) (build document item).below (buildItems document items)

/-- The values of items that are mappings of one entry each, as pairs. -/
def buildPairs (document : Nat) : List Node → Built (List Value)
  | [] => .ok []
  | .mapping _ [(key, value)] :: items =>
    Built.both (· :: ·)
      (Built.both (fun k v => .tuple [k, v]) (build document key).below
        (build document value).below)
      (buildPairs document items)
  | _ :: _ => .error (inside .malformed)

/-- The keys and values of the entries of a mapping. -/
def buildEntries (document : Nat) : List (Node × Node) → Built (List (Value × Value))
  | [] => .ok []
  | (key, value) :: entries =>
    Built.both (· :: ·)
      (Built.both Prod.mk (usableKey (build document key).below) (build document value).below)
      (buildEntries document entries)

end

end ApiLint.Yaml
