import ApiLint.Yaml.Node
import ApiLint.Yaml.Token.Stream

/-! Documents from tokens. A text holds at most one document. What may be left out, such as the
value of a key, is an empty scalar where the token starts that it would stand at. A mistake counts
only when all tokens in front of it have been understood. -/
namespace ApiLint.Yaml

/-- Tokens that are left, and the anchors met so far. -/
structure Input where
  tokens : List Token
  anchors : List String := []

namespace Input

def kind (i : Input) : TokenKind :=
  (i.tokens.head?.map (·.kind)).getD .streamEnd

def mark (i : Input) : Mark :=
  (i.tokens.head?.map (·.mark)).getD default

def next (i : Input) : Input :=
  { i with tokens := i.tokens.tail }

/-- The fault when the next token may not stand here. -/
def unexpected (i : Input) : Fault :=
  match i.kind with
  | .broken fault => fault
  | _ => .malformed

def isBroken (i : Input) : Bool :=
  match i.kind with
  | .broken _ => true
  | _ => false

/-- Begins the node of an anchor, at the first token of what stands behind the anchor. No other
node may have it. -/
def «open» (anchor : Option String) (i : Input) : Except Fault Input :=
  match anchor with
  | none => .ok i
  | some name =>
    if i.isBroken || i.anchors.contains name then .error i.unexpected
    else .ok { i with anchors := name :: i.anchors }

/-- The alias for an anchor, which must have been met. -/
def aliased (name : String) (i : Input) : Except Fault Node :=
  if i.anchors.contains name then .ok (.alias name) else .error .malformed

end Input

/-- What stands in front of a node: an anchor and a tag, and where the first of them starts. -/
structure Properties where
  anchor : Option String := none
  tag : Option String := none
  mark : Option Mark := none

/-- The tag that does not say more than that there is none. -/
def openTag : String := "!"

/-- The meaning of tag handles where nothing else is said. -/
def defaultHandles : List (String × String) :=
  [("!", "!"), ("!!", standardTag)]

/-- A tag in full. -/
def fullTag (handles : List (String × String)) (handle : Option String) (suffix : String) :
    Except Fault String :=
  match handle with
  | none => .ok suffix
  | some h =>
    match handles.lookup h with
    | some uri => .ok (uri ++ suffix)
    | none => .error .malformed

/-- The anchor and the tag in front of a node, in either order. -/
def readProperties (handles : List (String × String)) (i : Input) :
    Except Fault (Properties × Input) := do
  let mark := some i.mark
  match i.kind, i.next.kind with
  | .anchor anchor, .tag handle suffix =>
    return ({ anchor, tag := ← fullTag handles handle suffix, mark }, i.next.next)
  | .anchor anchor, _ => return ({ anchor, mark }, i.next)
  | .tag handle suffix, .anchor anchor =>
    return ({ anchor, tag := ← fullTag handles handle suffix, mark }, i.next.next)
  | .tag _ _, .broken fault => throw fault
  | .tag handle suffix, _ => return ({ tag := ← fullTag handles handle suffix, mark }, i.next)
  | _, _ => return ({}, i)

/-- The tag of a scalar: a quoted one without a tag is a text. -/
def scalarTag (plain : Bool) (tag : Option String) : Option String :=
  match tag with
  | none => if plain then none else some (standardTag ++ "str")
  | some t => if t = openTag then none else some t

/-- The tag of a collection. -/
def collectionTag (tag : Option String) : Option String :=
  tag.filter (· ≠ openTag)

/-- The scalar that stands for what is left out. -/
def emptyScalar (mark : Mark) : Node :=
  .scalar { mark } []

/-- Where a node stands, which tells what it may be and when it is left out. -/
inductive Place
  /-- Alone in a document, or between brackets: what may follow decides. -/
  | document
  | flow
  /-- An item of a block sequence. -/
  | item
  /-- A key or a value of a block mapping; a sequence there need not be indented. -/
  | entry
  deriving DecidableEq

/-- Whether a token in front of which a block node may stand shows that it was left out. -/
def Place.endsAt (place : Place) (kind : TokenKind) : Bool :=
  match place, kind with
  | .document, .directive _ | .document, .documentStart | .document, .documentEnd
  | .document, .streamEnd => true
  | .item, .blockEntry | .item, .blockEnd => true
  | .entry, .key | .entry, .value | .entry, .blockEnd => true
  | .flow, .value | .flow, .flowEntry | .flow, .flowSequenceEnd | .flow, .flowMappingEnd => true
  | _, _ => false

mutual

/-- The node that starts here. -/
def readNode (handles : List (String × String)) (place : Place) :
    (fuel : Nat) → Input → Except Fault (Node × Input)
  | 0, _ => .error .malformed
  | fuel + 1, i =>
    match i.kind with
    | .alias name => do return (← i.aliased name, i.next)
    | _ => do
      let (properties, i) ← readProperties handles i
      let i ← i.open properties.anchor
      readContent handles place properties fuel i
termination_by structural fuel => fuel

/-- What follows the properties of a node. -/
def readContent (handles : List (String × String)) (place : Place) (properties : Properties) :
    (fuel : Nat) → Input → Except Fault (Node × Input)
  | 0, _ => .error .malformed
  | fuel + 1, i =>
    let mark := properties.mark.getD i.mark
    let anchor := properties.anchor
    let head : Head := { mark, anchor, tag := collectionTag properties.tag }
    let isBlock := place ≠ .flow
    let scalar (plain : Bool) (text : Text) : Node :=
      .scalar { mark, anchor, tag := scalarTag plain properties.tag } text
    let sequence (r : List Node × Input) : Node × Input := (.sequence head r.1, r.2)
    let mapping (r : List (Node × Node) × Input) : Node × Input := (.mapping head r.1, r.2)
    match i.kind with
    | .scalar text plain => .ok (scalar plain text, i.next)
    | .flowSequenceStart => (readFlowItems handles true fuel i.next).map sequence
    | .flowMappingStart => (readFlowEntries handles true fuel i.next).map mapping
    | kind =>
      if kind = .blockSequenceStart && isBlock then
        (readItems handles fuel i.next).map sequence
      else if kind = .blockMappingStart && isBlock then
        (readEntries handles fuel i.next).map mapping
      else if kind = .blockEntry && place = .entry then
        (readLooseItems handles fuel i).map sequence
      else if properties.mark.isSome && !i.isBroken then .ok (scalar true [], i)
      else .error i.unexpected

/-- A node, unless it is left out; it would stand at `mark` then. -/
def readOptional (handles : List (String × String)) (place : Place) (mark : Mark) :
    (fuel : Nat) → Input → Except Fault (Node × Input)
  | 0, _ => .error .malformed
  | fuel + 1, i =>
    if place.endsAt i.kind then .ok (emptyScalar mark, i) else readNode handles place fuel i

/-- A value behind its colon, if there is one. -/
def readValue (handles : List (String × String)) (place : Place) :
    (fuel : Nat) → Input → Except Fault (Node × Input)
  | 0, _ => .error .malformed
  | fuel + 1, i =>
    if i.kind = .value then readOptional handles place i.mark fuel i.next
    else .ok (emptyScalar i.mark, i)

/-- The items of a block sequence that are left, and its end. -/
def readItems (handles : List (String × String)) :
    (fuel : Nat) → Input → Except Fault (List Node × Input)
  | 0, _ => .error .malformed
  | fuel + 1, i =>
    match i.kind with
    | .blockEntry => do
      let (item, i) ← readOptional handles .item i.mark fuel i.next
      let (items, i) ← readItems handles fuel i
      return (item :: items, i)
    | .blockEnd => .ok ([], i.next)
    | _ => .error i.unexpected

/-- The items that are left of a block sequence that is not indented. It ends in front of what is
no item. -/
def readLooseItems (handles : List (String × String)) :
    (fuel : Nat) → Input → Except Fault (List Node × Input)
  | 0, _ => .error .malformed
  | fuel + 1, i =>
    match i.kind with
    | .blockEntry => do
      let (item, i) ←
        if Place.item.endsAt i.next.kind || Place.entry.endsAt i.next.kind then
          .ok (emptyScalar i.mark, i.next)
        else readNode handles .item fuel i.next
      let (items, i) ← readLooseItems handles fuel i
      return (item :: items, i)
    | _ => .ok ([], i)

/-- The entries of a block mapping that are left, and its end. -/
def readEntries (handles : List (String × String)) :
    (fuel : Nat) → Input → Except Fault (List (Node × Node) × Input)
  | 0, _ => .error .malformed
  | fuel + 1, i =>
    match i.kind with
    | .key => do
      let (key, i) ← readOptional handles .entry i.mark fuel i.next
      let (value, i) ← readValue handles .entry fuel i
      let (entries, i) ← readEntries handles fuel i
      return ((key, value) :: entries, i)
    | .blockEnd => .ok ([], i.next)
    | _ => .error i.unexpected

/-- The items between brackets that are left, and the closing bracket. An item with a key is a
mapping of one entry. -/
def readFlowItems (handles : List (String × String)) (first : Bool) :
    (fuel : Nat) → Input → Except Fault (List Node × Input)
  | 0, _ => .error .malformed
  | fuel + 1, i =>
    match i.kind with
    | .flowSequenceEnd => .ok ([], i.next)
    | kind =>
      if !first && kind ≠ .flowEntry then .error i.unexpected
      else
        let i := if first then i else i.next
        match i.kind with
        | .flowSequenceEnd => .ok ([], i.next)
        | .key => do
          let mark := i.mark
          let (key, i) ← readOptional handles .flow i.mark fuel i.next
          let (value, i) ← readValue handles .flow fuel i
          let (items, i) ← readFlowItems handles false fuel i
          return (.mapping { mark } [(key, value)] :: items, i)
        | _ => do
          let (item, i) ← readNode handles .flow fuel i
          let (items, i) ← readFlowItems handles false fuel i
          return (item :: items, i)

/-- The entries between braces that are left, and the closing brace. An entry without a colon has
an empty value. -/
def readFlowEntries (handles : List (String × String)) (first : Bool) :
    (fuel : Nat) → Input → Except Fault (List (Node × Node) × Input)
  | 0, _ => .error .malformed
  | fuel + 1, i =>
    match i.kind with
    | .flowMappingEnd => .ok ([], i.next)
    | kind =>
      if !first && kind ≠ .flowEntry then .error i.unexpected
      else
        let i := if first then i else i.next
        match i.kind with
        | .flowMappingEnd => .ok ([], i.next)
        | .key => do
          let (key, i) ← readOptional handles .flow i.mark fuel i.next
          let (value, i) ← readValue handles .flow fuel i
          let (entries, i) ← readFlowEntries handles false fuel i
          return ((key, value) :: entries, i)
        | _ => do
          let (key, i) ← readNode handles .flow fuel i
          let value := emptyScalar i.mark
          let (entries, i) ← readFlowEntries handles false fuel i
          return ((key, value) :: entries, i)

end

/-- What follows the directives of a document. -/
def dropDocumentEnds (i : Input) : Input :=
  { i with tokens := i.tokens.dropWhile (·.kind = .documentEnd) }

/-- The tag handles that directives define, and what follows them. The version of the language may
be given once and must be 1; no handle may be given twice. -/
def readDirectives (versioned : Bool) (handles : List (String × String)) :
    List Token → Except Fault (List (String × String) × List Token)
  | ⟨.directive (.version major), _⟩ :: rest =>
    if versioned || major ≠ 1 then .error .malformed else readDirectives true handles rest
  | ⟨.directive (.tagHandle handle uri), _⟩ :: rest =>
    if (handles.lookup handle).isSome then .error .malformed
    else readDirectives versioned ((handle, uri) :: handles) rest
  | ⟨.directive .other, _⟩ :: rest => readDirectives versioned handles rest
  | tokens => .ok (handles, tokens)

/-- The end of a text behind its only document. -/
def readEnd (i : Input) : Except Fault Unit :=
  let i := dropDocumentEnds i
  if i.kind = .streamEnd then .ok ()
  else
    match readDirectives false [] i.tokens with
    | .error fault => .error fault
    | .ok (_, tokens) => .error { i with tokens }.unexpected

/-- The only document of a text, from its first token on. -/
def readDocument (i : Input) : Except Fault Document := do
  let fuel := 4 * i.tokens.length + 8
  match i.kind with
  | .streamEnd => return .empty
  | .directive _ | .documentStart =>
    let (handles, tokens) ← readDirectives false [] i.tokens
    let i := { i with tokens }
    if i.kind ≠ .documentStart then throw i.unexpected
    let (node, i) ← readOptional (handles ++ defaultHandles) .document i.mark fuel i.next
    readEnd i
    return .ofRoot node
  | _ =>
    let (node, i) ← readNode defaultHandles .document fuel i
    readEnd i
    return .ofRoot node

def compose (source : Source) : Except Fault Document :=
  readDocument { tokens := tokens source }

end ApiLint.Yaml
