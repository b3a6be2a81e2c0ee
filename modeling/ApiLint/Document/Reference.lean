import ApiLint.Failure

/-! References inside a document. A reference that starts with `#/` names a place of the same
document, key by key; following such references may lead back to one that is being followed, and
then the document is circular. A value that contains itself is walked over without end, and that is a
failure here as well. The limit that an interpreter sets to its stack is left out otherwise: a finite
value is walked over to its end, however deep it is. -/
namespace ApiLint.Reference

/-- A text with every occurrence of a tilde and a digit replaced by one character. -/
def replaceTilde (digit by_ : Char) : Text → Text
  | .char '~' :: d :: rest =>
    if d = .char digit then .char by_ :: replaceTilde digit by_ rest
    else .char '~' :: replaceTilde digit by_ (d :: rest)
  | c :: rest => c :: replaceTilde digit by_ rest
  | [] => []

/-- A key as a reference spells it, read back: `~1` is a slash, and after that `~0` is a tilde. -/
def unescape (token : Text) : Text :=
  replaceTilde '0' '~' (replaceTilde '1' '/' token)

/-- The index that a row of digits means. Digits that are not decimal, and too many of them, have
no meaning as a number. -/
def index (token : Text) : Except Failure Nat :=
  match Numeral.readInt 10 token with
  | .ok n => .ok n.toNat
  | .error fault => .error (.number fault)

/-- Whether a text consists of digits of any kind. -/
def isIndex (token : Text) : Bool :=
  !token.isEmpty && token.all (·.isA Text.isDigitLike)

/-- The part of a value that a key or an index leads to. -/
def step (v : Value) (token : Text) : Except Failure (Option Value) :=
  match v.opened with
  | .map entries => .ok (Entries.find? (.str token) entries)
  | .list items =>
    if isIndex token then (index token).map fun n => items[n]? else .ok none
  | _ => .ok none

/-- The part of a value that a row of keys and indices leads to. -/
def follow (v : Value) : List Text → Except Failure (Option Value)
  | [] => .ok (some v)
  | token :: tokens =>
    match step v token with
    | .error e => .error e
    | .ok none => .ok none
    | .ok (some part) => follow part tokens

/-- The part of a document that a reference names. Its first two characters are not looked at. -/
def resolve (document : Value) (ref : Text) : Except Failure (Option Value) :=
  follow document ((Text.pieces (.char '/') (ref.drop 2)).map unescape)

/-- What introduces a reference in a mapping. -/
def keyword : Value := .str "$ref"

/-- The reference that a mapping holds, if it names a place of the same document. -/
def local? (entries : Entries) : Option Text :=
  match Entries.find? keyword entries with
  | some (.str ref) => if ref.take 2 = "#/" then some ref else none
  | _ => none

mutual

/-- The local references in a value. What stands under the keyword itself is not searched. -/
def refs : Value → List Text
  | .map entries => (local? entries).toList ++ refsOfEntries entries
  | .list items => refsOfItems items
  | .loop _ body => refs body
  | _ => []
termination_by structural v => v

def refsOfItems : List Value → List Text
  | [] => []
  | x :: xs => refs x ++ refsOfItems xs

def refsOfEntries : List (Value × Value) → List Text
  | [] => []
  | (k, v) :: es => if k.same keyword then refsOfEntries es else refs v ++ refsOfEntries es

end

mutual

/-- The number of mappings in a value; each of them holds at most one reference. -/
def mappings : Value → Nat
  | .map entries => mappingsInEntries entries + 1
  | .list items => mappingsInItems items
  | .loop _ body => mappings body
  | _ => 0
termination_by structural v => v

def mappingsInItems : List Value → Nat
  | [] => 0
  | x :: xs => mappings x + mappingsInItems xs

def mappingsInEntries : List (Value × Value) → Nat
  | [] => 0
  | (_, v) :: es => mappings v + mappingsInEntries es

end

/-- Whether a circle was found, and the references that were followed to their end. -/
abbrev Walk := Except Failure (Bool × List Text)

/-- A step of a walk: what it does after the references in the list are done. -/
abbrev Walker := List Text → Walk

/-- One walk, and another one after it unless the first has found a circle. -/
def Walker.andThen (first second : Walker) : Walker := fun done =>
  match first done with
  | .ok (false, done) => second done
  | stop => stop

def Walker.skip : Walker := fun done => .ok (false, done)

mutual

/-- Walks over a value; `expand` walks over what a reference names. A value that contains itself is
walked over without end, which is the failure `stuck`. -/
def walkWith (expand : Text → Walker) (stuck : Failure) : Value → Walker
  | .map entries =>
    Walker.andThen ((local? entries).elim Walker.skip expand) (walkEntries expand stuck entries)
  | .list items => walkItems expand stuck items
  | .loop _ body => walkWith expand stuck body
  | .again _ => fun _ => .error stuck
  | _ => Walker.skip
termination_by structural v => v

def walkItems (expand : Text → Walker) (stuck : Failure) : List Value → Walker
  | [] => Walker.skip
  | x :: xs => Walker.andThen (walkWith expand stuck x) (walkItems expand stuck xs)

/-- Walks over the values of a mapping, except what stands under the keyword. -/
def walkEntries (expand : Text → Walker) (stuck : Failure) : List (Value × Value) → Walker
  | [] => Walker.skip
  | (k, v) :: es =>
    if k.same keyword then walkEntries expand stuck es
    else Walker.andThen (walkWith expand stuck v) (walkEntries expand stuck es)

end

/-- The parts of a value that a walk looks at. -/
def parts (v : Value) : List Value :=
  match v.opened with
  | .map entries => (entries.filter fun e => !e.1.same keyword).map (·.2)
  | .list items => items
  | _ => []

/-- The part of a value that a walk without end is at after so many steps. -/
def astray : Nat → Value → Value
  | 0, v => v
  | n + 1, v =>
    match (parts v).find? (·.isEndless { tuples := false }) with
    | some part => astray n part
    | none => v

/-- The number of steps after which a walk without end is given up. It stands for the stack limit of the
interpreter, and is asked for only to word the failure of a value that contains itself. -/
def patience : Nat := 330

def isMapping (v : Value) : Bool :=
  match v.opened with
  | .map _ => true
  | _ => false

/-- Walks over a value of a document while the references in `active` are being followed. Each
reference is followed once; to meet one that is being followed closes a circle. -/
def walk (document : Value) : (fuel : Nat) → (active : List Text) → Value → Walker
  | 0, _, _ => Walker.skip
  | fuel + 1, active, v =>
    walkWith (fun ref done =>
      if active.contains ref then .ok (true, done)
      else if done.contains ref then .ok (false, done)
      else
        match resolve document ref with
        | .error e => .error e
        | .ok none | .ok (some .null) => .ok (false, ref :: done)
        | .ok (some target) =>
          match walk document fuel (ref :: active) target done with
          | .ok (false, done) => .ok (false, ref :: done)
          | stop => stop)
      (.endless (active.isEmpty && isMapping (astray patience v))) v

/-- Whether the local references of a document form a circle. No more references can be active at
once than the document has mappings. -/
def isCircular (document : Value) : Except Failure Bool :=
  (walk document (mappings document + 1) [] document []).map (·.1)

end ApiLint.Reference
