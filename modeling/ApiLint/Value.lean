import ApiLint.Calendar
import ApiLint.Numeral.Binary64
import ApiLint.Text

/-! The data that a document or a configuration holds. A mapping keeps its entries in the order in
which their keys came up, and a key that comes up again keeps its place and its first spelling
while its value is replaced. Numbers are keys by their value: `1`, `1.0` and `true` are one key.

A collection may contain itself. Then it has a label, and inside it its label stands for it; every
collection on the way from it to itself has a label too. `opened` writes such a collection out by
one step, so that its parts can be looked at as those of any other. -/
namespace ApiLint

/-- Where a value comes from that is no number although its kind is that of numbers. Two of them
are the same key only if they come from the same place. -/
inductive Origin
  /-- The name that JSON has for it. -/
  | json
  /-- The name that YAML has for it. -/
  | yaml
  /-- A scalar that starts at a place of a document. -/
  | scalar (document index : Nat)
  deriving DecidableEq, Repr, Inhabited

/-- A value of a document. -/
inductive Value
  | null
  | bool (b : Bool)
  | int (n : Int)
  | float (x : Float)
  /-- What is not a number. -/
  | nan (origin : Origin)
  | str (s : Text)
  | bytes (bs : List UInt8)
  | date (d : Calendar.Date)
  | time (t : Calendar.Time)
  | moment (m : Calendar.Moment)
  | list (items : List Value)
  /-- A list that cannot be changed. -/
  | tuple (items : List Value)
  /-- Distinct values, in the order in which they came up. -/
  | set (items : List Value)
  | map (entries : List (Value × Value))
  /-- A collection that contains itself. -/
  | loop (label : Nat) (body : Value)
  /-- The collection with this label, inside itself. -/
  | again (label : Nat)
  deriving Inhabited, Repr

namespace Value

/-- The whole number that a number stands for, when it is one written without a point. -/
def whole? : Value → Option Int
  | bool b => some (if b then 1 else 0)
  | int n => some n
  | _ => none

/-- Whether two values without parts are the same. -/
def sameScalar : Value → Value → Bool
  | null, null => true
  | str s, str t => s = t
  | bytes bs, bytes cs => bs = cs
  | date d, date e => d = e
  | time t, time u => t = u
  | moment m, moment n => m.same n
  | float x, float y => x == y
  | nan a, nan b => a = b
  | again l, again m => l = m
  | float x, v => v.whole?.any (Numeral.hasValue x)
  | v, float x => v.whole?.any (Numeral.hasValue x)
  | v, w =>
    match v.whole?, w.whole? with
    | some m, some n => m = n
    | _, _ => false

mutual

/-- Whether two values are the same. Lists and tuples are never the same; the order of a mapping
or of a set does not matter. -/
def same : Value → Value → Bool
  | list xs, list ys => sameEach xs ys
  | tuple xs, tuple ys => sameEach xs ys
  | set xs, set ys => xs.length = ys.length && amongAll xs ys
  | map es, map fs => es.length = fs.length && sameEntries es fs
  | loop l v, loop m w => l = m && same v w
  | v, w => sameScalar v w
termination_by structural v => v

/-- Whether two rows of values are the same, place by place. -/
def sameEach : List Value → List Value → Bool
  | [], [] => true
  | x :: xs, y :: ys => same x y && sameEach xs ys
  | _, _ => false

def amongAll : List Value → List Value → Bool
  | [], _ => true
  | x :: xs, ys => ys.any (fun y => same x y) && amongAll xs ys

def sameEntries : List (Value × Value) → List (Value × Value) → Bool
  | [], _ => true
  | (k, v) :: es, fs => fs.any (fun f => same k f.1 && same v f.2) && sameEntries es fs

end

mutual

/-- Whether a value can be a key: lists, sets and mappings cannot, and a tuple only when its items
can. -/
def isKey : Value → Bool
  | list _ | set _ | map _ | loop _ _ | again _ => false
  | tuple items => areKeys items
  | _ => true
termination_by structural v => v

def areKeys : List Value → Bool
  | [] => true
  | x :: xs => isKey x && areKeys xs

end

mutual

/-- A value with another one in place of a label. -/
def fill (label : Nat) (whole : Value) : Value → Value
  | list items => list (fillItems label whole items)
  | tuple items => tuple (fillItems label whole items)
  | map entries => map (fillEntries label whole entries)
  | loop l body => if l = label then loop l body else loop l (fill label whole body)
  | again l => if l = label then whole else again l
  | v => v
termination_by structural v => v

def fillItems (label : Nat) (whole : Value) : List Value → List Value
  | [] => []
  | x :: xs => fill label whole x :: fillItems label whole xs

def fillEntries (label : Nat) (whole : Value) : List (Value × Value) → List (Value × Value)
  | [] => []
  | (k, v) :: es => (k, fill label whole v) :: fillEntries label whole es

end

/-- A value whose parts can be looked at: a collection that contains itself is written out by one
step. -/
def opened : Value → Value
  | loop l body => fill l (loop l body) body
  | v => v

/-- Which collections a walk over a value looks into, besides mappings. -/
structure Reach where
  lists : Bool := true
  tuples : Bool := true

mutual

/-- Whether a walk over a value comes to no end. -/
def isEndless (reach : Reach) : Value → Bool
  | list items => reach.lists && anyEndless reach items
  | tuple items => reach.tuples && anyEndless reach items
  | map entries => anyEntryEndless reach entries
  | loop _ body => isEndless reach body
  | again _ => true
  | _ => false
termination_by structural v => v

def anyEndless (reach : Reach) : List Value → Bool
  | [] => false
  | x :: xs => isEndless reach x || anyEndless reach xs

def anyEntryEndless (reach : Reach) : List (Value × Value) → Bool
  | [] => false
  | (_, v) :: es => isEndless reach v || anyEntryEndless reach es

end

/-- A collection under a label, which it needs only if a walk over it comes back to it. -/
def labelled (label : Nat) (body : Value) : Value :=
  if body.isEndless {} then loop label body else body

/-- Whether a value counts as present: null, false, zero and whatever is empty do not. -/
def isTruthy : Value → Bool
  | null => false
  | bool b => b
  | int n => n ≠ 0
  | float x => x != 0.0
  | nan _ | loop _ _ | again _ => true
  | str s => !s.isEmpty
  | bytes bs => !bs.isEmpty
  | date _ | time _ | moment _ => true
  | list items | tuple items | set items => !items.isEmpty
  | map entries => !entries.isEmpty

/-- The name of a value's kind, for messages. -/
def kindName : Value → String
  | null => "NoneType"
  | bool _ => "bool"
  | int _ => "int"
  | float _ | nan _ => "float"
  | str _ => "str"
  | bytes _ => "bytes"
  | date _ => "datetime.date"
  | time _ => "datetime.time"
  | moment _ => "datetime.datetime"
  | list _ => "list"
  | tuple _ => "tuple"
  | set _ => "set"
  | map _ => "dict"
  | loop _ body => kindName body
  | again _ => "list"

/-- The values that a walk over a value meets: the items of a collection, the keys of a mapping,
the characters of a text. -/
def elements? (v : Value) : Option (List Value) :=
  match v.opened with
  | list items | tuple items | set items => some items
  | map entries => some (entries.map (·.1))
  | str s => some (s.map fun c => str [c])
  | bytes bs => some (bs.map fun b => int b.toNat)
  | _ => none

end Value

/-- The entries of a mapping, in order. -/
abbrev Entries := List (Value × Value)

namespace Entries

def find? (key : Value) : Entries → Option Value
  | [] => none
  | (k, v) :: rest => if k.same key then some v else find? key rest

def has (key : Value) (entries : Entries) : Bool :=
  (find? key entries).isSome

/-- The entries with a value put under a key: in place if the key occurs, at the end otherwise. -/
def put (key value : Value) : Entries → Entries
  | [] => [(key, value)]
  | (k, v) :: rest => if k.same key then (k, value) :: rest else (k, v) :: put key value rest

/-- The entries that arise when pairs are put one after the other. -/
def ofPairs (pairs : List (Value × Value)) : Entries :=
  pairs.foldl (fun entries pair => put pair.1 pair.2 entries) []

end Entries

namespace Value

/-- The value under a textual key of a mapping; nothing for other values. -/
def get? (v : Value) (name : Text) : Option Value :=
  match v.opened with
  | map entries => Entries.find? (str name) entries
  | _ => none

/-- The values of a row without those that were there before. -/
def distinct (items : List Value) : List Value :=
  items.foldl (fun kept x => if kept.any (same x) then kept else kept ++ [x]) []

/-- A mapping with textual keys that are all different. -/
def record (fields : List (Text × Value)) : Value :=
  map (fields.map fun field => (str field.1, field.2))

def texts (ts : List Text) : Value :=
  list (ts.map str)

end Value

end ApiLint
