import ApiLint.Failure
import ApiLint.Json.Reader
import ApiLint.Text.Blank
import ApiLint.Yaml.Graph.Value

/-! API documents. The text of a file is taken without its byte order mark and with spaces for
tabs, so that its lines stay where they are; the suffix of its name tells how to read it, and what
it declares tells whether it describes an API. -/
namespace ApiLint

/-- A document that describes an API. -/
structure Document where
  path : Path
  /-- The text that was read, prepared for reading. -/
  contents : Text
  data : Value
  version : Text

namespace Document

/-- A text without the byte order mark in front. -/
def stripMark : Text → Text
  | .char '\uFEFF' :: rest => rest
  | t => t

def expandTabs (t : Text) : Text :=
  t.flatMap fun c => if c = .char '\t' then Text.spaces 2 else [c]

/-- No tab is left. -/
theorem tab_not_mem_expandTabs (t : Text) : .char '\t' ∉ expandTabs t := by
  simp only [expandTabs, List.mem_flatMap, not_exists, not_and]
  intro c _
  split <;> simp_all [eq_comm, Text.spaces]

/-- The formats of documents. -/
inductive Format
  | json
  | yaml
  deriving DecidableEq, Repr

/-- The format that a name's suffix says. -/
def format? (path : Path) : Option Format :=
  if path.suffix = ".json" then some .json
  else if path.suffix = ".yaml" ∨ path.suffix = ".yml" then some .yaml
  else none

/-- The value of a text, read as the name of its file says. -/
def parse (contents : Text) (path : Path) : Except Failure Value :=
  match format? path with
  | some .json =>
    (Json.read contents).mapError fun
      | .mistake m => .badJson m path
      | .numeral f => .number f
  | some .yaml =>
    (Yaml.read contents).mapError fun
      | .malformed => .badYaml path
      | fault => .yaml fault
  | none => .error (.unsupported path)

def isTwo : Value → Bool
  | .str s => s = "2.0"
  | _ => false

/-- The entry that names the version of the current format, if it is not empty. -/
def openapi? (data : Value) : Option Value :=
  (data.get? "openapi").filter Value.isTruthy

/-- The version that a value declares as a description of an API, if it does. -/
def versionOf (data : Value) : Except Failure (Option Text) :=
  match openapi? data with
  | some v =>
    if v.hasLongNumeral then .error (.number .tooLarge) else .ok (some v.text)
  | none => .ok (if (data.get? "swagger").any isTwo then some "2.0" else none)

/-- Whether a document is in the older format. -/
def isLegacy (d : Document) : Bool :=
  (openapi? d.data).isNone

/-- The text of a file, with plain newlines. -/
def readText (disk : Disk) (path : Path) : Except Failure Text :=
  match Failure.ofFile disk.read path with
  | .error failure => .error failure
  | .ok bytes =>
    match Text.Utf8.decode bytes with
    | .error fault => .error (.undecodable fault)
    | .ok cs => .ok (Text.ofChars (Text.plainNewlines cs))

/-- A text as it is read: without a byte order mark and without tabs. -/
def prepare (t : Text) : Text :=
  expandTabs (stripMark t)

/-- The document in a file. -/
def load (disk : Disk) (path : Path) : Except Failure Document := do
  let contents := prepare (← readText disk path)
  let data ← parse contents path
  match ← versionOf data with
  | none => .error (.noDescriptor path)
  | some version => return { path, contents, data, version }

end Document

end ApiLint
