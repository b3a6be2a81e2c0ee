import ApiLint.Config.Basic
import ApiLint.Config.Grammar
import ApiLint.Document
import ApiLint.Environment
import ApiLint.Toml.Reader

/-! Configuration files. A file that is named is the configuration; without one the nearest
directory upwards that has a candidate decides. What the file says is checked and laid over the
defaults. A file that was named and cannot be read is an invalid configuration; one that was only
found is as if it were not there. -/
namespace ApiLint.Config

/-- The candidates in a directory, the first one that counts first. -/
def candidates : List Text :=
  ["package.json", ".pvarc", ".pvarc.json", ".pvarc.yaml", ".pvarc.yml", ".pvarc.toml",
   "pva.config.json", "pva.config.yaml", "pyproject.toml"]

/-- The key of the section that is ours in a file that belongs to others. -/
def sectionKey : Value := .str "pva"

def readJson (disk : Disk) (path : Path) : Except Failure Value := do
  (Json.read (← Document.readText disk path)).mapError Failure.ofJson

/-- The value of a file that holds YAML, of which JSON is a part. -/
def readYaml (disk : Disk) (path : Path) : Except Failure Value := do
  (Yaml.readFrom 0 (.ofBytes (← Failure.ofFile disk.read path))).mapError .yaml

def readToml (disk : Disk) (path : Path) : Except Failure Value := do
  match Text.Utf8.decode (← Failure.ofFile disk.read path) with
  | .error fault => throw (.undecodable fault)
  | .ok cs => (Toml.read cs).mapError .toml

/-- The value of a file without any other name than that of its format; nothing counts as an empty
mapping. -/
def wholeFile (v : Value) : Option Value :=
  match v with
  | .null => some (.map [])
  | v => some v

def sectionOf (v key : Value) : Except Failure (Option Value) :=
  match v.lookup key with
  | .ok found => .ok (found.filter fun v => !v.same .null)
  | .error misuse => .error (.misuse misuse)

/-- The configuration in a file, if the file has a section for one. Its name tells the format, and
in which of the files of others the section is. -/
def ofFile (disk : Disk) (path : Path) : Except Failure (Option Value) := do
  if path.name = "package.json" then
    match ← readJson disk path with
    | .map entries => sectionOf (.map entries) sectionKey
    | _ => return none
  else if path.name = "pyproject.toml" then
    let table ← readToml disk path
    sectionOf ((table.get? "tool").getD (.map [])) sectionKey
  else if path.suffix = ".toml" then return some (← readToml disk path)
  else if path.suffix = ".json" then return wholeFile (← readJson disk path)
  else return wholeFile (← readYaml disk path)

/-- The first of some files that is there and has a configuration. -/
def firstOf (disk : Disk) : List Path → Except Failure (Option (Path × Value))
  | [] => .ok none
  | path :: paths => do
    if ← Failure.ofFile disk.isFile path then
      match ← ofFile disk path with
      | none => firstOf disk paths
      | some v => return some (path, v)
    else firstOf disk paths

/-- A directory and those around it, the nearest one first. -/
def upwards (directory : Path) : List Path :=
  (List.range (directory.parts.length + 1)).reverse.map fun n =>
    { directory with parts := directory.parts.take n }

/-- The files that are looked for from a directory on, in their order. -/
def searched (directory : Path) : List Path :=
  (upwards directory).flatMap fun d => candidates.map d.child

/-- The nearest configuration, from a directory upwards. -/
def discover (disk : Disk) (start : Option Path) : Except Failure (Option (Path × Value)) := do
  firstOf disk (searched (← Failure.ofFile disk.canonical (start.getD ⟨0, []⟩)))

/-- Whether a failure says that a file cannot be read as what it should be. -/
def isUnreadable : Failure → Bool
  | .file fault _ => fault.description?.isSome
  | .json _ | .yaml .malformed | .toml .malformed => true
  | _ => false

/-- What a file that was named says; nothing that says anything counts as an empty mapping. -/
def readExplicit (disk : Disk) (path : Path) : Except Failure Value :=
  match ofFile disk path with
  | .ok found => .ok ((found.filter Value.isTruthy).getD (.map []))
  | .error e =>
    if isUnreadable e then
      .error (.invalidConfig ["Could not read " ++ path.text ++ ": " ++ e.message])
    else .error e

/-- What the nearest configuration says, and its file. -/
def readDiscovered (disk : Disk) (start : Option Path) :
    Except Failure (Option Path × Value) :=
  match discover disk start with
  | .ok none => .ok (none, .map [])
  | .ok (some (path, v)) => .ok (some path, if v.isTruthy then v else .map [])
  | .error e => if isUnreadable e then .ok (none, .map []) else .error e

/-- The configuration in which the rules that a value gives are laid over the defaults. The value
must keep to the grammar. -/
def ofOverride (source : Option Path) (v : Value) : Except Failure Config := do
  match ← complaints v with
  | [] => ofValue (← (overlayAny defaults v).mapError .misuse) source
  | problems => throw (.invalidConfig problems)

/-- The configuration for a run: from the file that is asked for, from the one that the environment
names, or from the nearest one. -/
def load (env : Environment) (disk : Disk) (explicit start : Option Path) :
    Except Failure Config :=
  match explicit.or env.configFile? with
  | some path => do ofOverride (some path) (← readExplicit disk path)
  | none => do
    let (source, v) ← readDiscovered disk start
    ofOverride source v

end ApiLint.Config
