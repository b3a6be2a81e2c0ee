import ApiLint.Failure
import ApiLint.Glob
import ApiLint.Text.Blank
import ApiLint.Text.Order

/-! The files of a run. Named files are kept as they are, and patterns are expanded; without either
all YAML and JSON files below a directory are taken, those that version control lists where it is
in use, and otherwise those outside of directories that hold the work of others. -/
namespace ApiLint.Targets

def suffixes : List Text := [".yaml", ".yml", ".json"]

/-- The directories that are not searched. -/
def ignoredDirectories : List Text :=
  [".venv", "venv", "node_modules", "__pycache__", ".git", "dist", "build", ".tox", ".nox",
   ".mypy_cache", ".pytest_cache", ".ruff_cache", "site-packages"]

/-- The answer of version control when it is asked for its files. -/
inductive Listing
  /-- It answered with an exit code and a text. -/
  | answered (code : Int) (output : Text)
  /-- It could not be asked. -/
  | unavailable
  deriving DecidableEq, Repr

/-- The files that version control lists, a line for each, if it is in use. -/
def Listing.files? : Listing → Option (List Text)
  | answered code output => if code = 0 then some ((Text.lines output).filter (· ≠ [])) else none
  | unavailable => none

/-- The names of the files among the entries of a directory, each as a row of one part. -/
def filesHere (es : List (Text × Tree)) : List (List Text) :=
  es.filterMap fun (name, t) => if t.isDirectory then none else some [name]

/-- Whether a directory is passed over: an ignored one, and one whose whole name is too long for the
system to list it. `front` is the name of the directory around it, with a slash at its end. -/
def isPassedOver (front name : Text) : Bool :=
  ignoredDirectories.contains name || nameLimit ≤ (Text.bytes (front ++ name)).length

mutual

/-- The files in and below a directory, with the parts of their names. Those in the directory come before
those further below. -/
def within (front : Text) : Tree → List (List Text)
  | .file _ => []
  | .directory es => filesHere es ++ below front es
termination_by structural t => t

def below (front : Text) : List (Text × Tree) → List (List Text)
  | [] => []
  | (name, t) :: es =>
    let there := if isPassedOver front name then [] else within (front ++ name ++ "/") t
    there.map (name :: ·) ++ below front es

end

/-- The name of a directory, with a slash at its end. -/
def front (directory : Path) : Text :=
  if directory.text.getLast? = some (.char '/') then directory.text else directory.text ++ "/"

/-- The files in and below a directory of a name, except in directories that are passed over. -/
def searched (directory : Path) (t : Tree) : List (List Text) :=
  within (front directory) t

/-- Whether a name is that of a file that can be linted. -/
def isLintable (disk : Disk) (root : Path) (name : Text) : Except Failure Bool :=
  let path := Path.ofText name
  if suffixes.contains path.suffix then Failure.ofFile disk.isFile (root.join path)
  else .ok false

/-- The names of the files below a directory that is searched. What the system does not know has
none. -/
def candidates (disk : Disk) (root : Path) : Except Failure (List Text) :=
  match disk.find root with
  | .ok t => .ok ((searched root t).map (Text.joined "/"))
  | .error fault => if fault.description?.isSome then .ok [] else .error (.file fault root.text)

/-- The files that can be linted below a directory, in order. -/
def discover (disk : Disk) (listing : Listing) (root : Path) : Except Failure (List Text) := do
  let names ←
    match listing.files? with
    | some files => pure files
    | none => candidates disk root
  return Text.sorted (← names.filterM (isLintable disk root))

/-- The files that an argument stands for: itself, or the files that a pattern finds, in order. -/
def ofArgument (edition : Glob.Edition) (disk : Disk) (argument : Text) :
    Except Failure (List Text) := do
  if Glob.isPattern argument then
    let names ← (Glob.expand edition disk argument).mapError fun fault => .file fault argument
    let files ← names.filterM fun name => Failure.ofFile disk.isFile (.ofText name)
    return Text.sorted files
  else return [argument]

/-- The files that arguments stand for, each once. -/
def expand (disk : Disk) (arguments : List Text) (edition : Glob.Edition := .lenient) :
    Except Failure (List Text) := do
  return Text.unique (← arguments.mapM (ofArgument edition disk)).flatten

end ApiLint.Targets
