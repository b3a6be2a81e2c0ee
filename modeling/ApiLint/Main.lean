import ApiLint.Command

/-! The command line. The files that are named are read beforehand, and with them the
configuration files from the current directory upwards; where a pattern or nothing is named, the
names of the files to choose from come from the standard input, one on each line. Other programs
are not started from here. -/
namespace ApiLint.Command

def variableNames : List String :=
  ["PVA_CONFIG", "PVA_SPECTRAL_BIN", "PVA_SPECTRAL_TIMEOUT", "CI"]

partial def readLines (found : List Text) : IO (List Text) := do
  let line ← (← IO.getStdin).getLine
  if line.isEmpty then return found
  else readLines (found ++ Text.lines line)

/-- The tree with a file more, if it can be read. -/
def addFile (disk : Disk) (path : Path) : IO Disk := do
  try
    let bytes ← IO.FS.readBinFile path.text.string
    return disk.write path bytes.toList
  catch _ => return disk

/-- Whether some names must be chosen from others. -/
def needsNames (arguments : Arguments) : Bool :=
  arguments.files.isEmpty || arguments.files.any Glob.isPattern

/-- What the command finds around it when it is called. -/
def lookAround (arguments : Arguments) : IO Surroundings := do
  let current := Path.ofText (← IO.currentDir).toString
  let environment ← variableNames.filterMapM fun name => do
    return (← IO.getEnv name).map fun value => (name, Text.ofString value)
  let names ← if needsNames arguments then readLines [] else pure []
  let named := (names ++ arguments.files).map Path.ofText
  let chosen := (arguments.config.map Path.ofText).or (Environment.configFile? environment)
  let configs := chosen.toList ++ Config.searched current
  let empty : Disk := { root := .directory [], current }
  let disk ← (configs ++ named).foldlM addFile empty
  return {
    environment, disk
    listing := .answered 0 (Text.joined "\n" names)
    validator := fun _ => { errors := [] }
    program := fun _ _ => .missing
    scratch := { unique := "run", rulesetFile := current.child ".spectral.json" } }

/-- A text as the stream of errors takes it: what is no character is escaped by its code. -/
def escaped (t : Text) : Text :=
  t.flatMap fun c => if Text.isChar c then [c] else Text.ofChars (Text.codeEscape c.code)

/-- Writes what a command wrote, and ends with its exit code. The stream of the output takes
characters only. -/
def finish (e : Exit) : IO UInt32 := do
  IO.eprint (escaped e.errors).string
  match Text.unwritable? e.output with
  | some fault =>
    IO.eprint (Failure.unwritable fault).message.string
    return 1
  | none =>
    IO.print e.output.string
    return e.code.toUInt32

/-- Reads the words of a call, looks around, and does what is asked for. -/
def start (words : List String) : IO UInt32 := do
  match Arguments.read (words.map Text.ofString) with
  | .error fault => finish (refuse fault.message)
  | .ok arguments =>
    match answer (← lookAround arguments) arguments with
    | .ok e => finish e
    | .error failure => finish (refuse failure.message)

end ApiLint.Command

def main (words : List String) : IO UInt32 :=
  ApiLint.Command.start words
