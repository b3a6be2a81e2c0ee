import ApiLint.Glob.Pattern
import ApiLint.Tree

/-! Patterns for names of files. Each part between slashes is matched in the directories that the
parts before it lead to; two stars as a part of their own lead to a directory and all below it.
Hidden names are met only by patterns that start with a dot themselves. -/
namespace ApiLint.Glob

def isPattern (t : Text) : Bool :=
  t.any fun c => c = .char '*' || c = .char '?' || c = .char '['

def isHidden (name : Text) : Bool :=
  name.head? = some (.char '.')

/-- The part that stands for a directory and all below it. -/
def everywhere : Text := "**"

def isSlash (c : CodePoint) : Bool :=
  c = .char '/'

/-- A name in two: the directory part, without slashes at its end unless it has nothing else, and
the part after the last slash. -/
def splitLast (t : Text) : Text × Text :=
  let base := (t.reverse.takeWhile (!isSlash ·)).reverse
  let head := t.take (t.length - base.length)
  let trimmed := (head.reverse.dropWhile isSlash).reverse
  (if trimmed.isEmpty then head else trimmed, base)

def joined (directory name : Text) : Text :=
  if directory.isEmpty || directory.getLast?.any isSlash then directory ++ name
  else directory ++ "/" ++ name

/-- A name that is looked at: an empty directory or an empty name adds nothing. -/
def lookedAt (directory name : Text) : Text :=
  if directory.isEmpty || name.isEmpty then directory ++ name else joined directory name

/-- Whether a name, as it is written, goes on into what its parts lead to: it ends in a slash or in a
dot of its own. -/
def goesInside (name : Text) : Bool :=
  match (Text.pieces (.char '/') name).getLast? with
  | some part => part.isEmpty || part = "."
  | none => false

/-- What a name leads to as it is written. An empty name leads nowhere, and one that goes on inside
leads to directories only. -/
def find (disk : Disk) (name : Text) : Except FileFault Tree := do
  let t ← disk.find (.ofText name)
  if name.isEmpty then .error .missing
  else if nameLimit ≤ (Text.bytes name).length then .error .nameTooLong
  else if goesInside name && !t.isDirectory then .error .notDirectory
  else return t

def leads (disk : Disk) (name : Text) : Bool :=
  (find disk name).toOption.isSome

def isDirectory (disk : Disk) (name : Text) : Bool :=
  (find disk name).toOption.any Tree.isDirectory

/-- What is in a directory, the current one if the name is empty; nothing if the system has no such
directory. -/
def listing (disk : Disk) (directory : Text) : Except FileFault Tree :=
  match find disk (if directory.isEmpty then "." else directory) with
  | .ok t => .ok t
  | .error fault => if fault.description?.isSome then .ok (.directory []) else .error fault

/-- The names in a directory, or only those of directories. -/
def names (directoriesOnly : Bool) (directory : Tree) : List Text :=
  (directory.entries.filter fun e => !directoriesOnly || e.2.isDirectory).map (·.1)

mutual

/-- All names below a directory that are not hidden, or only those of directories. The system does not
list a directory whose own name is too long. -/
def below (directoriesOnly : Bool) (directory : Text) : Tree → List Text
  | .file _ => []
  | .directory es =>
    if nameLimit ≤ (Text.bytes directory).length then []
    else belowEntries directoriesOnly directory es
termination_by structural t => t

/-- All names in and below the entries of a directory. -/
def belowEntries (directoriesOnly : Bool) (directory : Text) : List (Text × Tree) → List Text
  | [] => []
  | (name, t) :: es =>
    let here :=
      if isHidden name || (directoriesOnly && !t.isDirectory) then []
      else name :: (below directoriesOnly (lookedAt directory name) t).map (joined name)
    here ++ belowEntries directoriesOnly directory es

end

/-- How two stars as the last part treat the directory part itself. Editions of the library of
patterns differ in this, and in nothing else. -/
inductive Edition
  /-- They stand for it whatever it is, a file or nothing at all. -/
  | lenient
  /-- They stand for it only if it is a directory. -/
  | strict
  deriving DecidableEq, Repr

/-- Whether two stars stand for the directory part itself. -/
def Edition.admits (disk : Disk) (directory : Text) : Edition → Bool
  | lenient => true
  | strict => directory.isEmpty || isDirectory disk directory

/-- The names in a directory that the last part of a pattern stands for; an empty part stands for
the directory itself. -/
def matchesIn (edition : Edition) (disk : Disk) (directoriesOnly : Bool) (directory part : Text) :
    Except FileFault (List Text) :=
  if part = everywhere then
    (listing disk directory).map fun t =>
      (if edition.admits disk directory then [[]] else []) ++ below directoriesOnly directory t
  else if isPattern part then
    (listing disk directory).map fun t =>
      (names directoriesOnly t).filter fun name =>
        (isHidden part || !isHidden name) && isMatch part name
  else if part.isEmpty then .ok (if isDirectory disk directory then [[]] else [])
  else .ok (if leads disk (lookedAt directory part) then [part] else [])

/-- The names that a pattern stands for, or only those of directories. -/
def expandFrom (edition : Edition) (disk : Disk) :
    (fuel : Nat) → (directoriesOnly : Bool) → Text → Except FileFault (List Text)
  | 0, _, _ => .ok []
  | fuel + 1, directoriesOnly, pattern => do
    let (directory, part) := splitLast pattern
    if !isPattern pattern then
      let found := if part.isEmpty then isDirectory disk directory else leads disk pattern
      return if found then [pattern] else []
    else if directory.isEmpty then matchesIn edition disk directoriesOnly [] part
    else
      let directories ←
        if isPattern directory then expandFrom edition disk fuel true directory
        else pure [directory]
      let found ← directories.mapM fun d => do
        return (← matchesIn edition disk directoriesOnly d part).map (joined d)
      return found.flatten

/-- The names that a pattern stands for. -/
def expand (edition : Edition) (disk : Disk) (pattern : Text) : Except FileFault (List Text) :=
  expandFrom edition disk (pattern.length + 1) false pattern

end ApiLint.Glob
