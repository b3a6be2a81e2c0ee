import ApiLint.Path

/-! Files and directories. A name is looked up part by part from the root, through directories
only; two dots lead back to the directory that the one before was found in. A name and each of its
parts may have only so many bytes. -/
namespace ApiLint

/-- A file with its bytes, or a directory. -/
inductive Tree
  | file (content : List UInt8)
  | directory (entries : List (Text × Tree))
  deriving Inhabited, Repr

/-- Why a file cannot be had. -/
inductive FileFault
  | missing
  | isDirectory
  | notDirectory
  | denied
  | nameTooLong
  /-- The name holds a zero. -/
  | nullByte
  /-- The name has no bytes. -/
  | unnamable (fault : Text.Unencodable)
  deriving DecidableEq, Repr

/-- The number that the system gives a fault, and its words for it. The system does not hear of a
name that is no row of bytes without a zero. -/
def FileFault.description? : FileFault → Option String
  | missing => some "[Errno 2] No such file or directory"
  | isDirectory => some "[Errno 21] Is a directory"
  | notDirectory => some "[Errno 20] Not a directory"
  | denied => some "[Errno 13] Permission denied"
  | nameTooLong => some "[Errno 36] File name too long"
  | nullByte | unnamable _ => none

/-- A fault; one of the system together with the name of the file. -/
def FileFault.message (name : Text) (fault : FileFault) : Text :=
  match fault.description?, fault with
  | some description, _ => description ++ ": " ++ Text.quoted name
  | none, unnamable fault => fault.message
  | none, _ => "embedded null byte"

/-- Why the system does not hear of a name. -/
def FileFault.ofName? (name : Text) : Option FileFault :=
  match Text.unnamable? name with
  | some fault => some (.unnamable fault)
  | none => if name.contains (.char '\x00') then some .nullByte else none

/-- The most bytes that a part of a name may have. -/
def partLimit : Nat := 255

/-- From how many bytes on a name is too long. -/
def nameLimit : Nat := 4096

namespace Tree

def entries : Tree → List (Text × Tree)
  | directory es => es
  | file _ => []

def isDirectory : Tree → Bool
  | directory _ => true
  | file _ => false

def get? (t : Tree) (name : Text) : Option Tree :=
  t.entries.lookup name

/-- What a row of parts leads to from a directory; `above` are the directories around it, the
nearest one first. -/
def walk (above : List Tree) (here : Tree) : List Text → Except FileFault Tree
  | [] => .ok here
  | part :: parts =>
    match here with
    | file _ => .error .notDirectory
    | directory es =>
      if part = ".." then
        match above with
        | [] => walk [] here parts
        | outer :: above => walk above outer parts
      else if partLimit < (Text.bytes part).length then .error .nameTooLong
      else
        match es.lookup part with
        | none => .error .missing
        | some t => walk (here :: above) t parts

/-- The directory entries with what stands under a name changed; a name that is new comes last. -/
def putEntry (name : Text) (t : Tree) : List (Text × Tree) → List (Text × Tree)
  | [] => [(name, t)]
  | (n, u) :: es => if n = name then (n, t) :: es else (n, u) :: putEntry name t es

/-- The tree with a file put at the end of a row of parts; directories on the way come into
being. -/
def add (content : List UInt8) : List Text → Tree → Tree
  | [], _ => file content
  | part :: parts, t =>
    directory (putEntry part (add content parts ((t.get? part).getD (directory []))) t.entries)

/-- The tree without what stands at the end of a row of parts. -/
def remove : List Text → Tree → Tree
  | [], t => t
  | [part], t => directory (t.entries.filter (·.1 ≠ part))
  | part :: parts, t =>
    match t.get? part with
    | none => t
    | some u => directory (putEntry part (remove parts u) t.entries)

mutual

/-- The names of all files below a directory, as rows of parts. -/
def files : Tree → List (List Text)
  | file _ => [[]]
  | directory es => filesIn es
termination_by structural t => t

def filesIn : List (Text × Tree) → List (List Text)
  | [] => []
  | (name, t) :: es => t.files.map (name :: ·) ++ filesIn es

end

end Tree

/-- A file system and the directory that relative names start from. -/
structure Disk where
  root : Tree
  current : Path

namespace Disk

/-- The row of parts that a name stands for from the root. -/
def fullParts (d : Disk) (p : Path) : List Text :=
  (d.current.join p).parts

/-- What a name leads to. -/
def find (d : Disk) (p : Path) : Except FileFault Tree :=
  match FileFault.ofName? p.text with
  | some fault => .error fault
  | none =>
    if nameLimit ≤ (Text.bytes p.text).length then .error .nameTooLong
    else Tree.walk [] d.root (d.fullParts p)

def read (d : Disk) (p : Path) : Except FileFault (List UInt8) :=
  match d.find p with
  | .ok (.file content) => .ok content
  | .ok (.directory _) => .error .isDirectory
  | .error fault => .error fault

/-- Whether a name leads to a file. A name that is too long is a fault, and any other that leads
nowhere is none of a file. -/
def isFile (d : Disk) (p : Path) : Except FileFault Bool :=
  match d.find p with
  | .ok (.file _) => .ok true
  | .error .nameTooLong => .error .nameTooLong
  | _ => .ok false

def isDirectory (d : Disk) (p : Path) : Bool :=
  match d.find p with
  | .ok t => t.isDirectory
  | .error _ => false

def write (d : Disk) (p : Path) (content : List UInt8) : Disk :=
  { d with root := d.root.add content (d.fullParts p) }

def delete (d : Disk) (p : Path) : Disk :=
  { d with root := d.root.remove (d.fullParts p) }

/-- The absolute name of what a name means. -/
def resolve (d : Disk) (p : Path) : Path :=
  Path.resolve d.current p

/-- The absolute name of what a name means, if the system knows its parts as names. -/
def canonical (d : Disk) (p : Path) : Except FileFault Path :=
  match p.parts.findSome? FileFault.ofName? with
  | some fault => .error fault
  | none => .ok (d.resolve p)

end Disk

end ApiLint
