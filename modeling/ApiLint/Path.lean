import ApiLint.Text.Hex
import ApiLint.Text.Pieces
import ApiLint.Text.Name

/-! Names of files. A name is kept without what says nothing: empty parts and single dots. Two dots
stay, since they mean something only where the name is looked up. -/
namespace ApiLint

/-- The name of a file or a directory: the slashes in front (none for a relative name) and the parts
between slashes. -/
structure Path where
  slashes : Nat := 0
  parts : List Text := []
  deriving DecidableEq, Repr, Inhabited

namespace Path

/-- The slashes that a name keeps in front: exactly two, or one for any other number. -/
def leadingSlashes (t : Text) : Nat :=
  let count := (t.takeWhile (· = .char '/')).length
  if count = 0 ∨ count = 2 then count else 1

/-- The name that a text is. -/
def ofText (t : Text) : Path where
  slashes := leadingSlashes t
  parts := (Text.pieces (.char '/') t).filter fun p => p ≠ [] && p ≠ "."

def isAbsolute (p : Path) : Bool :=
  0 < p.slashes

def text (p : Path) : Text :=
  if p.slashes = 0 ∧ p.parts = [] then "."
  else List.replicate p.slashes (.char '/') ++ Text.joined "/" p.parts

/-- A name inside a directory; one that starts at the root stands for itself. -/
def join (p q : Path) : Path :=
  if q.isAbsolute then q else { p with parts := p.parts ++ q.parts }

/-- A part more. -/
def child (p : Path) (part : Text) : Path :=
  { p with parts := p.parts ++ [part] }

def name (p : Path) : Text :=
  p.parts.getLast?.getD []

def parent (p : Path) : Path :=
  { p with parts := p.parts.dropLast }

/-- The last part in two: up to its last dot, and from there on. A dot at either end parts
nothing. -/
def splitName (p : Path) : Text × Text :=
  let extension := (p.name.reverse.takeWhile (· ≠ .char '.')).reverse
  let stem := (p.name.take (p.name.length - extension.length)).dropLast
  if p.name.contains (.char '.') && !stem.isEmpty && !extension.isEmpty then
    (stem, .char '.' :: extension)
  else (p.name, [])

/-- The end of a name from its last dot on. -/
def suffix (p : Path) : Text :=
  p.splitName.2

/-- The last part of a name without its suffix. -/
def stem (p : Path) : Text :=
  p.splitName.1

/-- Parts with every pair of dots taken back together with the part before it. -/
def collapse (parts : List Text) : List Text :=
  (parts.foldl (fun (done : List Text) (part : Text) =>
    if part = ".." then done.tail else part :: done) []).reverse

/-- The absolute name of what a name means in a directory. -/
def resolve (directory p : Path) : Path :=
  { slashes := 1, parts := collapse (directory.join p).parts }

/-- Whether a byte stands for itself in a file address. -/
def isAddressByte (b : UInt8) : Bool :=
  let c := Char.ofNat b.toNat
  c.isAlphanum || c = '/' || c = '_' || c = '.' || c = '-' || c = '~'

/-- A byte in a file address: as it is, or as two upper case digits behind a percent sign. -/
def addressByte (b : UInt8) : List Char :=
  if isAddressByte b then [Char.ofNat b.toNat]
  else '%' :: (Text.hexDigits 2 b.toNat).map Char.toUpper

/-- The address of a file. -/
def address (p : Path) : Text :=
  "file://" ++ Text.ofChars ((Text.bytes p.text).flatMap addressByte)

end Path

end ApiLint
