import ApiLint.Text

/-! Patterns for names. A star stands for any characters, a question mark for one, and brackets for
one out of a set that may hold ranges; all else stands for itself, also a bracket that is never
closed. -/
namespace ApiLint.Glob

/-- Some code points that follow each other: the first and the last. -/
abbrev Range := CodePoint × CodePoint

/-- A piece of a pattern. -/
inductive Piece
  | char (c : CodePoint)
  | one
  | many
  /-- One character inside, or outside, of some ranges. -/
  | oneOf (outside : Bool) (ranges : List Range)
  deriving DecidableEq, Repr

/-- The ranges between brackets: two characters with a hyphen between them, or single
characters. -/
def ranges : Text → List Range
  | a :: .char '-' :: b :: rest => (a, b) :: ranges rest
  | a :: rest => (a, a) :: ranges rest
  | [] => []

def isClosing (c : CodePoint) : Bool :=
  c = .char ']'

/-- What stands between brackets and what follows them, from behind the opening one on. A closing
bracket in front stands for itself. -/
def spanSet (t : Text) : Option (Text × Text) :=
  let first := (t.take 1).takeWhile isClosing
  let rest := t.drop first.length
  match rest.dropWhile (!isClosing ·) with
  | _ :: after => some (first ++ rest.takeWhile (!isClosing ·), after)
  | [] => none

/-- A set, from behind its opening bracket on, and what follows it. An exclamation mark in front
turns it around. -/
def readSet (t : Text) : Option (Piece × Text) :=
  match t with
  | .char '!' :: rest =>
    (spanSet rest).map fun (set, after) => (.oneOf true (ranges set), after)
  | t => (spanSet t).map fun (set, after) => (.oneOf false (ranges set), after)

/-- The pieces of a pattern. -/
def pieces : (fuel : Nat) → Text → List Piece
  | 0, _ => []
  | _ + 1, [] => []
  | fuel + 1, c :: rest =>
    if c = .char '*' then .many :: pieces fuel (rest.dropWhile (· = .char '*'))
    else if c = .char '?' then .one :: pieces fuel rest
    else if c = .char '[' then
      match readSet rest with
      | some (set, after) => set :: pieces fuel after
      | none => .char c :: pieces fuel rest
    else .char c :: pieces fuel rest

/-- Whether a piece that stands for one character stands for this one. -/
def Piece.allows (c : CodePoint) : Piece → Bool
  | .char d => c = d
  | .one | .many => true
  | .oneOf outside ranges =>
    (ranges.any fun r => r.1.code ≤ c.code && c.code ≤ r.2.code) != outside

/-- Whether a rest of a name can be split so that something is left that a test accepts. -/
def anyRest (test : Text → Bool) : Text → Bool
  | [] => test []
  | c :: t => test (c :: t) || anyRest test t

/-- Whether pieces stand for the whole of a name. -/
def fits : List Piece → Text → Bool
  | [], t => t.isEmpty
  | .many :: ps, t => anyRest (fits ps) t
  | p :: ps, c :: t => p.allows c && fits ps t
  | _ :: _, [] => false

def isMatch (pattern name : Text) : Bool :=
  fits (pieces (pattern.length + 1) pattern) name

end ApiLint.Glob
