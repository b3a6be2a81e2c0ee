import ApiLint.Yaml.Fault

/-! A place in a text. A place counts the characters, lines and columns before it; line ends are
the two of ASCII, alone or together, the next-line control, and the two separators of Unicode. -/
namespace ApiLint.Yaml

/-- Whether a character ends a line. -/
def isBreak (c : Char) : Bool :=
  c = '\n' || c = '\r' || c = '\u0085' || c = '\u2028' || c = '\u2029'

def isBlank (c : Char) : Bool :=
  c = ' ' || c = '\t'

/-- Whether a line ends in front of this character, or the text. -/
def endsLine (c : Option Char) : Bool :=
  c.all isBreak

/-- Whether a word ends in front of this character when only spaces part words. -/
def endsWord (c : Option Char) : Bool :=
  c.all fun c => c = ' ' || isBreak c

/-- Whether a token ends in front of this character: at a blank, a line end or the end. -/
def endsToken (c : Option Char) : Bool :=
  c.all fun c => isBlank c || isBreak c

/-- Where something starts: its line and how many characters come before it. -/
structure Mark where
  line : Nat
  index : Nat
  deriving DecidableEq, Repr, Inhabited

/-- A place in a text: what is left, and how much was passed. A text that cannot be read to its end
has a fault behind what is left. -/
structure Cursor where
  rest : List Char
  /-- How many characters the text has. -/
  size : Nat
  index : Nat := 0
  line : Nat := 0
  column : Nat := 0
  stop : Option Fault := none

namespace Cursor

def mark (c : Cursor) : Mark :=
  ⟨c.line, c.index⟩

/-- The fault of what does not end before the text does. -/
def unfinished (c : Cursor) : Fault :=
  c.stop.getD .malformed

/-- More steps than a walk over what is left can have. -/
def steps (c : Cursor) : Nat :=
  c.size + 1

/-- Whether the text cannot be read on from here. -/
def isStuck (c : Cursor) : Bool :=
  c.rest.isEmpty && c.stop.isSome

def peek (c : Cursor) : Option Char :=
  c.rest.head?

/-- The character after `n` further ones. -/
def peekAt (c : Cursor) (n : Nat) : Option Char :=
  c.rest[n]?

/-- The place after the next character. A byte order mark takes up no column, and a carriage return
leaves the end of its line to the newline after it. -/
def advance (c : Cursor) : Cursor :=
  match c.rest with
  | [] => c
  | ch :: rest =>
    if isBreak ch && !(ch = '\r' && rest.head? = some '\n') then
      { c with rest, index := c.index + 1, line := c.line + 1, column := 0 }
    else
      { c with
        rest, index := c.index + 1, column := if ch = '\uFEFF' then c.column else c.column + 1 }

/-- The place after the next `n` characters. -/
def advanceBy : Nat → Cursor → Cursor
  | 0, c => c
  | n + 1, c => advanceBy n c.advance

/-- The next characters that are of a kind, and the place after them. -/
def takeWhile (p : Char → Bool) (c : Cursor) : List Char × Cursor :=
  let cs := c.rest.takeWhile p
  (cs, c.advanceBy cs.length)

/-- The place after the next characters that are of a kind. -/
def skipWhile (p : Char → Bool) (c : Cursor) : Cursor :=
  (c.takeWhile p).2

def skipSpaces (c : Cursor) : Cursor :=
  c.skipWhile (· = ' ')

/-- A line end as it counts in a scalar, and the place after it: the separators of Unicode stay,
every other line end is a newline. -/
def lineBreak (c : Cursor) : List Char × Cursor :=
  match c.rest with
  | '\r' :: '\n' :: _ => (['\n'], c.advanceBy 2)
  | ch :: _ =>
    if ch = '\u2028' ∨ ch = '\u2029' then ([ch], c.advance)
    else if isBreak ch then (['\n'], c.advance)
    else ([], c)
  | [] => ([], c)

/-- Whether a document marker stands here: three times the same sign in front of a blank, a line
end or the end. -/
def atMarker (c : Cursor) : Bool :=
  match c.rest with
  | '-' :: '-' :: '-' :: rest | '.' :: '.' :: '.' :: rest => endsToken rest.head?
  | _ => false

end Cursor

/-- What was read, and the place after it. -/
abbrev Scanned (α : Type) := Except Fault (α × Cursor)

end ApiLint.Yaml
