import ApiLint.Yaml.Token.Property

/-! Block scalars: literal ones keep their line ends, folded ones join lines that start with
neither a blank. What is left of the line ends at the end depends on a sign in the header. -/
namespace ApiLint.Yaml

/-- What a block scalar does with the line ends after its last line. -/
inductive Chomping
  /-- Keep none. -/
  | strip
  /-- Keep the first. -/
  | clip
  /-- Keep all. -/
  | keep
  deriving DecidableEq, Repr

/-- The sign that sets the chomping. -/
def chomping? : Char → Option Chomping
  | '+' => some .keep
  | '-' => some .strip
  | _ => none

/-- A digit that sets the indentation; zero is not one. -/
def indentDigit? (c : Char) : Option Nat :=
  if '1' ≤ c ∧ c ≤ '9' then some (c.toNat - 0x30) else none

/-- The header of a block scalar: sign and digit in either order, both of which may be missing. -/
def scanHeader (c : Cursor) : Scanned (Chomping × Option Nat) :=
  let (sign, digit, c) :=
    match c.peek.bind chomping?, c.peek.bind indentDigit? with
    | some sign, _ =>
      match c.advance.peek.bind indentDigit? with
      | some d => (some sign, some d, c.advanceBy 2)
      | none => (some sign, none, c.advance)
    | none, some d =>
      match c.advance.peek.bind chomping? with
      | some sign => (some sign, some d, c.advanceBy 2)
      | none => (none, some d, c.advance)
    | none, none => (none, none, c)
  if endsWord c.peek then .ok ((sign.getD .clip, digit), c) else .error .malformed

/-- Blank lines in front of the text: their line ends, and the most columns that any of the lines
was indented by. -/
def leadingBreaks : (fuel : Nat) → (deepest : Nat) → Cursor → List Char × Nat × Cursor
  | 0, deepest, c => ([], deepest, c)
  | fuel + 1, deepest, c =>
    let c := c.skipSpaces
    let deepest := max deepest c.column
    if c.peek.any isBreak then
      let (ch, c) := c.lineBreak
      let (more, deepest, c) := leadingBreaks fuel deepest c
      (ch ++ more, deepest, c)
    else ([], deepest, c)

/-- The place after spaces, but at most up to a column. -/
def skipIndent (indent : Nat) (c : Cursor) : Cursor :=
  c.advanceBy (min (indent - c.column) (c.rest.takeWhile (· = ' ')).length)

/-- Line ends of lines that hold no more than their indentation. -/
def blockBreaks (indent : Nat) : (fuel : Nat) → Cursor → List Char × Cursor
  | 0, c => ([], c)
  | fuel + 1, c =>
    let c := skipIndent indent c
    if c.peek.any isBreak then
      let (ch, c) := c.lineBreak
      let (more, c) := blockBreaks indent fuel c
      (ch ++ more, c)
    else ([], c)

/-- The lines of a block scalar: its text up to the end of the last line, the end of that line, the
line ends after it, and the place behind. `before` are the line ends in front of the next line. -/
structure BlockLines where
  text : List Char
  lastBreak : List Char
  trailing : List Char
  after : Cursor

/-- The lines of a block scalar from the next one on. -/
def blockLines (folded : Bool) (indent : Nat) :
    (fuel : Nat) → (before : List Char) → Cursor → BlockLines
  | 0, before, c => ⟨[], [], before, c⟩
  | fuel + 1, before, c =>
    if c.column = indent && !c.rest.isEmpty then
      let outstanding := c.peek.any isBlank
      let (line, c) := c.takeWhile (!isBreak ·)
      let (ch, c) := c.lineBreak
      let (breaks, c) := blockBreaks indent fuel c
      if c.column = indent && !c.rest.isEmpty then
        let joint :=
          if folded && ch = ['\n'] && !outstanding && !c.peek.any isBlank then
            if breaks.isEmpty then [' '] else []
          else ch
        let more := blockLines folded indent fuel breaks c
        { more with text := before ++ line ++ joint ++ more.text }
      else ⟨before ++ line, ch, breaks, c⟩
    else ⟨[], [], before, c⟩

/-- A block scalar, from the sign in front of its header on, in a collection that is indented by
`parent` columns. -/
def scanBlock (parent : Int) (c : Cursor) : Except Fault (Text × Cursor) := do
  let folded := c.peek = some '>'
  let ((chomping, digit), c) ← scanHeader c.advance
  let c ← endLine c
  let least := (max 1 (parent + 1)).toNat
  let fuel := c.steps
  let (indent, before, c) :=
    match digit with
    | some d =>
      let indent := least + d - 1
      let (before, c) := blockBreaks indent fuel c
      (indent, before, c)
    | none =>
      let (before, deepest, c) := leadingBreaks fuel 0 c
      (max least deepest, before, c)
  let lines := blockLines folded indent fuel before c
  let ending :=
    match chomping with
    | .strip => []
    | .clip => lines.lastBreak
    | .keep => lines.lastBreak ++ lines.trailing
  return (Text.ofChars (lines.text ++ ending), lines.after)

end ApiLint.Yaml
