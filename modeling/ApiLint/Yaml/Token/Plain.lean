import ApiLint.Yaml.Cursor

/-! Scalars without quotes. They end in front of a colon that a blank follows, in front of a
comment, and inside brackets also in front of a sign of the brackets; lines after the first must
be indented. -/
namespace ApiLint.Yaml

/-- The signs that end a plain scalar inside brackets. -/
def isFlowSign (c : Char) : Bool :=
  c = ',' || c = '?' || c = '[' || c = ']' || c = '{' || c = '}'

/-- Whether a colon in front of this character ends a plain scalar. -/
def endsKey (inFlow : Bool) (c : Option Char) : Bool :=
  endsToken c || (inFlow && c.any fun c => c = ',' || c = '[' || c = ']' || c = '{' || c = '}')

/-- The next characters of a plain scalar that stand on one line without a blank. -/
def plainWord (inFlow : Bool) : List Char → List Char
  | [] => []
  | c :: rest =>
    if isBlank c || isBreak c || (c = ':' && endsKey inFlow rest.head?) ||
        (inFlow && isFlowSign c) then []
    else c :: plainWord inFlow rest

/-- What parts two words of a plain scalar: blanks, or line ends. -/
structure PlainGap where
  /-- What the gap becomes in the text; nothing when the scalar ends here. -/
  text : List Char
  /-- Whether a line end was passed. -/
  passedLine : Bool
  after : Cursor

/-- Line ends after a first one, with spaces between them, up to a document marker: the line ends,
and whether there is no marker. -/
def plainBreaks : (fuel : Nat) → Cursor → List Char × Bool × Cursor
  | 0, c => ([], true, c)
  | fuel + 1, c =>
    if c.atMarker && c.column = 0 then ([], false, c)
    else
      let c := c.skipSpaces
      if c.peek.any isBreak then
        let (ch, c) := c.lineBreak
        let (more, goesOn, c) := plainBreaks fuel c
        (ch ++ more, goesOn, c)
      else ([], true, c)

/-- The gap after a word. -/
def plainGap (c : Cursor) : PlainGap :=
  let (spaces, c) := c.takeWhile (· = ' ')
  if c.peek.any isBreak then
    let (first, c) := c.lineBreak
    let (more, goesOn, c) := plainBreaks c.steps c
    let text :=
      if !goesOn then []
      else if first ≠ ['\n'] then first ++ more
      else if more.isEmpty then [' ']
      else more
    ⟨text, true, c⟩
  else ⟨spaces, false, c⟩

/-- A plain scalar: its text, whether a line end was passed behind its last word, and the place
after it. -/
structure Plain where
  text : List Char
  passedLine : Bool
  after : Cursor

/-- The words of a plain scalar from the next one on, with the gap in front of it. A scalar outside
of brackets goes on only on lines that are indented by at least `indent` columns. -/
def plainWords (inFlow : Bool) (indent : Int) :
    (fuel : Nat) → (gap : List Char) → (passedLine : Bool) → Cursor → Plain
  | 0, _, passedLine, c => ⟨[], passedLine, c⟩
  | fuel + 1, gap, passedLine, c =>
    let word := if c.peek = some '#' then [] else plainWord inFlow c.rest
    if word.isEmpty then ⟨[], passedLine, c⟩
    else
      let next := plainGap (c.advanceBy word.length)
      if next.text.isEmpty || next.after.peek = some '#' ||
          (!inFlow && (next.after.column : Int) < indent) then
        ⟨gap ++ word, next.passedLine, next.after⟩
      else
        let more := plainWords inFlow indent fuel next.text next.passedLine next.after
        { more with text := gap ++ word ++ more.text }

/-- A plain scalar in a collection that is indented by `parent` columns. -/
def scanPlain (inFlow : Bool) (parent : Int) (c : Cursor) : Plain :=
  plainWords inFlow (parent + 1) c.steps [] false c

end ApiLint.Yaml
