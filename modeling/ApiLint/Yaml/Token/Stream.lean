import ApiLint.Yaml.Source
import ApiLint.Yaml.Token.Block
import ApiLint.Yaml.Token.Plain
import ApiLint.Yaml.Token.Quoted

/-! The tokens of a whole text. A key needs no sign in front of it, so the start of every possible
key is remembered until a colon confirms it; the tokens that announce the key are then put in where
it began. A possible key is given up when its line ends or when it grows too long. -/
namespace ApiLint.Yaml

/-- The most characters that a key without a question mark may have. -/
def keyLimit : Nat := 1024

/-- The start of what may turn out to be a key. -/
structure KeyStart where
  /-- Whether nothing but a key may stand here. -/
  required : Bool
  /-- How many tokens come before it. -/
  position : Nat
  mark : Mark
  column : Nat

/-- How far the tokens of a text are read. -/
structure Progress where
  cursor : Cursor
  /-- The possible key of the innermost open collection. -/
  pending : Option KeyStart := none
  /-- The possible keys around the open brackets, the innermost one first. -/
  outer : List (Option KeyStart) := []
  /-- The column of the innermost block collection, and those of the ones around it. -/
  indent : Int := -1
  outerIndents : List Int := []
  /-- Whether a key without a question mark may start here. -/
  keyAllowed : Bool := true
  /-- The tokens read so far, the last one first, and their number. -/
  reversed : List Token := []
  count : Nat := 0

/-- What a step makes of the progress. -/
abbrev Advance := Except Fault Progress

namespace Progress

def inFlow (p : Progress) : Bool :=
  !p.outer.isEmpty

/-- The progress with a token more, which starts here. -/
def emit (kind : TokenKind) (p : Progress) : Progress :=
  { p with reversed := ⟨kind, p.cursor.mark⟩ :: p.reversed, count := p.count + 1 }

/-- The progress with a token more, which starts here and has `size` characters. -/
def emitSign (kind : TokenKind) (size : Nat) (p : Progress) : Progress :=
  { p.emit kind with cursor := p.cursor.advanceBy size }

/-- The progress with a token put in after the first `position` ones. -/
def insert (kind : TokenKind) (mark : Mark) (position : Nat) (p : Progress) : Progress :=
  let later := p.reversed.take (p.count - position)
  let earlier := p.reversed.drop (p.count - position)
  { p with reversed := later ++ ⟨kind, mark⟩ :: earlier, count := p.count + 1 }

/-- The place after blanks, comments and line ends. Outside of brackets a key may start on a new
line. -/
def skipGap : (fuel : Nat) → Progress → Progress
  | 0, p => p
  | fuel + 1, p =>
    let c := p.cursor.skipSpaces
    let c := if c.peek = some '#' then c.skipWhile (!isBreak ·) else c
    if c.peek.any isBreak then
      skipGap fuel { p with cursor := c.lineBreak.2, keyAllowed := p.keyAllowed || !p.inFlow }
    else { p with cursor := c }

/-- Whether what began as a key can no longer be one here. -/
def isStale (c : Cursor) (key : KeyStart) : Bool :=
  key.mark.line ≠ c.line || keyLimit < c.index - key.mark.index

/-- The progress without the keys that can no longer be keys; none of these may be required. -/
def dropStale (p : Progress) : Advance :=
  let stale := isStale p.cursor
  if (p.pending :: p.outer).any fun key => key.any fun k => stale k && k.required then
    .error .malformed
  else
    let keep (key : Option KeyStart) : Option KeyStart := key.filter fun k => !stale k
    .ok { p with pending := keep p.pending, outer := p.outer.map keep }

/-- The progress without the possible key of the innermost collection. -/
def dropKey (p : Progress) : Advance :=
  if p.pending.any (·.required) then .error .malformed else .ok { p with pending := none }

/-- The progress with a possible key that starts here, if one is allowed. -/
def saveKey (p : Progress) : Advance :=
  if p.keyAllowed then do
    let c := p.cursor
    let required := !p.inFlow && p.indent = c.column
    let p ← p.dropKey
    return { p with pending := some ⟨required, p.count, c.mark, c.column⟩ }
  else .ok p

/-- Closes the block collections that are indented by more than a column. -/
def closeBlocks (column : Int) : List Int → Progress → Progress
  | [], p => { p with indent := -1, outerIndents := [] }
  | outer :: rest, p =>
    if column < p.indent then
      closeBlocks column rest { p.emit .blockEnd with indent := outer }
    else { p with outerIndents := outer :: rest }

/-- Closes the block collections that end in front of a column; inside brackets none does. -/
def unwind (column : Int) (p : Progress) : Progress :=
  if p.inFlow then p else closeBlocks column p.outerIndents p

/-- Opens a block collection at a column, unless the innermost one stands there. -/
def openBlock (kind : TokenKind) (column : Int) (mark : Mark) (position : Nat) (p : Progress) :
    Progress :=
  if p.indent < column then
    { p.insert kind mark position with
      indent := column, outerIndents := p.indent :: p.outerIndents }
  else p

/-- Opens a block collection in front of a sign that stands here, outside of brackets. -/
def openBlockHere (kind : TokenKind) (p : Progress) : Advance :=
  if p.inFlow then .ok p
  else if !p.keyAllowed then .error .malformed
  else .ok (p.openBlock kind p.cursor.column p.cursor.mark p.count)

/-- A marker between documents, or the end of the text: all blocks end. -/
def endBlocks (p : Progress) : Advance := do
  let p ← (p.unwind (-1)).dropKey
  return { p with keyAllowed := false }

def openFlow (kind : TokenKind) (p : Progress) : Advance := do
  let p ← p.saveKey
  return { p.emitSign kind 1 with
    pending := none, outer := p.pending :: p.outer, keyAllowed := true }

def closeFlow (kind : TokenKind) (p : Progress) : Advance := do
  let p ← p.dropKey
  match p.outer with
  | [] => .error .malformed
  | key :: outer => return { p.emitSign kind 1 with pending := key, outer, keyAllowed := false }

def flowEntry (p : Progress) : Advance := do
  let p ← p.dropKey
  return { p.emitSign .flowEntry 1 with keyAllowed := true }

def blockEntry (p : Progress) : Advance := do
  let p ← p.openBlockHere .blockSequenceStart
  let p ← p.dropKey
  return { p.emitSign .blockEntry 1 with keyAllowed := true }

def explicitKey (p : Progress) : Advance := do
  let p ← p.openBlockHere .blockMappingStart
  let p ← p.dropKey
  return { p.emitSign .key 1 with keyAllowed := !p.inFlow }

/-- A colon: behind a possible key, which it confirms, or in front of a value whose key is marked
or missing. -/
def value (p : Progress) : Advance :=
  match p.pending with
  | some key =>
    let p := p.insert .key key.mark key.position
    let p := if p.inFlow then p else p.openBlock .blockMappingStart key.column key.mark key.position
    .ok { p.emitSign .value 1 with pending := none, keyAllowed := false }
  | none => do
    let p ← p.openBlockHere .blockMappingStart
    return { p.emitSign .value 1 with keyAllowed := !p.inFlow }

/-- What belongs to a node and may start a key: an alias, an anchor, a tag or a quoted scalar. -/
def nodePart (scan : Cursor → Scanned TokenKind) (p : Progress) : Advance := do
  let p ← p.saveKey
  let (kind, c) ← scan p.cursor
  return { p.emit kind with cursor := c, keyAllowed := false }

def blockScalar (p : Progress) : Advance := do
  let p ← p.dropKey
  let (text, c) ← scanBlock p.indent p.cursor
  return { p.emit (.scalar text false) with cursor := c, keyAllowed := true }

def plainScalar (p : Progress) : Advance := do
  let p ← p.saveKey
  let scalar := scanPlain p.inFlow p.indent p.cursor
  return { p.emit (.scalar (Text.ofChars scalar.text) true) with
    cursor := scalar.after, keyAllowed := scalar.passedLine }

/-- The signs that a plain scalar does not start with. -/
def isIndicator (c : Char) : Bool :=
  c ∈ ['-', '?', ':', ',', '[', ']', '{', '}', '#', '&', '*', '!', '|', '>', '\'', '"', '%', '@',
    '\x60']

/-- Whether a plain scalar starts here: with no sign, or with one that a word follows. -/
def atPlain (p : Progress) (c : Char) : Bool :=
  (!isBlank c && !isBreak c && !isIndicator c) ||
    (!endsToken (p.cursor.peekAt 1) && (c = '-' || (!p.inFlow && (c = '?' || c = ':'))))

/-- The token that starts with a character; the character is not passed yet. -/
def token (c : Char) (p : Progress) : Advance :=
  let alone := endsToken (p.cursor.peekAt 1)
  let atMarker := p.cursor.column = 0 && p.cursor.atMarker
  if c = '%' && p.cursor.column = 0 then do
    let p ← p.endBlocks
    let (directive, c) ← scanDirective p.cursor
    return { p.emit (.directive directive) with cursor := c }
  else if c = '-' && atMarker then p.endBlocks.map (·.emitSign .documentStart 3)
  else if c = '.' && atMarker then p.endBlocks.map (·.emitSign .documentEnd 3)
  else if c = '[' then p.openFlow .flowSequenceStart
  else if c = '{' then p.openFlow .flowMappingStart
  else if c = ']' then p.closeFlow .flowSequenceEnd
  else if c = '}' then p.closeFlow .flowMappingEnd
  else if c = ',' then p.flowEntry
  else if c = '-' && alone then p.blockEntry
  else if c = '?' && (p.inFlow || alone) then p.explicitKey
  else if c = ':' && (p.inFlow || alone) then p.value
  else if c = '*' then p.nodePart fun c => (scanAnchor c).map fun (name, c) => (.alias name, c)
  else if c = '&' then p.nodePart fun c => (scanAnchor c).map fun (name, c) => (.anchor name, c)
  else if c = '!' then p.nodePart scanTag
  else if (c = '|' || c = '>') && !p.inFlow then p.blockScalar
  else if c = '\'' || c = '"' then
    p.nodePart fun c => (scanQuoted c).map fun (text, c) => (.scalar text false, c)
  else if p.atPlain c then p.plainScalar
  else .error .malformed

/-- The next tokens: those that close blocks, and one more, or the end of the text. Also tells
whether the text goes on. -/
def next (p : Progress) : Except Fault (Bool × Progress) := do
  let p ← (p.skipGap p.cursor.steps).dropStale
  if p.cursor.isStuck then throw p.cursor.unfinished
  let p := p.unwind p.cursor.column
  match p.cursor.peek with
  | none => return (false, (← p.endBlocks).emit .streamEnd)
  | some c =>
    let p ← p.token c
    if p.cursor.isStuck then throw p.cursor.unfinished
    return (true, p)

/-- How many tokens are certain: nothing more will be put in front of them. -/
def certain (p : Progress) : Nat :=
  let positions := (p.pending :: p.outer).filterMap fun key =>
    (key.filter (!isStale p.cursor ·)).map (·.position)
  positions.foldl min p.count

/-- The tokens that are certain, and a fault that no other token comes after. -/
def brokenOff (fault : Fault) (p : Progress) : List Token :=
  p.reversed.reverse.take p.certain ++ [⟨.broken fault, p.cursor.mark⟩]

/-- Reads the tokens that are left. -/
def run : (fuel : Nat) → Progress → List Token
  | 0, p => p.brokenOff .malformed
  | fuel + 1, p =>
    match p.next with
    | .error fault => p.brokenOff fault
    | .ok (false, p) => p.reversed.reverse
    | .ok (true, next) => run fuel next
termination_by structural fuel => fuel

end Progress

/-- The tokens of a text, its end included. -/
def tokens (source : Source) : List Token :=
  let start : Cursor :=
    { rest := source.text, size := source.text.length, stop := source.stop }
  let start := if start.peek = some '\uFEFF' then start.advance else start
  Progress.run (start.steps + 1) { cursor := start }

end ApiLint.Yaml
