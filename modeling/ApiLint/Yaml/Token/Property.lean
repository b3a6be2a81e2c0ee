import ApiLint.Text.Hex
import ApiLint.Text.Utf8
import ApiLint.Yaml.Token

/-! Anchors, aliases, tags and directives: names in front of a node or of a document. -/
namespace ApiLint.Yaml

/-- Whether a character may stand in a name. -/
def isNameChar (c : Char) : Bool :=
  ('0' ≤ c && c ≤ '9') || ('a' ≤ c && c ≤ 'z') || ('A' ≤ c && c ≤ 'Z') || c = '-' || c = '_'

/-- Whether a character may stand in a tag or in the meaning of a tag handle. -/
def isUriChar (c : Char) : Bool :=
  isNameChar c || c ∈ [';', '/', '?', ':', '@', '&', '=', '+', '$', ',', '.', '!', '~', '*', '\'',
    '(', ')', '[', ']', '%']

/-- Whether a name that marks a node may end in front of this character. -/
def endsAnchor (c : Option Char) : Bool :=
  endsToken c || c.any fun c => c ∈ ['?', ':', ',', ']', '}', '%', '@', '\x60']

/-- The name of an anchor or an alias, from the sign in front of it on. -/
def scanAnchor (c : Cursor) : Scanned String :=
  let (name, c) := c.advance.takeWhile isNameChar
  if name.isEmpty || !endsAnchor c.peek then .error .malformed
  else .ok (String.ofList name, c)

/-- A handle: an exclamation mark, alone or with another one after a name. -/
def scanHandle (c : Cursor) : Scanned String :=
  if c.peek ≠ some '!' then .error .malformed
  else if c.peekAt 1 = some ' ' then .ok ("!", c.advance)
  else
    let (name, after) := c.advance.takeWhile isNameChar
    if after.peek = some '!' then .ok (String.ofList ('!' :: name ++ ['!']), after.advance)
    else .error .malformed

/-- The bytes of a row of percent escapes, and the place after it. -/
def scanEscapes : (fuel : Nat) → Cursor → Option (List UInt8 × Cursor)
  | 0, c => some ([], c)
  | fuel + 1, c =>
    match c.rest with
    | '%' :: a :: b :: _ => do
      let byte ← Text.hexNumber? [a, b]
      let (bytes, c) ← scanEscapes fuel (c.advanceBy 3)
      return (UInt8.ofNat byte :: bytes, c)
    | '%' :: _ => none
    | _ => some ([], c)

/-- The characters of a tag, with percent escapes read as UTF-8. -/
def scanUriChars : (fuel : Nat) → Cursor → Scanned (List Char)
  | 0, c => .ok ([], c)
  | fuel + 1, c =>
    match c.peek with
    | some '%' =>
      match scanEscapes c.rest.length c with
      | none => .error .malformed
      | some (bytes, c) =>
        match Text.Utf8.decode bytes with
        | .error _ => .error .malformed
        | .ok cs => (scanUriChars fuel c).map fun (more, c) => (cs ++ more, c)
    | some ch =>
      if isUriChar ch then (scanUriChars fuel c.advance).map fun (more, c) => (ch :: more, c)
      else .ok ([], c)
    | none => .ok ([], c)

/-- The characters of a tag, of which there must be some. -/
def scanUri (c : Cursor) : Scanned String :=
  match scanUriChars c.steps c with
  | .error e => .error e
  | .ok ([], _) => .error .malformed
  | .ok (cs, c) => .ok (String.ofList cs, c)

/-- Whether another exclamation mark comes before the end of the word, so that the tag starts with
a handle of more than one sign. -/
def hasHandle (word : List Char) : Bool :=
  (word.takeWhile fun c => !endsWord (some c)).contains '!'

/-- A tag, from its exclamation mark on: between angle brackets, with a handle, or alone. -/
def scanTag (c : Cursor) : Except Fault (TokenKind × Cursor) := do
  let (kind, c) ←
    if c.peekAt 1 = some '<' then do
      let (uri, c) ← scanUri (c.advanceBy 2)
      if c.peek = some '>' then .ok (TokenKind.tag none uri, c.advance) else .error .malformed
    else if endsToken (c.peekAt 1) then .ok (TokenKind.tag none "!", c.advance)
    else do
      let (handle, c) ← if hasHandle c.advance.rest then scanHandle c else .ok ("!", c.advance)
      let (suffix, c) ← scanUri c
      .ok (TokenKind.tag (some handle) suffix, c)
  if endsWord c.peek then .ok (kind, c) else .error .malformed

/-- The place after the rest of a line that may hold nothing but a comment, its end included. -/
def endLine (c : Cursor) : Except Fault Cursor :=
  let c := c.skipSpaces
  let c := if c.peek = some '#' then c.skipWhile (!isBreak ·) else c
  if endsLine c.peek then .ok c.lineBreak.2 else .error .malformed

def scanNumber (c : Cursor) : Scanned Nat :=
  let (digits, c) := c.takeWhile fun c => '0' ≤ c && c ≤ '9'
  if digits.isEmpty then .error .malformed
  else .ok (digits.foldl (fun n d => n * 10 + (d.toNat - 0x30)) 0, c)

/-- A directive, from its percent sign to the end of its line. -/
def scanDirective (c : Cursor) : Except Fault (Directive × Cursor) := do
  let (name, c) := c.advance.takeWhile isNameChar
  if name.isEmpty || !endsWord c.peek then .error .malformed
  else
    let (directive, c) ←
      if name = ['Y', 'A', 'M', 'L'] then do
        let (major, c) ← scanNumber c.skipSpaces
        if c.peek ≠ some '.' then .error .malformed
        else do
          let (_, c) ← scanNumber c.advance
          if endsWord c.peek then .ok (Directive.version major, c) else .error .malformed
      else if name = ['T', 'A', 'G'] then do
        let (handle, c) ← scanHandle c.skipSpaces
        if c.peek ≠ some ' ' then .error .malformed
        else do
          let (uri, c) ← scanUri c.skipSpaces
          if endsWord c.peek then .ok (Directive.tagHandle handle uri, c) else .error .malformed
      else .ok (Directive.other, c.skipWhile (!isBreak ·))
    return (directive, ← endLine c)

end ApiLint.Yaml
