import ApiLint.Text
import ApiLint.Text.Hex
import ApiLint.Yaml.Cursor

/-! Scalars between quotes. Line ends inside them are folded: one becomes a space, and the first of
several is dropped. Between double quotes a backslash starts an escape. -/
namespace ApiLint.Yaml

/-- The character that a one-letter escape stands for. -/
def escaped? : Char → Option Char
  | '0' => some '\x00'
  | 'a' => some '\x07'
  | 'b' => some '\x08'
  | 't' | '\t' => some '\t'
  | 'n' => some '\n'
  | 'v' => some '\x0B'
  | 'f' => some '\x0C'
  | 'r' => some '\r'
  | 'e' => some '\x1B'
  | ' ' => some ' '
  | '"' => some '"'
  | '\\' => some '\\'
  | '/' => some '/'
  | 'N' => some '\u0085'
  | '_' => some '\u00A0'
  | 'L' => some '\u2028'
  | 'P' => some '\u2029'
  | _ => none

/-- How many hexadecimal digits follow the letter of an escape by code. -/
def codeWidth? : Char → Option Nat
  | 'x' => some 2
  | 'u' => some 4
  | 'U' => some 8
  | _ => none

/-- The code point with a number, which must be that of one. -/
def pointOf (code : Nat) : Except Fault CodePoint :=
  if 0x110000 ≤ code then .error (.character code) else .ok (.ofCode code)

/-- The line ends that follow a first one, blanks between them dropped. A document marker may not
stand at the start of one of these lines. -/
def quotedBreaks : (fuel : Nat) → Cursor → Scanned Text
  | 0, c => .ok ([], c)
  | fuel + 1, c =>
    if c.atMarker then .error .malformed
    else
      let c := c.skipWhile isBlank
      if c.peek.any isBreak then
        let (ch, c) := c.lineBreak
        (quotedBreaks fuel c).map fun (more, c) => (Text.ofChars ch ++ more, c)
      else .ok ([], c)

/-- A line end and those after it, folded. -/
def foldedBreaks (fuel : Nat) (c : Cursor) : Scanned Text :=
  let (first, c) := c.lineBreak
  (quotedBreaks fuel c).map fun (more, c) =>
    (if first ≠ ['\n'] then Text.ofChars first ++ more else if more.isEmpty then [' '] else more, c)

/-- Blanks inside the quotes, or folded line ends. -/
def quotedGap (fuel : Nat) (c : Cursor) : Scanned Text :=
  let (blanks, c) := c.takeWhile isBlank
  match c.peek with
  | none => .error c.unfinished
  | some ch => if isBreak ch then foldedBreaks fuel c else .ok (Text.ofChars blanks, c)

/-- An escape, from its backslash on. A line end behind the backslash leaves no blank. -/
def quotedEscape (fuel : Nat) (c : Cursor) : Scanned Text :=
  let c := c.advance
  match c.peek with
  | none => .error c.unfinished
  | some ch =>
    match escaped? ch, codeWidth? ch with
    | some d, _ => .ok ([d], c.advance)
    | none, some width =>
      let c := c.advance
      let digits := c.rest.take width
      if digits.length < width then .error c.unfinished
      else
        match Text.hexNumber? digits with
        | none => .error .malformed
        | some code => (pointOf code).map fun d => ([d], c.advanceBy width)
    | none, none =>
      if isBreak ch then quotedBreaks fuel c.lineBreak.2 else .error .malformed

/-- Whether a character stands for itself between quotes of both kinds. -/
def isQuotedChar (c : Char) : Bool :=
  !(c = '\'' || c = '"' || c = '\\' || isBlank c || isBreak c)

/-- The text up to the closing quote, from the place after the opening one on. -/
def quotedText (double : Bool) : (fuel : Nat) → Cursor → Scanned Text
  | 0, _ => .error .malformed
  | fuel + 1, c =>
    let more (t : Text) (c : Cursor) : Scanned Text :=
      (quotedText double fuel c).map fun (rest, c) => (t ++ rest, c)
    match c.rest with
    | [] => .error c.unfinished
    | '\'' :: next =>
      if double then more ['\''] c.advance
      else if next.head? = some '\'' then more ['\''] (c.advanceBy 2)
      else .ok ([], c.advance)
    | '"' :: _ => if double then .ok ([], c.advance) else more ['"'] c.advance
    | '\\' :: _ =>
      if double then
        match quotedEscape fuel c with
        | .error e => .error e
        | .ok (t, c) => more t c
      else more ['\\'] c.advance
    | ch :: _ =>
      if isQuotedChar ch then
        let (cs, c) := c.takeWhile isQuotedChar
        more (Text.ofChars cs) c
      else
        match quotedGap fuel c with
        | .error e => .error e
        | .ok (t, c) => more t c

/-- A quoted scalar, from its opening quote on. -/
def scanQuoted (c : Cursor) : Scanned Text :=
  quotedText (c.peek = some '"') c.steps c.advance

end ApiLint.Yaml
