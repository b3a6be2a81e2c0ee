import ApiLint.Text
import ApiLint.Text.Hex
import ApiLint.Text.Printable

/-! Quoted texts, as they appear inside messages. A text stands between single quotes, or between
double quotes when it holds a single quote and no double one; what cannot be printed is escaped
by its code. -/
namespace ApiLint.Text

/-- The quote that a text is put between. -/
def quoteMark (t : Text) : Char :=
  if t.contains '\'' && !t.contains '"' then '"' else '\''

/-- The escape of a character by its code, as short as the code allows. -/
def codeEscape (code : Nat) : List Char :=
  if code < 0x100 then '\\' :: 'x' :: hexDigits 2 code
  else if code < 0x10000 then '\\' :: 'u' :: hexDigits 4 code
  else '\\' :: 'U' :: hexDigits 8 code

/-- The escapes that have a letter of their own, and those of the backslash and of the quote. -/
def shortEscape? (quote c : Char) : Option (List Char) :=
  if c = quote || c = '\\' then some ['\\', c]
  else if c = '\n' then some ['\\', 'n']
  else if c = '\r' then some ['\\', 'r']
  else if c = '\t' then some ['\\', 't']
  else none

/-- One character of a quoted text. -/
def quotedChar (quote c : Char) : List Char :=
  (shortEscape? quote c).getD (if isPrintable c then [c] else codeEscape c.toNat)

def quotedPoint (quote : Char) : CodePoint → List Char
  | .char c => quotedChar quote c
  | .half offset => codeEscape (CodePoint.half offset).code

/-- A text between quotes, with all that cannot be printed escaped. -/
def quoted (t : Text) : Text :=
  let quote := quoteMark t
  ofChars (quote :: t.flatMap (quotedPoint quote) ++ [quote])

/-- One byte of a quoted row of bytes: only printable ASCII stands for itself. -/
def quotedByte (quote : Char) (b : UInt8) : List Char :=
  let c := Char.ofNat b.toNat
  (shortEscape? quote c).getD
    (if 0x20 ≤ b.toNat ∧ b.toNat < 0x7F then [c] else codeEscape b.toNat)

/-- A row of bytes between quotes, marked by a leading `b`. -/
def quotedBytes (bytes : List UInt8) : Text :=
  let quote := quoteMark (bytes.map fun b => Char.ofNat b.toNat)
  ofChars ('b' :: quote :: bytes.flatMap (quotedByte quote) ++ [quote])

end ApiLint.Text
