import ApiLint.Numeral.Notation
import ApiLint.Text.Hex
import ApiLint.Value

/-! Writing JSON in ASCII on one line, with a blank after every comma and colon. Characters outside
ASCII are written as one code unit or a pair of them. -/
namespace ApiLint.Json

def unitEscape (code : Nat) : List Char :=
  '\\' :: 'u' :: Text.hexDigits 4 code

/-- A character inside a string. -/
def writeChar (c : Char) : List Char :=
  if c = '"' then ['\\', '"']
  else if c = '\\' then ['\\', '\\']
  else if c = '\n' then ['\\', 'n']
  else if c = '\r' then ['\\', 'r']
  else if c = '\t' then ['\\', 't']
  else if c = '\x08' then ['\\', 'b']
  else if c = '\x0C' then ['\\', 'f']
  else if 0x20 ≤ c.toNat ∧ c.toNat < 0x7F then [c]
  else if c.toNat < 0x10000 then unitEscape c.toNat
  else
    unitEscape (0xD800 + (c.toNat - 0x10000) / 0x400) ++
      unitEscape (0xDC00 + (c.toNat - 0x10000) % 0x400)

/-- A code point inside a string; half of a pair is written by its code. -/
def writePoint : CodePoint → List Char
  | .char c => writeChar c
  | .half offset => unitEscape (CodePoint.half offset).code

def writeString (t : Text) : List Char :=
  '"' :: t.flatMap writePoint ++ ['"']

/-- A floating point number; the infinite ones are written by name. -/
def writeFloat (x : Float) : List Char :=
  if x.isInf then
    (if Numeral.isNegative x then ['-'] else []) ++ ['I', 'n', 'f', 'i', 'n', 'i', 't', 'y']
  else (Numeral.floatText x).toList

/-- A value without parts. Values that JSON has no form for are written as null. -/
def writeScalar : Value → List Char
  | .bool true => ['t', 'r', 'u', 'e']
  | .bool false => ['f', 'a', 'l', 's', 'e']
  | .int n => (toString n).toList
  | .float x => writeFloat x
  | .nan _ => ['N', 'a', 'N']
  | .str s => writeString s
  | _ => ['n', 'u', 'l', 'l']

/-- A key, which is always written as a string. -/
def writeKey : Value → List Char
  | .str s => writeString s
  | v => '"' :: writeScalar v ++ ['"']

def commas : List (List Char) → List Char
  | [] => []
  | [t] => t
  | t :: ts => t ++ ',' :: ' ' :: commas ts

mutual

/-- A value as JSON. -/
def writeValue : Value → List Char
  | .list items | .tuple items | .set items => '[' :: commas (writeItems items) ++ [']']
  | .map entries => '{' :: commas (writeEntries entries) ++ ['}']
  | .loop _ body => writeValue body
  | v => writeScalar v
termination_by structural v => v

def writeItems : List Value → List (List Char)
  | [] => []
  | x :: xs => writeValue x :: writeItems xs

def writeEntries : List (Value × Value) → List (List Char)
  | [] => []
  | (k, v) :: es => (writeKey k ++ ':' :: ' ' :: writeValue v) :: writeEntries es

end

def write (v : Value) : String :=
  String.ofList (writeValue v)

end ApiLint.Json
