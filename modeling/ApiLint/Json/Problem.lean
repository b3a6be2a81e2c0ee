import ApiLint.Numeral.Reading

/-! What can be wrong with a JSON text, and where. -/
namespace ApiLint.Json

/-- What is wrong at a place of a JSON text. -/
inductive Problem
  | byteOrderMark
  | noValue
  | noName
  | noColon
  | noComma
  | extraData
  | openString
  | controlCharacter
  | badEscape
  | badUnicodeEscape
  deriving DecidableEq, Repr

/-- The words for a problem. -/
def Problem.message : Problem → String
  | byteOrderMark => "Unexpected UTF-8 BOM (decode using utf-8-sig)"
  | noValue => "Expecting value"
  | noName => "Expecting property name enclosed in double quotes"
  | noColon => "Expecting ':' delimiter"
  | noComma => "Expecting ',' delimiter"
  | extraData => "Extra data"
  | openString => "Unterminated string starting at"
  | controlCharacter => "Invalid control character at"
  | badEscape => "Invalid \\escape"
  | badUnicodeEscape => "Invalid \\uXXXX escape"

/-- A problem with its place: how many characters come before it, its line and its column, both
counted from one. -/
structure Mistake where
  problem : Problem
  offset : Nat
  line : Nat
  column : Nat
  deriving DecidableEq, Repr

def Mistake.message (m : Mistake) : String :=
  s!"{m.problem.message}: line {m.line} column {m.column} (char {m.offset})"

/-- A mistake in front of what is left of a text. -/
def Mistake.before (problem : Problem) (text rest : Text) : Mistake :=
  let read := text.take (text.length - rest.length)
  { problem
    offset := read.length
    line := read.count (.char '\n') + 1
    column := (read.reverse.takeWhile (· ≠ .char '\n')).length + 1 }

/-- Why a text cannot be read as JSON. -/
inductive Fault
  /-- The text is not JSON. -/
  | mistake (m : Mistake)
  /-- A whole number in it has too many digits. -/
  | numeral (f : Numeral.Fault)
  deriving DecidableEq, Repr

end ApiLint.Json
