import ApiLint.Calendar
import ApiLint.Numeral.Reading
import ApiLint.Text.Quoted
import ApiLint.Text.Utf8

/-! Why a YAML text has no value. Whatever breaks the rules of the language is one fault; the
others come from what the text is read from, or from scalars whose tag asks for a kind of value
that their text does not name. -/
namespace ApiLint.Yaml

/-- Why a YAML text has no value. -/
inductive Fault
  /-- The text is not YAML, or uses what no value stands for. -/
  | malformed
  /-- The text cannot be read on. -/
  | undecodable (fault : Text.Utf8.Fault)
  /-- An escape names a code that no character has. -/
  | character (code : Nat)
  /-- A scalar tagged as a number is none. -/
  | number (fault : Numeral.Fault)
  /-- A scalar tagged as a number has no text. -/
  | noDigits
  /-- A place of a number to the base sixty is worth more than any number can be. -/
  | placeTooHigh
  /-- A scalar tagged as a truth value is none. -/
  | truth (text : Text)
  /-- A scalar tagged as a time has not the form of one. -/
  | time
  /-- What is tagged as a time is a mapping, which has no text of its own. -/
  | timeOfMapping
  /-- A time names no moment. -/
  | moment (fault : Calendar.Fault)
  /-- A node stands for itself. -/
  | endless
  deriving DecidableEq, Repr

/-- The words for a fault. -/
def Fault.message : Fault → Text
  | malformed => "<yaml error>"
  | undecodable fault => fault.message
  | character code =>
    if code < 0x80000000 then "chr() arg not in range(0x110000)"
    else "Python int too large to convert to C int"
  | number fault => fault.message
  | noDigits => "string index out of range"
  | placeTooHigh => "int too large to convert to float"
  | truth text => Text.quoted text
  | time => "'NoneType' object has no attribute 'groupdict'"
  | timeOfMapping => "expected string or bytes-like object, got 'list'"
  | moment fault => fault.message
  | endless => "maximum recursion depth exceeded"

end ApiLint.Yaml
