import ApiLint.Numeral.Notation
import ApiLint.Numeral.Reading
import ApiLint.Text.Quoted
import ApiLint.Value

/-! How values are written inside messages. A text on its own stands for itself; inside another
value, or where the kind of a value matters, it is quoted. -/
namespace ApiLint.Value

/-- A value without parts, as it is written inside another one. -/
def scalarLiteral : Value → Text
  | null => "None"
  | bool b => if b then "True" else "False"
  | int n => toString n
  | float x => Numeral.floatText x
  | nan _ => "nan"
  | str s => Text.quoted s
  | bytes bs => Text.quotedBytes bs
  | date d => d.literal
  | time t => t.literal
  | moment m => m.literal
  | _ => ""

/-- What is written for a collection inside itself. -/
def dots : Value → Text
  | map _ => "\x7b...\x7d"
  | tuple _ => "(...)"
  | _ => "[...]"

/-- The collections around a value that contain themselves: their labels and what is written for
them. -/
abbrev Around := List (Nat × Text)

mutual

/-- A value as it is written inside others. -/
def literalIn (around : Around) : Value → Text
  | list items => "[" ++ Text.joined ", " (literalsIn around items) ++ "]"
  | tuple [item] => "(" ++ literalIn around item ++ ",)"
  | tuple items => "(" ++ Text.joined ", " (literalsIn around items) ++ ")"
  | set [] => "set()"
  | set items => "\x7b" ++ Text.joined ", " (literalsIn around items) ++ "\x7d"
  | map entries => "\x7b" ++ Text.joined ", " (entryLiteralsIn around entries) ++ "\x7d"
  | loop l body => (around.lookup l).getD (literalIn ((l, dots body) :: around) body)
  | again l => (around.lookup l).getD []
  | v => scalarLiteral v
termination_by structural v => v

def literalsIn (around : Around) : List Value → List Text
  | [] => []
  | x :: xs => literalIn around x :: literalsIn around xs

def entryLiteralsIn (around : Around) : List (Value × Value) → List Text
  | [] => []
  | (k, v) :: es =>
    (literalIn around k ++ ": " ++ literalIn around v) :: entryLiteralsIn around es

end

/-- A value as it is written inside another one. -/
def literal (v : Value) : Text :=
  v.literalIn []

/-- The size from which on a whole number has too many decimal digits to be written. -/
def writableLimit : Nat := Numeral.tenTo Numeral.digitLimit

mutual

/-- Whether a value holds a whole number that is too large to be written. -/
def hasLongNumeral : Value → Bool
  | int n => writableLimit ≤ n.natAbs
  | list items | tuple items | set items => hasLongNumerals items
  | map entries => hasLongEntries entries
  | loop _ body => hasLongNumeral body
  | _ => false
termination_by structural v => v

def hasLongNumerals : List Value → Bool
  | [] => false
  | x :: xs => hasLongNumeral x || hasLongNumerals xs

def hasLongEntries : List (Value × Value) → Bool
  | [] => false
  | (k, v) :: es => hasLongNumeral k || hasLongNumeral v || hasLongEntries es

end

/-- A value as it is written on its own. -/
def text : Value → Text
  | str s => s
  | date d => d.text
  | time t => t.text
  | moment m => m.text " "
  | v => v.literal

end ApiLint.Value
