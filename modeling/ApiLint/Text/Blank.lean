import ApiLint.Text
import ApiLint.Text.Ranges

/-! White space and line ends. Three sets matter and they differ: the blanks that trimming
removes, the line ends that split a listing into lines, and the two spellings of a line end that
reading a text file turns into a plain newline. -/
namespace ApiLint.Text

/-- The blanks above the ASCII range. -/
def blankRanges : List (Nat × Nat) :=
  [(0x85, 0x85), (0xA0, 0xA0), (0x1680, 0x1680), (0x2000, 0x200A), (0x2028, 0x2029),
   (0x202F, 0x202F), (0x205F, 0x205F), (0x3000, 0x3000)]

/-- The characters that trimming removes. -/
def isBlank (c : Char) : Bool :=
  c.toNat = 0x20 || (0x09 ≤ c.toNat && c.toNat ≤ 0x0D) || (0x1C ≤ c.toNat && c.toNat ≤ 0x1F) ||
    inRanges blankRanges c.toNat

/-- A text without the blanks at its two ends. -/
def trimmed (t : Text) : Text :=
  ((t.dropWhile (·.isA isBlank)).reverse.dropWhile (·.isA isBlank)).reverse

/-- The characters that end a line of a listing. -/
def isLineEnd (c : Char) : Bool :=
  (0x0A ≤ c.toNat && c.toNat ≤ 0x0D) || (0x1C ≤ c.toNat && c.toNat ≤ 0x1E) ||
    c.toNat = 0x85 || c.toNat = 0x2028 || c.toNat = 0x2029

/-- The lines of a text, of which `line` has been read backwards so far. A carriage return and
the newline after it end one line, and a line end at the very end opens no further line. -/
def linesFrom (line : Text) : Text → List Text
  | [] => if line.isEmpty then [] else [line.reverse]
  | .char '\r' :: .char '\n' :: rest => line.reverse :: linesFrom [] rest
  | c :: rest =>
    if c.isA isLineEnd then line.reverse :: linesFrom [] rest else linesFrom (c :: line) rest

/-- The lines of a listing, without their ends. -/
def lines (t : Text) : List Text :=
  linesFrom [] t

/-- A text in which every carriage return, with or without a newline after it, has become one
newline. -/
def plainNewlines : List Char → List Char
  | [] => []
  | '\r' :: '\n' :: rest => '\n' :: plainNewlines rest
  | c :: rest => (if c = '\r' then '\n' else c) :: plainNewlines rest

end ApiLint.Text
