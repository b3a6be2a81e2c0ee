import ApiLint.Report.Styled
import ApiLint.Text.Pieces
import ApiLint.Text.Width

/-! What a screen shows of a text. A tab leads to the next of the columns that are multiples of
eight, counted from the start of its line. -/
namespace ApiLint.Screen

/-- The distance of the columns that tabs lead to. -/
def tabSize : Nat := 8

/-- The columns up to the next one that a tab leads to. -/
def missingColumns (column : Nat) : Nat :=
  if column % tabSize = 0 then 0 else tabSize - column % tabSize

/-- The pieces of a line between its tabs, with spaces for the tabs; `column` is where the first
piece starts. A tab takes up one column at least. -/
def expandPieces (column : Nat) : List Text → Text
  | [] => []
  | [piece] => piece
  | piece :: pieces =>
    let stop := column + Text.cellWidth (piece ++ " ")
    let more := missingColumns stop
    piece ++ Text.spaces (more + 1) ++ expandPieces (stop + more) pieces

/-- A line with spaces for its tabs. -/
def expandLine (line : Text) : Text :=
  expandPieces 0 (Text.pieces (.char '\t') line)

/-- A text as it is shown, followed by a newline. -/
def shown (t : Styled) : Text :=
  (Text.pieces (.char '\n') t.chars).flatMap fun line => expandLine line ++ "\n"

/-- What follows a command to the screen, if one stands in front: an escape, a bracket, numbers with
semicolons and question marks between them, and a letter. -/
def behindCommand? (t : Text) : Option Text :=
  match t with
  | .char '\x1b' :: .char '[' :: rest =>
    let isParameter (c : Char) : Bool := c = ';' || c = '?' || ('0' ≤ c && c ≤ '9')
    match rest.dropWhile (·.isA isParameter) with
    | c :: rest => if c.isA Char.isAlpha then some rest else none
    | [] => none
  | _ => none

/-- A text without the commands to the screen that are read within so many steps. -/
def dropCommands : (steps : Nat) → Text → Text
  | 0, t => t
  | _ + 1, [] => []
  | steps + 1, c :: rest =>
    match behindCommand? (c :: rest) with
    | some rest => dropCommands steps rest
    | none => c :: dropCommands steps rest

def withoutCommands (t : Text) : Text :=
  dropCommands t.length t

end ApiLint.Screen
