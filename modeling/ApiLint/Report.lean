import ApiLint.Report.Order
import ApiLint.Report.Styled
import ApiLint.Report.Totals
import ApiLint.Text.Width

/-! The report of a run: a block for each file, the one with the most messages first, and the
numbers of messages below. Columns are aligned over all files; infos and hints do not widen the
column of messages. -/
namespace ApiLint.Report

/-- The signs in front of messages. -/
inductive Sign
  | error
  | warning
  | info
  deriving DecidableEq, Repr

namespace Sign

def name : Sign → Text
  | error => "error"
  | warning => "warning"
  | info => "info"

def text : Sign → Text
  | error => "✖"
  | warning => "⚠"
  | info => "ℹ"

def style : Sign → Style
  | error => .red
  | warning => .yellow
  | info => .blue

def ofName (name : Text) : Except Misuse Sign :=
  match [error, warning, info].find? (·.name = name) with
  | some sign => .ok sign
  | none => .error (.noEntry (.str name))

end Sign

/-- The widths of the columns for line numbers and for messages. -/
structure Widths where
  line : Nat := 0
  message : Nat := 0
  deriving DecidableEq, Repr

def words (m : Message) : Text :=
  m.message.text

def lineNumber (m : Message) : Text :=
  toString m.line

/-- Spaces that fill a text up to a width. -/
def padding (width : Nat) (s : Text) : Text :=
  Text.spaces (width - Text.cellWidth s)

/-- The line for a message: sign, number of the line, message and rule. -/
def line (widths : Widths) (sign : Sign) (m : Message) : Styled :=
  .assemble [
    (sign.text, some sign.style),
    (" ", none),
    (padding widths.line (lineNumber m), none),
    (lineNumber m, some .grey),
    (" ", none),
    (words m, none),
    (padding widths.message (words m), none),
    (" ", none),
    (m.rule, some .grey)]

def widest (texts : List Text) : Nat :=
  (texts.map Text.cellWidth).foldl max 0

/-- The widths that make room for all line numbers and for the messages of errors and warnings. -/
def widthsOf (results : List Diagnosis) : Widths :=
  { line := widest (results.flatMap fun r =>
      (r.errors ++ r.warnings ++ r.infos ++ r.hints).map lineNumber)
    message := widest (results.flatMap fun r => (r.errors ++ r.warnings).map words) }

def lines (widths : Widths) (r : Diagnosis) : List Styled :=
  r.hints.map (line widths .info) ++ r.infos.map (line widths .info) ++
    r.warnings.map (line widths .warning) ++ r.errors.map (line widths .error)

/-- The block for a file: its name and its lines. -/
def block (widths : Widths) (file : Text) (r : Diagnosis) : Styled :=
  .ofText file (some .underline) ++ .ofText "\n" ++ .joinLines (lines widths r) ++ .ofText "\n"

/-- A number of things, with the word for one of them. -/
def counted (n : Nat) (word : Text) : Text :=
  toString n ++ " " ++ word ++ if n = 1 then "" else "s"

/-- The lines below the blocks: the numbers that are not zero, the least severity first. -/
def footer (t : Totals) : List Styled :=
  let parts := [(t.hints, "hint", Style.cyan), (t.infos, "info", .cyan),
    (t.warnings, "warning", .yellow), (t.errors, "error", .red)]
  (parts.filter (0 < ·.1)).map fun part => .ofText (counted part.1 part.2.1) (some part.2.2)

/-- The report of a run; nothing if there are no messages. -/
def render (results : List (Text × Diagnosis)) : Styled :=
  let sorted := results.map fun entry => (entry.1, entry.2.inLineOrder)
  let totals := Totals.ofResults sorted
  if totals.total = 0 then {}
  else
    let widths := widthsOf (sorted.map (·.2))
    let blocks := (worstFirst sorted).map fun entry => block widths entry.1 entry.2
    let body : Styled := .ofText "\n" ++ .joinLines blocks ++ .ofText "\n"
    body.followedBy (.joinLines (footer totals))

/-- Refuses messages that are no texts: they have no width. -/
def checkWords (messages : List Message) : Except Misuse Unit :=
  messages.forM fun m =>
    match m.message with
    | .str _ => .ok ()
    | v => .error (.notText v.kindName)

/-- The report of a run, whose messages must be texts. -/
def make (results : List (Text × Diagnosis)) : Except Misuse Styled := do
  results.forM fun entry =>
    checkWords (entry.2.errors ++ entry.2.warnings ++ entry.2.infos ++ entry.2.hints)
  return render results

end ApiLint.Report
