import ApiLint.Result

/-! How results are written for somebody who looks for a mistake: all fields, on one line. -/
namespace ApiLint

def inBrackets (items : List Text) : Text :=
  "[" ++ Text.joined ", " items ++ "]"

def Message.literal (m : Message) : Text :=
  "LintMessage(path=" ++ (Value.list m.path).literal ++ ", message=" ++ m.message.literal ++
    ", rule=" ++ Text.quoted m.rule ++ s!", line={m.line})"

/-- Messages with all their fields. -/
def Message.literals (messages : List Message) : Text :=
  inBrackets (messages.map Message.literal)

def Diagnosis.literal (r : Diagnosis) : Text :=
  "LintResult(version=" ++ Text.quoted r.version ++ ", errors=" ++ Message.literals r.errors ++
    ", warnings=" ++ Message.literals r.warnings ++ ", infos=" ++ Message.literals r.infos ++
    ", hints=" ++ Message.literals r.hints ++ ")"

/-- The results of some files with the names of the files. -/
def Diagnosis.literals (results : List (Text × Diagnosis)) : Text :=
  inBrackets (results.map fun entry =>
    "(" ++ Text.quoted entry.1 ++ ", " ++ entry.2.literal ++ ")")

end ApiLint
