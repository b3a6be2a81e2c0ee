import ApiLint.Result

/-! The numbers of messages of a run. -/
namespace ApiLint

/-- The numbers of messages in all files of a run. -/
structure Totals where
  errors : Nat := 0
  warnings : Nat := 0
  infos : Nat := 0
  hints : Nat := 0
  deriving DecidableEq, Repr

namespace Totals

/-- The totals with the messages of a file more. -/
def add (t : Totals) (r : Diagnosis) : Totals :=
  { errors := t.errors + r.errors.length
    warnings := t.warnings + r.warnings.length
    infos := t.infos + r.infos.length
    hints := t.hints + r.hints.length }

/-- The totals of some files. -/
def ofResults (results : List (Text × Diagnosis)) : Totals :=
  results.foldl (fun t entry => t.add entry.2) {}

def total (t : Totals) : Nat :=
  t.errors + t.warnings + t.infos + t.hints

end Totals

def anyErrors (results : List (Text × Diagnosis)) : Bool :=
  results.any fun entry => !entry.2.errors.isEmpty

end ApiLint
