import ApiLint.Lint

/-! Linting many documents. Each succeeds or fails on its own; the results and the failures stand
in the order in which the documents were named. -/
namespace ApiLint

/-- What came of linting some documents, with the names they were given by. -/
structure Batch where
  results : List (Text × Diagnosis) := []
  failures : List (Text × Failure) := []

namespace Batch

/-- What came of one document, put behind what came of those before it. -/
def add (b : Batch) (file : Text) : Except Failure Diagnosis → Batch
  | .ok r => { b with results := b.results ++ [(file, r)] }
  | .error e => { b with failures := b.failures ++ [(file, e)] }

/-- The results and the failures of documents, each with what came of it. -/
def collect (answers : List (Text × Except Failure Diagnosis)) : Batch :=
  answers.foldl (fun b answer => b.add answer.1 answer.2) {}

/-- The result of a document with its name, if there is one. -/
def result? (answer : Text × Except Failure Diagnosis) : Option (Text × Diagnosis) :=
  answer.2.toOption.map (answer.1, ·)

def failure? (answer : Text × Except Failure Diagnosis) : Option (Text × Failure) :=
  match answer.2 with
  | .ok _ => none
  | .error e => some (answer.1, e)

theorem foldl_add (answers : List (Text × Except Failure Diagnosis)) (b : Batch) :
    answers.foldl (fun b answer => b.add answer.1 answer.2) b =
      ⟨b.results ++ answers.filterMap result?, b.failures ++ answers.filterMap failure?⟩ := by
  induction answers generalizing b with
  | nil => simp
  | cons answer rest ih =>
    obtain ⟨file, e | r⟩ := answer <;> rw [List.foldl_cons, ih] <;>
      simp [List.filterMap_cons, add, result?, failure?, Except.toOption]

/-- The results and the failures are parts of the answers, in their order. -/
theorem collect_eq (answers : List (Text × Except Failure Diagnosis)) :
    collect answers = ⟨answers.filterMap result?, answers.filterMap failure?⟩ := by
  simp [collect, foldl_add]

/-- Lints documents one after another. -/
def run (lint : Text → Except Failure Diagnosis) (files : List Text) : Batch :=
  collect (files.map fun file => (file, lint file))

end Batch

def Lint.ofName (setup : Setup) (disk : Disk) (file : Text) : Lint :=
  Lint.ofFile setup disk (Path.ofText file)

end ApiLint
