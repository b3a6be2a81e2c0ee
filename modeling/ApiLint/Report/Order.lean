import ApiLint.Result

/-! The order of a report. The messages of a file stand in the order of their lines, the files in
the order of their numbers of errors, then of warnings, infos and hints, the most first. What
compares equal keeps its order. -/
namespace ApiLint

namespace Diagnosis

def messagesInLineOrder (messages : List Message) : List Message :=
  messages.mergeSort fun a b => a.line ≤ b.line

/-- The result with the messages of each severity in the order of their lines. -/
def inLineOrder (r : Diagnosis) : Diagnosis :=
  { r with
    errors := messagesInLineOrder r.errors
    warnings := messagesInLineOrder r.warnings
    infos := messagesInLineOrder r.infos
    hints := messagesInLineOrder r.hints }

theorem messagesInLineOrder_perm (messages : List Message) :
    (messagesInLineOrder messages).Perm messages :=
  List.mergeSort_perm messages _

@[simp] theorem counts_inLineOrder (r : Diagnosis) : r.inLineOrder.counts = r.counts := by
  simp [inLineOrder, counts, messagesInLineOrder]

end Diagnosis

/-- Whether a row of counts is at least as high as another one: the first difference decides. -/
def atLeast : List Nat → List Nat → Bool
  | _, [] => true
  | [], _ :: _ => false
  | x :: xs, y :: ys => y < x || (x = y && atLeast xs ys)

/-- The files with the most messages first. -/
def worstFirst (results : List (Text × Diagnosis)) : List (Text × Diagnosis) :=
  results.mergeSort fun a b => atLeast a.2.counts b.2.counts

theorem worstFirst_perm (results : List (Text × Diagnosis)) :
    (worstFirst results).Perm results :=
  List.mergeSort_perm results _

end ApiLint
