import ApiLint.Proofs.Stable
import ApiLint.Proofs.Text.Order
import ApiLint.Report.Order
import Mathlib.Data.List.Lex

/-! The order of a report. The files in the order of their counts, the most first, and the messages of
each severity in the order of their lines are stable sorts, so they are the only rows of their kind
(`orders_stably`). Sorting the messages of a file does not change its counts; so it does not matter
which of the two is done first. -/
namespace ApiLint

variable {results : List (Text × Diagnosis)}

/-- Rows of counts are compared as words in a dictionary. -/
theorem atLeast_iff {xs ys : List Nat} : atLeast xs ys = true ↔ xs ≥ ys := by
  induction xs generalizing ys with
  | nil => cases ys <;> simp [atLeast]
  | cons x xs ih =>
    cases ys with
    | nil =>
      simp only [atLeast, true_iff]
      exact not_lt.mp (List.not_lt_nil _)
    | cons y ys =>
      simp only [atLeast, ge_iff_le, cons_le_cons_iff, Bool.or_eq_true, Bool.and_eq_true,
        decide_eq_true_eq, ih, eq_comm (a := x)]

theorem worstFirst_isStableSort (results : List (Text × Diagnosis)) :
    IsStableSort (· ≥ ·) (fun entry => entry.2.counts) results (worstFirst results) :=
  isStableSort_mergeSort (fun entry => entry.2.counts) (fun _ _ => atLeast_iff) results

/-- Files whose counts are kept are put in the same order. -/
theorem worstFirst_map {f : Text × Diagnosis → Text × Diagnosis}
    (hf : ∀ entry, (f entry).2.counts = entry.2.counts) :
    worstFirst (results.map f) = (worstFirst results).map f :=
  (worstFirst_isStableSort _).unique ((worstFirst_isStableSort results).map hf)

theorem worstFirst_worstFirst : worstFirst (worstFirst results) = worstFirst results :=
  (worstFirst_isStableSort _).unique (.refl (worstFirst_isStableSort results).inOrder)

namespace Diagnosis

variable {r : Diagnosis}

theorem bucket_inLineOrder (r : Diagnosis) (s : Severity) :
    r.inLineOrder.bucket s = messagesInLineOrder (r.bucket s) := by
  cases s <;> rfl

theorem messagesInLineOrder_isStableSort (messages : List Message) :
    IsStableSort (· ≤ ·) Message.line messages (messagesInLineOrder messages) :=
  isStableSort_mergeSort Message.line (fun _ _ => decide_eq_true_iff) messages

theorem messagesInLineOrder_messagesInLineOrder (messages : List Message) :
    messagesInLineOrder (messagesInLineOrder messages) = messagesInLineOrder messages :=
  (messagesInLineOrder_isStableSort _).unique
    (.refl (messagesInLineOrder_isStableSort messages).inOrder)

theorem inLineOrder_inLineOrder : r.inLineOrder.inLineOrder = r.inLineOrder := by
  simp only [inLineOrder, messagesInLineOrder_messagesInLineOrder]

end Diagnosis

/-- **The order of a report is the only one of its kind.** The files in their order are the one row that
has each file, those with the higher counts first, and in which files with the same counts stand as
before. The messages of a severity in their order are the one row that has each message, ascends by
lines, and in which messages about the same line stand as before; nothing else of a result changes, and
the counts do not. So the messages can be sorted before the files or after them, and to sort again
changes nothing. -/
theorem orders_stably (results : List (Text × Diagnosis)) :
    (∀ files, IsStableSort (· ≥ ·) (fun entry => entry.2.counts) results files ↔
        files = worstFirst results) ∧
      (∀ (r : Diagnosis) s messages, IsStableSort (· ≤ ·) Message.line (r.bucket s) messages ↔
        messages = r.inLineOrder.bucket s) ∧
      (∀ r : Diagnosis, r.inLineOrder.version = r.version ∧ r.inLineOrder.counts = r.counts) ∧
      worstFirst (results.map fun entry => (entry.1, entry.2.inLineOrder)) =
        (worstFirst results).map (fun entry => (entry.1, entry.2.inLineOrder)) ∧
      worstFirst (worstFirst results) = worstFirst results ∧
      ∀ r : Diagnosis, r.inLineOrder.inLineOrder = r.inLineOrder := by
  refine ⟨fun files => ⟨fun h => h.unique (worstFirst_isStableSort results), ?_⟩,
    fun r s messages => ?_, fun r => ⟨rfl, r.counts_inLineOrder⟩,
    worstFirst_map fun entry => entry.2.counts_inLineOrder, worstFirst_worstFirst,
    fun r => Diagnosis.inLineOrder_inLineOrder⟩
  · rintro rfl
    exact worstFirst_isStableSort results
  · rw [Diagnosis.bucket_inLineOrder]
    constructor
    · exact fun h => h.unique (Diagnosis.messagesInLineOrder_isStableSort _)
    · rintro rfl
      exact Diagnosis.messagesInLineOrder_isStableSort _

end ApiLint
