import ApiLint.Json.Reader
import ApiLint.Proofs.Except
import ApiLint.Text.Blank
import Mathlib.Data.List.TakeWhile

/-! A text of blanks alone is no JSON: no blank starts a value. -/
namespace ApiLint

/-- A text that trimming leaves nothing of consists of blanks. -/
theorem Text.all_blank_of_trimmed {t : Text} (h : (trimmed t).isEmpty = true) :
    ∀ c ∈ t, c.isA isBlank = true := by
  rw [trimmed, List.isEmpty_iff, List.reverse_eq_nil_iff, List.dropWhile_eq_nil_iff] at h
  have hany : (t.dropWhile (·.isA isBlank)).any (fun c => !c.isA isBlank) = false := by
    rw [List.any_eq_false]
    intro c hc
    rw [h c (List.mem_reverse.mpr hc)]
    decide
  rwa [List.any_dropWhile, Bool.not_eq_false', List.all_eq_true] at hany

namespace Json

/-- The characters that a value without parts can start with, besides digits. -/
def starts : List Char := ['n', 't', 'f', 'N', 'I', '-']

theorem isDigit_of_blank {c : Char} (h : Text.isBlank c = true) : isDigit c = false := by
  simp only [Text.isBlank, Text.inRanges, Text.blankRanges, List.any_cons, List.any_nil,
    Bool.or_eq_true, Bool.and_eq_true, decide_eq_true_iff, Bool.or_false] at h
  simp only [isDigit, Bool.and_eq_false_iff, decide_eq_false_iff_not, Char.le_def,
    UInt32.le_iff_toNat_le]
  have h0 : '0'.val.toNat = 0x30 := rfl
  have h9 : '9'.val.toNat = 0x39 := rfl
  have hc : c.val.toNat = c.toNat := rfl
  omega

theorem not_mem_starts_of_blank {c : Char} (h : Text.isBlank c = true) : c ∉ starts := by
  intro hc
  have hall : starts.all (fun d => !Text.isBlank d) = true := by decide
  have hblank := List.all_eq_true.mp hall c hc
  rw [h] at hblank
  cases hblank

/-- No name starts with a blank. -/
theorem names_blank {c : Char} (cs : List Char) (h : c ∉ starts) :
    names.find? (fun name => name.1.isPrefixOf (c :: cs)) = none := by
  have hnames : ∀ name ∈ names, ∃ d ∈ starts, name.1.head? = some d := by
    simp [names, starts]
  rw [List.find?_eq_none]
  intro entry hname hmatch
  obtain ⟨name, v⟩ := entry
  obtain ⟨d, hd, hhead⟩ := hnames _ hname
  cases name with
  | nil => cases hhead
  | cons e es =>
    simp only [List.head?_cons, Option.some.injEq] at hhead
    simp only [List.isPrefixOf_cons_cons, Bool.and_eq_true, beq_iff_eq] at hmatch
    exact h (hmatch.1 ▸ hhead ▸ hd)

/-- Nothing that is read as a word or a number starts with a blank. -/
theorem readScalar?_blank {c : Char} (cs : List Char) (h : Text.isBlank c = true) :
    readScalar? (c :: cs) = none := by
  have hstart := not_mem_starts_of_blank h
  unfold readScalar?
  rw [names_blank cs hstart]
  dsimp only
  split
  · next heq =>
    cases heq
    exact absurd (by decide) hstart
  · have hzero : c ≠ '0' := by
      intro heq
      obtain rfl := heq
      cases isDigit_of_blank h
    simp [readNumber?, isDigit_of_blank h, hzero]

theorem readScalar_blank {t : Text} (h : ∀ c ∈ t, c.isA Text.isBlank = true)
    (v : Value) (rest : Text) : readScalar t ≠ .ok (v, rest) := by
  have hnone : readScalar? t.leadingChars = none := by
    cases t with
    | nil => rfl
    | cons c t =>
      cases c with
      | half offset => rfl
      | char c => exact readScalar?_blank _ (h _ List.mem_cons_self)
  rw [readScalar, hnone]
  exact nofun

theorem readValue_blank {t : Text} (h : ∀ c ∈ t, c.isA Text.isBlank = true) (fuel : Nat)
    (v : Value) (rest : Text) : readValue fuel t ≠ .ok (v, rest) := by
  cases fuel with
  | zero => exact nofun
  | succ fuel =>
    unfold readValue
    split
    · exact absurd (h _ List.mem_cons_self) (by decide)
    · exact absurd (h _ List.mem_cons_self) (by decide)
    · exact absurd (h _ List.mem_cons_self) (by decide)
    · exact readScalar_blank h v rest

/-- A text that reads as JSON is not blank. -/
theorem not_trimmed_of_read {t : Text} {v : Value} (h : read t = .ok v) :
    (Text.trimmed t).isEmpty = false := by
  by_contra hblank
  rw [Bool.not_eq_false] at hblank
  have hall : ∀ c ∈ skipSpace t, c.isA Text.isBlank = true := fun c hc =>
    Text.all_blank_of_trimmed hblank c (List.dropWhile_subset _ hc)
  replace h := Except.mapError_ok_iff.mp h
  unfold readAll at h
  split at h
  · cases h
  · split at h
    · cases h
    · next hread => exact readValue_blank hall _ _ _ hread

end Json

end ApiLint
