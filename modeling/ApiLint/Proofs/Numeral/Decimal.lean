import ApiLint.Proofs.Numeral.Digits
import Mathlib.Data.Nat.Notation

/-! Decimal numerals. What a number is written as reads back as the number, unless it has more digits
than may be read (`readInt_digits`). -/
namespace ApiLint.Numeral

theorem isDigit_iff {c : Char} : c.isDigit = true ↔ 0x30 ≤ c.toNat ∧ c.toNat ≤ 0x39 := by
  simp only [Char.isDigit, Bool.and_eq_true, decide_eq_true_iff, ge_iff_le,
    UInt32.le_iff_toNat_le]
  rfl

/-- A digit between zero and nine is the digit of its value. -/
theorem decimalValue?_of_isDigit {c : Char} (h : c.isDigit = true) :
    Text.decimalValue? c = some (c.toNat - '0'.toNat) := by
  obtain ⟨hlow, hhigh⟩ := isDigit_iff.mp h
  rw [Text.decimalValue?, if_pos (by omega), if_pos]
  · rfl
  · simp only [Char.le_def, UInt32.le_iff_toNat_le]
    exact ⟨hlow, hhigh⟩

theorem isDigitLike_of_isDigit {c : Char} (h : c.isDigit = true) : Text.isDigitLike c = true := by
  rw [Text.isDigitLike, decimalValue?_of_isDigit h]
  rfl

theorem mapM_decimalValue? {cs : List Char} (h : ∀ c ∈ cs, c.isDigit = true) :
    cs.mapM Text.decimalValue? = some (cs.map fun c => c.toNat - '0'.toNat) := by
  induction cs with
  | nil => rfl
  | cons c cs ih =>
    obtain ⟨hc, hcs⟩ := List.forall_mem_cons.mp h
    rw [List.mapM_cons, decimalValue?_of_isDigit hc, ih hcs]
    rfl

theorem ofDigits_map (cs : List Char) :
    ofDigits 10 (cs.map fun c => c.toNat - '0'.toNat) = Nat.ofDigitChars 10 cs 0 := by
  rw [ofDigits, List.foldl_map, Nat.ofDigitChars_eq_foldl]
  simp only [Nat.mul_comm]

theorem splitSign_of_isDigit {cs : List Char} (h : ∀ c ∈ cs, c.isDigit = true) :
    splitSign cs = (false, cs) :=
  splitSign_of_isDigitLike fun c hc => isDigitLike_of_isDigit (h c hc)

/-- A row of decimal digits is read as their number, unless they are too many. -/
theorem readInt_decimal {cs : List Char} (hne : cs ≠ []) (h : ∀ c ∈ cs, c.isDigit = true) :
    readInt 10 (Text.ofChars cs) =
      if digitLimit < cs.length then .error (.tooLong cs.length)
      else .ok (ofDigits 10 (cs.map fun c => c.toNat - '0'.toNat)) := by
  rw [readInt_row hne fun c hc => isDigitLike_of_isDigit (h c hc), mapM_decimalValue? h]
  simp only [List.length_map]

/-- What a whole number is written as reads back as the number. -/
theorem readInt_digits (n : Nat) :
    readInt 10 (Text.ofChars (Nat.toDigits 10 n)) =
      if digitLimit < (Nat.toDigits 10 n).length then
        .error (.tooLong (Nat.toDigits 10 n).length)
      else .ok n := by
  have hdigits : ∀ c ∈ Nat.toDigits 10 n, c.isDigit = true := fun c hc =>
    Nat.isDigit_of_mem_toDigits (by decide) (by decide) hc
  rw [readInt_decimal Nat.toDigits_ne_nil hdigits, ofDigits_map, Nat.ofDigitChars_ten_toDigits]

/-- Digits are taken up to what is none. -/
theorem spanDigits_append {cs rest : List Char} (afterDigit : Bool) (h : ∀ c ∈ cs, c.isDigit = true)
    (hrest : ∀ c ∈ rest.head?, c ≠ '_' ∧ Text.decimalValue? c = none) :
    spanDigits afterDigit (cs ++ rest) = (cs.map fun c => c.toNat - '0'.toNat, rest) := by
  induction cs generalizing afterDigit with
  | nil =>
    cases rest with
    | nil => rfl
    | cons c rest =>
      obtain ⟨hlow, hvalue⟩ := hrest c rfl
      rw [List.nil_append, spanDigits, hvalue]
      · rfl
      · exact fun _ _ heq => absurd heq hlow
  | cons c cs ih =>
    obtain ⟨hc, hcs⟩ := List.forall_mem_cons.mp h
    rw [List.cons_append, spanDigits, decimalValue?_of_isDigit hc, ih true hcs]
    · rfl
    · intro _ _ hlow
      obtain rfl := hlow
      exact absurd hc (by decide)

end ApiLint.Numeral
