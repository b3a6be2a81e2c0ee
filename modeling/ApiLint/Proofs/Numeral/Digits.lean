import ApiLint.Numeral.Reading
import Mathlib.Data.List.TakeWhile
import Mathlib.Tactic.SplitIfs

/-! Rows of digits. What counts as a digit is no blank, no sign and no letter, and so nothing in a row of
digits is dropped when it is read as a number. It can be read if all its digits are decimal and they are
not too many (`readInt_row`). -/
namespace ApiLint.Numeral

variable {c : Char} {cs : List Char} {d : Nat}

/-- The code points of all that counts as a digit. -/
def digitCodes : List Nat :=
  Text.decimalZeros.flatMap (List.range' · 10) ++
    Text.digitLikeRanges.flatMap fun range => List.range' range.1 (range.2 + 1 - range.1)

/-- Below the digits of all other scripts stand only those from zero to nine, and no digit is a blank. -/
theorem digitCodes_apart : ∀ n ∈ digitCodes,
    (0x30 ≤ n ∧ n ≤ 0x39 ∨ 0x80 ≤ n) ∧ Text.inRanges Text.blankRanges n = false := by
  decide +kernel

/-- A decimal digit stands at most nine places behind the zero of its script. -/
theorem exists_zero (h : Text.decimalValue? c = some d) :
    ∃ z ∈ Text.decimalZeros, z ≤ c.toNat ∧ c.toNat < z + 10 ∧ d = c.toNat - z := by
  rw [Text.decimalValue?] at h
  split at h
  · split at h
    · next hdigit =>
      obtain ⟨hlow, hhigh⟩ := hdigit
      rw [Char.le_def, UInt32.le_iff_toNat_le] at hlow hhigh
      exact ⟨0x30, List.mem_cons_self, hlow, Nat.lt_succ_of_le hhigh, (Option.some.inj h).symm⟩
    · cases h
  · obtain ⟨z, hfind, hd⟩ := Option.map_eq_some_iff.mp h
    have hz := List.find?_some hfind
    rw [Bool.and_eq_true, decide_eq_true_iff, decide_eq_true_iff] at hz
    exact ⟨z, List.mem_of_find?_eq_some hfind, hz.1, hz.2, hd.symm⟩

theorem lt_ten_of_decimalValue? (h : Text.decimalValue? c = some d) : d < 10 := by
  obtain ⟨z, -, hlow, hhigh, rfl⟩ := exists_zero h
  omega

/-- What counts as a digit is in the list of digits, so that it can be checked one by one. -/
theorem mem_digitCodes (h : Text.isDigitLike c = true) : c.toNat ∈ digitCodes := by
  obtain h | h := Bool.or_eq_true_iff.mp h
  · obtain ⟨d, hd⟩ := Option.isSome_iff_exists.mp h
    obtain ⟨z, hz, hlow, hhigh, -⟩ := exists_zero hd
    refine List.mem_append_left _ (List.mem_flatMap.mpr ⟨z, hz, ?_⟩)
    rw [List.mem_range'_1]
    exact ⟨hlow, hhigh⟩
  · obtain ⟨range, hrange, hmem⟩ := List.any_eq_true.mp h
    rw [Bool.and_eq_true, decide_eq_true_iff, decide_eq_true_iff] at hmem
    refine List.mem_append_right _ (List.mem_flatMap.mpr ⟨range, hrange, ?_⟩)
    rw [List.mem_range'_1]
    omega

/-- Where a digit stands among the characters. -/
theorem code_of_isDigitLike (h : Text.isDigitLike c = true) :
    0x30 ≤ c.toNat ∧ c.toNat ≤ 0x39 ∨ 0x80 ≤ c.toNat :=
  (digitCodes_apart _ (mem_digitCodes h)).1

theorem isOuterBlank_of_isDigitLike (h : Text.isDigitLike c = true) : isOuterBlank c = false := by
  obtain ⟨hcode, hrange⟩ := digitCodes_apart _ (mem_digitCodes h)
  have hblank : Text.isBlank c = false := by
    rw [Text.isBlank, hrange]
    simp only [Bool.or_eq_false_iff, Bool.and_eq_false_iff, decide_eq_false_iff_not, and_true]
    omega
  rw [isOuterBlank, hblank, Bool.false_and]

/-- Nothing is dropped where there is no blank. -/
theorem inner_eq_self (h : ∀ c ∈ cs, isOuterBlank c = false) : inner cs = cs := by
  have hdrop : ∀ ds : List Char, (∀ c ∈ ds, isOuterBlank c = false) →
      ds.dropWhile isOuterBlank = ds := by
    intro ds hds
    cases ds with
    | nil => rfl
    | cons c ds =>
      rw [List.dropWhile_cons, hds c List.mem_cons_self]
      rfl
  rw [inner, hdrop cs h, hdrop _ fun c hc => h c (List.mem_reverse.mp hc), List.reverse_reverse]

theorem inner_of_isDigitLike (h : ∀ c ∈ cs, Text.isDigitLike c = true) : inner cs = cs :=
  inner_eq_self fun c hc => isOuterBlank_of_isDigitLike (h c hc)

theorem splitSign_of_isDigitLike (h : ∀ c ∈ cs, Text.isDigitLike c = true) :
    splitSign cs = (false, cs) := by
  unfold splitSign
  split
  · exact absurd (h _ List.mem_cons_self) (by decide)
  · exact absurd (h _ List.mem_cons_self) (by decide)
  · rfl

theorem dropBaseMark_ten (cs : List Char) : dropBaseMark 10 cs = cs := by
  unfold dropBaseMark
  split
  · rw [if_neg (by simp [baseLetter])]
  · rfl

/-- Letters are digits of larger bases only. -/
theorem digitValue?_of_isDigitLike (h : Text.isDigitLike c = true) :
    digitValue? 10 c = Text.decimalValue? c := by
  rw [digitValue?]
  cases hvalue : Text.decimalValue? c with
  | some d => exact if_pos (lt_ten_of_decimalValue? hvalue)
  | none =>
    have hcode := code_of_isDigitLike h
    rw [if_neg, if_neg]
    · rfl
    · rintro ⟨hlow, hhigh⟩
      rw [Char.le_def, UInt32.le_iff_toNat_le] at hlow hhigh
      change 0x41 ≤ c.toNat at hlow
      change c.toNat ≤ 0x5A at hhigh
      omega
    · rintro ⟨hlow, hhigh⟩
      rw [Char.le_def, UInt32.le_iff_toNat_le] at hlow hhigh
      change 0x61 ≤ c.toNat at hlow
      change c.toNat ≤ 0x7A at hhigh
      omega

/-- A row of digits is read digit by digit. -/
theorem digitsOf?_of_isDigitLike {afterDigit : Bool} (h : ∀ c ∈ cs, Text.isDigitLike c = true)
    (hcase : afterDigit = true ∨ cs ≠ []) : digitsOf? 10 afterDigit cs = cs.mapM Text.decimalValue? := by
  induction cs generalizing afterDigit with
  | nil =>
    obtain rfl | hne := hcase
    · rfl
    · exact absurd rfl hne
  | cons c cs ih =>
    obtain ⟨hc, hcs⟩ := List.forall_mem_cons.mp h
    have hlow : c ≠ '_' := by
      rintro rfl
      exact absurd hc (by decide)
    rw [digitsOf?, digitValue?_of_isDigitLike hc, ih hcs (.inl rfl), List.mapM_cons]
    exact hlow

/-- What is read of a row of digits: nothing if one of them is not decimal, and a number unless they are
too many. -/
theorem readInt_row (hne : cs ≠ []) (h : ∀ c ∈ cs, Text.isDigitLike c = true) :
    readInt 10 (Text.ofChars cs) =
      match cs.mapM Text.decimalValue? with
      | none => .error (.notWhole 10 (Text.ofChars cs))
      | some digits =>
        if digitLimit < digits.length then .error (.tooLong digits.length)
        else .ok (ofDigits 10 digits) := by
  have hsigned : signedDigits? 10 (Text.ofChars cs) =
      (cs.mapM Text.decimalValue?).map fun digits => (false, digits) := by
    simp only [signedDigits?, Text.chars?_ofChars, Option.bind_eq_bind, Option.bind_some,
      inner_of_isDigitLike h, splitSign_of_isDigitLike h, dropBaseMark_ten,
      digitsOf?_of_isDigitLike h (.inr hne)]
    cases cs.mapM Text.decimalValue? <;> rfl
  rw [readInt, hsigned]
  cases cs.mapM Text.decimalValue? with
  | none => rfl
  | some digits =>
    simp only [Option.map_some, true_and]
    rfl

/-- A row of digits that cannot be read as a number, and what is wrong with it. -/
inductive Unreadable (cs : List Char) : Fault → Prop
  | strange (h : ∃ c ∈ cs, Text.decimalValue? c = none) :
      Unreadable cs (.notWhole 10 (Text.ofChars cs))
  | long (h : ∀ c ∈ cs, Text.decimalValue? c ≠ none) (hlong : digitLimit < cs.length) :
      Unreadable cs (.tooLong cs.length)

/-- Either some digit has no value, or all have one. -/
theorem mapM_decimalValue?_cases (cs : List Char) :
    cs.mapM Text.decimalValue? = none ∧ (∃ c ∈ cs, Text.decimalValue? c = none) ∨
      ∃ digits, cs.mapM Text.decimalValue? = some digits ∧ digits.length = cs.length ∧
        ∀ c ∈ cs, Text.decimalValue? c ≠ none := by
  induction cs with
  | nil => exact .inr ⟨[], rfl, rfl, List.forall_mem_nil _⟩
  | cons c cs ih =>
    rw [List.mapM_cons]
    cases hc : Text.decimalValue? c with
    | none => exact .inl ⟨rfl, c, List.mem_cons_self, hc⟩
    | some d =>
      obtain ⟨hnone, x, hx, hvalue⟩ | ⟨digits, hdigits, hlength, hall⟩ := ih
      · rw [hnone]
        exact .inl ⟨rfl, x, List.mem_cons_of_mem c hx, hvalue⟩
      · rw [hdigits]
        refine .inr ⟨d :: digits, rfl, congrArg (· + 1) hlength, List.forall_mem_cons.mpr ⟨?_, hall⟩⟩
        rw [hc]
        exact Option.some_ne_none d

/-- The rows of digits that are not read. -/
theorem readInt_row_eq_error {fault : Fault} (hne : cs ≠ [])
    (h : ∀ c ∈ cs, Text.isDigitLike c = true) :
    readInt 10 (Text.ofChars cs) = .error fault ↔ Unreadable cs fault := by
  rw [readInt_row hne h]
  obtain ⟨hnone, hstrange⟩ | ⟨digits, hdigits, hlength, hall⟩ := mapM_decimalValue?_cases cs
  · rw [hnone]
    constructor
    · rintro ⟨⟩
      exact .strange hstrange
    · intro hunreadable
      cases hunreadable with
      | strange => rfl
      | long hdecimal =>
        obtain ⟨c, hc, hvalue⟩ := hstrange
        exact absurd hvalue (hdecimal c hc)
  · have hdecimal : ¬∃ c ∈ cs, Text.decimalValue? c = none :=
      fun ⟨c, hc, hvalue⟩ => hall c hc hvalue
    simp only [hdigits, hlength]
    split
    · next hlong =>
      constructor
      · rintro ⟨⟩
        exact .long hall hlong
      · intro hunreadable
        cases hunreadable with
        | strange hstrange => exact absurd hstrange hdecimal
        | long => rfl
    · next hshort =>
      refine ⟨nofun, fun hunreadable => ?_⟩
      cases hunreadable with
      | strange hstrange => exact absurd hstrange hdecimal
      | long _ hlong => exact absurd hlong hshort

end ApiLint.Numeral
