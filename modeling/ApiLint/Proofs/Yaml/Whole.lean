import ApiLint.Proofs.Numeral.Decimal
import ApiLint.Value.Display
import ApiLint.Yaml.Scalar

/-! Whole numbers as YAML scalars. A text that a whole number is written as is a scalar of the kind
of whole numbers, and unless it has more digits than may be read it stands for that number. -/
namespace ApiLint

open Numeral (isDigit_iff)

def Numeral.decimal (n : Int) : List Char :=
  if 0 ≤ n then Nat.toDigits 10 n.natAbs else '-' :: Nat.toDigits 10 n.natAbs

namespace Numeral

theorem isDigit_of_mem_toDigits {n : Nat} {c : Char} (h : c ∈ Nat.toDigits 10 n) :
    c.isDigit = true :=
  Nat.isDigit_of_mem_toDigits (by decide) (by decide) h

/-- Only the numeral of zero starts with a zero. -/
theorem head_toDigits_ne_zero {n : Nat} (hn : 0 < n) :
    ∀ c cs, Nat.toDigits 10 n = c :: cs → c ≠ '0' := by
  induction n using Nat.strongRecOn with
  | _ n ih =>
    intro c cs h
    by_cases hten : n < 10
    · rw [Nat.toDigits_of_lt_base hten] at h
      obtain ⟨rfl, -⟩ := List.cons.inj h
      have hall : ∀ m < 10, 0 < m → Nat.digitChar m ≠ '0' := by decide
      exact hall n hten hn
    · rw [Nat.toDigits_of_base_le (by decide) (by omega)] at h
      cases hfront : Nat.toDigits 10 (n / 10) with
      | nil => exact absurd hfront Nat.toDigits_ne_nil
      | cons d ds =>
        rw [hfront, List.cons_append] at h
        obtain ⟨rfl, -⟩ := List.cons.inj h
        exact ih (n / 10) (by omega) (by omega) d ds hfront

theorem mem_decimal {n : Int} {c : Char} (h : c ∈ decimal n) : c.isDigit = true ∨ c = '-' := by
  rw [decimal] at h
  split at h
  · exact .inl (isDigit_of_mem_toDigits h)
  · obtain rfl | h := List.mem_cons.mp h
    · exact .inr rfl
    · exact .inl (isDigit_of_mem_toDigits h)

/-- Every numeral has a digit. -/
theorem exists_digit_mem_decimal (n : Int) : ∃ c ∈ decimal n, c.isDigit = true := by
  obtain ⟨c, hc⟩ := List.exists_mem_of_ne_nil _ (Nat.toDigits_ne_nil (n := n.natAbs) (b := 10))
  refine ⟨c, ?_, isDigit_of_mem_toDigits hc⟩
  rw [decimal]
  split
  · exact hc
  · exact List.mem_cons_of_mem _ hc

theorem splitSign_decimal (n : Int) :
    splitSign (decimal n) = (decide (n < 0), Nat.toDigits 10 n.natAbs) := by
  rw [decimal]
  split
  · next h =>
    rw [splitSign_of_isDigit fun c hc => isDigit_of_mem_toDigits hc,
      decide_eq_false (Int.not_lt.mpr h)]
  · next h => rw [splitSign, decide_eq_true (Int.not_le.mp h)]

end Numeral

theorem Numeral.length_toDigits_le_iff {n k : Nat} (hk : 0 < k) :
    (Nat.toDigits 10 n).length ≤ k ↔ n < tenTo k :=
  Nat.length_toDigits_le_iff (by decide) hk

theorem Value.text_int (n : Int) : (Value.int n).text = Text.ofChars (Numeral.decimal n) := by
  show Text.ofString (toString n) = _
  rw [Text.ofString, Int.toString_eq_repr, Int.repr_eq_if, Numeral.decimal]
  split
  · next h => rw [Nat.toList_repr, show n.toNat = n.natAbs by omega]
  · next h =>
    rw [String.toList_append, Nat.toList_repr, show (-n).toNat = n.natAbs by omega]
    rfl

namespace Yaml

open Numeral (decimal)

theorem withoutLineEnd_of_not_mem {cs : List Char} (h : '\n' ∉ cs) :
    withoutLineEnd (Text.ofChars cs) = Text.ofChars cs := by
  rw [withoutLineEnd, if_neg]
  intro hlast
  obtain ⟨c, hc, hnewline⟩ := List.mem_map.mp (List.mem_of_getLast? hlast)
  exact h (CodePoint.char.inj hnewline ▸ hc)

/-- Whether no word has a digit. -/
def areDigitless (words : List String) : Bool :=
  words.all fun w => w.toList.all (!·.isDigit)

/-- A text with a digit is none of the words without. -/
theorem not_mem_of_digit {cs : List Char} (h : ∃ c ∈ cs, c.isDigit = true) {words : List String}
    (hwords : areDigitless words = true) : String.ofList cs ∉ words := by
  obtain ⟨c, hc, hdigit⟩ := h
  intro hmem
  have hnone := List.all_eq_true.mp (List.all_eq_true.mp hwords _ hmem) c
    (by rwa [String.toList_ofList])
  rw [hdigit] at hnone
  cases hnone

/-- No truth value has a digit. -/
theorem isTruth_of_digit {cs : List Char} (h : ∃ c ∈ cs, c.isDigit = true) :
    isTruth (String.ofList cs) = false := by
  have hwords : truthWords.all (fun w => areDigitless (spellings w.1)) = true := by decide +kernel
  rw [isTruth, List.any_eq_false]
  intro w hw hs
  exact not_mem_of_digit h (List.all_eq_true.mp hwords w hw) (of_decide_eq_true hs)

theorem isDigit_eq (c : Char) : isDigit c = c.isDigit := rfl

theorem dropWhile_isDigitOrLow {cs : List Char} (h : ∀ c ∈ cs, c.isDigit = true) :
    cs.dropWhile isDigitOrLow = [] := by
  rw [List.dropWhile_eq_nil_iff]
  intro c hc
  rw [isDigitOrLow, isDigit_eq, h c hc, Bool.true_or]

theorem unsigned_decimal (n : Int) : unsigned (decimal n) = Nat.toDigits 10 n.natAbs := by
  rw [unsigned, Numeral.splitSign_decimal]

/-- A whole number is none with a point to YAML. -/
theorem isDecimal_decimal (n : Int) : isDecimal (decimal n) = false := by
  have hdigits : ∀ c ∈ Nat.toDigits 10 n.natAbs, c.isDigit = true := fun c hc =>
    Numeral.isDigit_of_mem_toDigits hc
  have hpoint : '.' ∉ decimal n := fun h => absurd (Numeral.mem_decimal h) (by decide)
  obtain ⟨d, hd⟩ := List.exists_mem_of_ne_nil _ (Nat.toDigits_ne_nil (n := n.natAbs) (b := 10))
  have hinfinite : String.ofList (Nat.toDigits 10 n.natAbs) ∉ [".inf", ".Inf", ".INF"] :=
    not_mem_of_digit ⟨d, hd, hdigits d hd⟩ (by decide)
  have hnan : String.ofList (decimal n) ∉ [".nan", ".NaN", ".NAN"] :=
    not_mem_of_digit (Numeral.exists_digit_mem_decimal n) (by decide)
  unfold isDecimal
  rw [unsigned_decimal]
  simp only [if_neg hinfinite, if_neg hnan]
  split
  · next heq => exact absurd (heq ▸ List.mem_cons_self) hpoint
  · next c rest heq _ =>
    rw [dropWhile_isDigitOrLow fun d hd => hdigits d (heq ▸ List.mem_cons_of_mem c hd)]
    rfl
  · rfl

/-- What is written for a whole number is one to YAML. -/
theorem isWhole_decimal (n : Int) : isWhole (decimal n) = true := by
  by_cases hzero : n.natAbs = 0
  · rw [isWhole, unsigned_decimal, hzero]
    rfl
  · have hhead := Numeral.head_toDigits_ne_zero (Nat.pos_of_ne_zero hzero)
    unfold isWhole
    rw [unsigned_decimal]
    split
    · next heq => exact absurd rfl (hhead _ _ heq)
    · next heq => exact absurd rfl (hhead _ _ heq)
    · next heq => exact absurd rfl (hhead _ _ heq)
    · next heq => exact absurd rfl (hhead _ _ heq)
    · next c rest _ _ _ _ heq =>
      have hdigits : ∀ d ∈ c :: rest, d.isDigit = true := fun d hd =>
        Numeral.isDigit_of_mem_toDigits (heq ▸ hd)
      rw [isDigit_eq, hdigits c List.mem_cons_self,
        dropWhile_isDigitOrLow fun d hd => hdigits d (List.mem_cons_of_mem c hd)]
      rfl
    · next heq => exact absurd heq Nat.toDigits_ne_nil

/-- A text that a whole number is written as means a whole number. -/
theorem kindOfText_int (n : Int) : kindOfText (Value.int n).text = .int := by
  have hempty : (decimal n).isEmpty = false := by
    obtain ⟨c, hc, -⟩ := Numeral.exists_digit_mem_decimal n
    exact List.isEmpty_eq_false_iff_exists_mem.mpr ⟨c, hc⟩
  have hline : '\n' ∉ decimal n := fun h => absurd (Numeral.mem_decimal h) (by decide)
  have htruth := isTruth_of_digit (Numeral.exists_digit_mem_decimal n)
  rw [Value.text_int, kindOfText, withoutLineEnd_of_not_mem hline, Text.chars?_ofChars]
  simp only [hempty, kindOfLine, htruth, isDecimal_decimal, isWhole_decimal,
    Bool.false_and, Bool.false_eq_true, if_false, if_true]

/-- A row of digits without a leading zero is read to the base ten. -/
theorem unsignedWhole_row {cs : List Char} (hne : cs ≠ []) (h : ∀ c ∈ cs, c.isDigit = true)
    (hzero : ∀ more, cs = '0' :: more → more = []) :
    unsignedWhole (Text.ofChars cs) =
      if Numeral.digitLimit < cs.length then .error (.number (.tooLong cs.length))
      else .ok (Numeral.ofDigits 10 (cs.map fun c => c.toNat - '0'.toNat)) := by
  have hten : wholeIn 10 (Text.ofChars cs) =
      if Numeral.digitLimit < cs.length then .error (.number (.tooLong cs.length))
      else .ok (Numeral.ofDigits 10 (cs.map fun c => c.toNat - '0'.toNat)) := by
    rw [wholeIn, Numeral.readInt_decimal hne h]
    split <;> rfl
  have hcolon : (Text.ofChars cs).contains ':' = false := by
    rw [List.contains_eq_any_beq, List.any_eq_false]
    intro c hc heq
    obtain ⟨d, hd, rfl⟩ := List.mem_map.mp hc
    obtain rfl := CodePoint.char.inj (beq_iff_eq.mp heq)
    exact absurd (h _ hd) (by decide)
  have hstart : ∀ t, Text.ofChars cs = .char '0' :: t → t = [] := by
    intro t ht
    obtain ⟨c, more, rfl, hc, rfl⟩ := List.map_eq_cons_iff.mp ht
    obtain rfl := CodePoint.char.inj hc
    rw [hzero more rfl]
    rfl
  unfold unsignedWhole
  split
  · next heq => exact absurd (List.map_eq_nil_iff.mp heq) hne
  · next heq =>
    obtain ⟨c, more, rfl, hc, hmore⟩ := List.map_eq_cons_iff.mp heq
    obtain rfl := CodePoint.char.inj hc
    obtain rfl := List.map_eq_nil_iff.mp hmore
    rfl
  · next heq => cases hstart _ heq
  · next heq => cases hstart _ heq
  · next hne _ _ heq => exact absurd (hstart _ heq) hne
  · rw [hcolon]
    exact hten

/-- Decimal digits are read to their number, unless there are too many. -/
theorem unsignedWhole_digits (n : Nat) :
    unsignedWhole (Text.ofChars (Nat.toDigits 10 n)) =
      if Numeral.digitLimit < (Nat.toDigits 10 n).length then
        .error (.number (.tooLong (Nat.toDigits 10 n).length))
      else .ok n := by
  have hzero : ∀ more, Nat.toDigits 10 n = '0' :: more → more = [] := by
    intro more hmore
    obtain rfl | hpos := Nat.eq_zero_or_pos n
    · exact (List.cons.inj hmore).2.symm
    · exact absurd rfl (Numeral.head_toDigits_ne_zero hpos _ _ hmore)
  rw [unsignedWhole_row Nat.toDigits_ne_nil (fun c hc => Numeral.isDigit_of_mem_toDigits hc) hzero,
    Numeral.ofDigits_map, Nat.ofDigitChars_ten_toDigits]

/-- A sign is split off a text as it is off its characters. -/
theorem splitSign_ofChars (cs : List Char) :
    splitSign (Text.ofChars cs) =
      ((Numeral.splitSign cs).1, Text.ofChars (Numeral.splitSign cs).2) := by
  unfold Numeral.splitSign
  split
  · rfl
  · rfl
  · next hminus hplus =>
    unfold splitSign
    split
    · next heq =>
      obtain ⟨c, more, rfl, hc, -⟩ := List.map_eq_cons_iff.mp heq
      exact absurd (congrArg (· :: more) (CodePoint.char.inj hc)) (hminus more)
    · next heq =>
      obtain ⟨c, more, rfl, hc, -⟩ := List.map_eq_cons_iff.mp heq
      exact absurd (congrArg (· :: more) (CodePoint.char.inj hc)) (hplus more)
    · rfl

theorem filter_ofChars {cs : List Char} (h : '_' ∉ cs) :
    (Text.ofChars cs).filter (· ≠ .char '_') = Text.ofChars cs := by
  rw [List.filter_eq_self]
  intro c hc
  obtain ⟨d, hd, rfl⟩ := List.mem_map.mp hc
  exact decide_eq_true fun heq => h (CodePoint.char.inj heq ▸ hd)

/-- It stands for that number, if it has no more digits than may be read. -/
theorem readWhole_int (n : Int) :
    readWhole (Value.int n).text =
      if Numeral.digitLimit < (Nat.toDigits 10 n.natAbs).length then
        .error (.number (.tooLong (Nat.toDigits 10 n.natAbs).length))
      else .ok n := by
  have hlow : '_' ∉ decimal n := fun h => absurd (Numeral.mem_decimal h) (by decide)
  rw [readWhole, Value.text_int, filter_ofChars hlow, splitSign_ofChars, Numeral.splitSign_decimal]
  simp only [unsignedWhole_digits]
  by_cases hlong : Numeral.digitLimit < (Nat.toDigits 10 n.natAbs).length
  · simp only [if_pos hlong]
    rfl
  · simp only [if_neg hlong, Except.map, Except.ok.injEq, decide_eq_true_iff]
    omega

/-- A whole number that was read from what it is written as can be written. -/
theorem readWhole_int_eq_ok {n m : Int} (h : readWhole (Value.int n).text = .ok m) :
    m = n ∧ (Value.int n).hasLongNumeral = false := by
  rw [readWhole_int] at h
  split at h
  · cases h
  · next hshort =>
    refine ⟨(Except.ok.inj h).symm, ?_⟩
    have hwritable := (Numeral.length_toDigits_le_iff (by decide)).mp (Nat.not_lt.mp hshort)
    rw [Value.hasLongNumeral, Value.writableLimit]
    exact decide_eq_false (Nat.not_le.mpr hwritable)

end Yaml

end ApiLint
