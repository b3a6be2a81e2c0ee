import ApiLint.Proofs.Json.Spelling
import Mathlib.Tactic.IntervalCases

/-! The numbers of JSON. A number is read part by part, and what it stands for depends on its sign, its
whole part, its fraction and its exponent alone (`readNumber?_eq`). So what is read as a number is written
as one (`exists_number`), and a word is a name or a number (`exists_word`). -/
namespace ApiLint.Json

/-- The digits in front of the point: a zero stands alone. -/
def wholePart (body : List Char) : List Char :=
  match body with
  | '0' :: _ => ['0']
  | _ => body.takeWhile isDigit

theorem wholePart_prefix (body : List Char) : wholePart body <+: body := by
  unfold wholePart
  split
  · exact ⟨_, rfl⟩
  · exact List.takeWhile_prefix _

theorem isDigit_of_mem_wholePart {body : List Char} {c : Char} (h : c ∈ wholePart body) :
    isDigit c := by
  unfold wholePart at h
  split at h
  · rw [List.mem_singleton.1 h]
    rfl
  · exact List.mem_takeWhile_imp h

/-- The power of ten that an exponent stands for. -/
def powerOf : Option (Bool × List Char) → Int
  | none => 0
  | some (down, digits) =>
    let n := Numeral.ofDigits 10 (digitValues digits)
    if down then -n else n

/-- The number that its parts stand for. -/
def numberOf (negative : Bool) (whole fraction : List Char) (exponent : Option (Bool × List Char)) :
    Except Numeral.Fault Value :=
  if fraction.isEmpty && exponent.isNone then
    if Numeral.digitLimit < whole.length then .error (.tooLong whole.length)
    else
      let n := Numeral.ofDigits 10 (digitValues whole)
      .ok (.int (if negative then -n else n))
  else
    let x := Numeral.decimalSize (digitValues whole) (digitValues fraction) (powerOf exponent)
    .ok (.float (if negative then Numeral.negate x else x))

/-- The reader of numbers in three parts: the digits in front of the point, those behind it, and the
exponent. -/
theorem readNumber?_eq (negative : Bool) (body : List Char) :
    readNumber? negative body =
      if (wholePart body).isEmpty then none
      else
        let fraction := readFraction (body.drop (wholePart body).length)
        let exponent := readExponent fraction.2
        some (numberOf negative (wholePart body) fraction.1 exponent.1, exponent.2) := by
  have hparts : readNumber? negative body =
      if (wholePart body).isEmpty then none
      else
        let fraction := readFraction (body.drop (wholePart body).length)
        let exponent := readExponent fraction.2
        if fraction.1.isEmpty && exponent.1.isNone then
          if Numeral.digitLimit < (wholePart body).length then
            some (.error (.tooLong (wholePart body).length), exponent.2)
          else
            some (.ok (.int (if negative then -Numeral.ofDigits 10 (digitValues (wholePart body))
              else Numeral.ofDigits 10 (digitValues (wholePart body)))), exponent.2)
        else
          let x := Numeral.decimalSize (digitValues (wholePart body)) (digitValues fraction.1)
            (powerOf exponent.1)
          some (.ok (.float (if negative then Numeral.negate x else x)), exponent.2) := rfl
  rw [hparts]
  split
  · rfl
  · simp only [numberOf]
    split
    · split <;> rfl
    · rfl

/-! ### Numbers as they are written -/

/-- An exponent as it is written. -/
structure Exponent where
  letter : Char
  /-- The sign in front of the digits, which may be missing. -/
  sign : Option Char
  digits : List Char

namespace Exponent

def chars (e : Exponent) : List Char :=
  e.letter :: (e.sign.toList ++ e.digits)

/-- What an exponent is read to: whether it is negative, and its digits. -/
def parts (e : Exponent) : Bool × List Char :=
  (e.sign = some '-', e.digits)

/-- Whether an exponent is written as one of JSON is. -/
structure IsJson (e : Exponent) : Prop where
  letter : e.letter = 'e' ∨ e.letter = 'E'
  sign : ∀ c ∈ e.sign, c = '-' ∨ c = '+'
  nonempty : e.digits ≠ []
  digits : ∀ c ∈ e.digits, isDigit c = true

end Exponent

/-- A fraction with the point in front of it; without digits there is no point. -/
def pointed (fraction : List Char) : List Char :=
  if fraction.isEmpty then [] else '.' :: fraction

/-- A number as it is written. -/
structure Number where
  negative : Bool
  whole : List Char
  /-- The digits behind the point. -/
  fraction : List Char
  exponent : Option Exponent

namespace Number

/-- What comes behind the whole part. -/
def tail (n : Number) : List Char :=
  pointed n.fraction ++ (n.exponent.map Exponent.chars).getD []

/-- The number without its sign. -/
def size (n : Number) : List Char :=
  n.whole ++ n.tail

def chars (n : Number) : List Char :=
  if n.negative then '-' :: n.size else n.size

def value (n : Number) : Except Numeral.Fault Value :=
  numberOf n.negative n.whole n.fraction (n.exponent.map Exponent.parts)

/-- Whether a number is written as one of JSON is: a zero in front of the point stands alone. -/
structure IsJson (n : Number) : Prop where
  nonempty : n.whole ≠ []
  whole : ∀ c ∈ n.whole, isDigit c = true
  zero : ∀ more, n.whole = '0' :: more → more = []
  fraction : ∀ c ∈ n.fraction, isDigit c = true
  exponent : ∀ e ∈ n.exponent, e.IsJson

end Number

/-! ### Their characters -/

/-- What a number may be written with. -/
def numberChars : List Char :=
  ['0', '1', '2', '3', '4', '5', '6', '7', '8', '9', '+', '-', '.', 'e', 'E']

theorem mem_numberChars_of_isDigit {c : Char} (h : isDigit c = true) : c ∈ numberChars := by
  obtain ⟨hlow, hhigh⟩ := Bool.and_eq_true_iff.mp h
  rw [decide_eq_true_iff, Char.le_def, UInt32.le_iff_toNat_le] at hlow hhigh
  have hlow : 48 ≤ c.toNat := hlow
  have hhigh : c.toNat ≤ 57 := hhigh
  rw [← Char.ofNat_toNat c]
  generalize c.toNat = code at hlow hhigh
  interval_cases code <;> decide

namespace Number

variable {n : Number}

/-- What comes behind the whole part starts with a point or an exponent. -/
theorem IsJson.head?_tail (h : n.IsJson) : ∀ c ∈ n.tail.head?, c = '.' ∨ c = 'e' ∨ c = 'E' := by
  intro c hc
  cases hfraction : n.fraction with
  | nil =>
    cases hexponent : n.exponent with
    | none => simp [tail, pointed, hfraction, hexponent] at hc
    | some e =>
      have hletter := (h.exponent e hexponent).letter
      simp [tail, pointed, hfraction, hexponent, Exponent.chars] at hc
      exact .inr (hc ▸ hletter)
  | cons d fraction =>
    simp [tail, pointed, hfraction] at hc
    exact .inl hc.symm

/-- The whole part is the longest row of digits in front. -/
theorem IsJson.takeWhile_size {p : Char → Bool} (h : n.IsJson) (hdigit : ∀ c, isDigit c = true → p c = true)
    (hother : p '.' = false ∧ p 'e' = false ∧ p 'E' = false) :
    n.size.takeWhile p = n.whole ∧ n.size.dropWhile p = n.tail := by
  have hwhole : ∀ c ∈ n.whole, p c = true := fun c hc => hdigit c (h.whole c hc)
  have htail := h.head?_tail
  rw [size, List.takeWhile_append_of_pos hwhole, List.dropWhile_append_of_pos hwhole]
  generalize n.tail = tail at htail
  cases tail with
  | nil => exact ⟨List.append_nil _, rfl⟩
  | cons c tail =>
    have hc : p c = false := by
      obtain ⟨hpoint, hsmall, hlarge⟩ := hother
      obtain rfl | rfl | rfl := htail c rfl
      · exact hpoint
      · exact hsmall
      · exact hlarge
    simp [hc]

theorem IsJson.exists_digit (h : n.IsJson) :
    ∃ c more, n.size = c :: more ∧ isDigit c = true := by
  obtain ⟨c, digits, hwhole⟩ := List.exists_cons_of_ne_nil h.nonempty
  exact ⟨c, digits ++ n.tail, by rw [size, hwhole]; rfl, h.whole c (hwhole ▸ List.mem_cons_self)⟩

/-- A number is written with the characters of numbers only. -/
theorem IsJson.mem_size (h : n.IsJson) : ∀ c ∈ n.size, c ∈ numberChars := by
  have hdigits {cs : List Char} (hcs : ∀ c ∈ cs, isDigit c = true) : ∀ c ∈ cs, c ∈ numberChars :=
    fun c hc => mem_numberChars_of_isDigit (hcs c hc)
  simp only [size, tail, List.forall_mem_append]
  refine ⟨hdigits h.whole, ?_, ?_⟩
  · rw [pointed]
    split
    · exact List.forall_mem_nil _
    · exact List.forall_mem_cons.mpr ⟨by decide, hdigits h.fraction⟩
  · cases hexponent : n.exponent with
    | none => exact List.forall_mem_nil _
    | some e =>
      have he := h.exponent e hexponent
      simp only [Option.map_some, Option.getD_some, Exponent.chars, List.forall_mem_cons,
        List.forall_mem_append]
      refine ⟨?_, fun c hc => ?_, hdigits he.digits⟩
      · obtain hletter | hletter := he.letter <;> rw [hletter] <;> decide
      · obtain rfl | rfl := he.sign c (Option.mem_toList.mp hc) <;> decide

theorem IsJson.mem_chars (h : n.IsJson) : ∀ c ∈ n.chars, c ∈ numberChars := by
  rw [chars]
  split
  · exact List.forall_mem_cons.mpr ⟨by decide, h.mem_size⟩
  · exact h.mem_size

/-- The size of a number has no sign of its own. -/
theorem IsJson.splitSign_size (h : n.IsJson) : Numeral.splitSign n.size = (false, n.size) := by
  obtain ⟨c, more, hsize, hc⟩ := h.exists_digit
  rw [hsize]
  unfold Numeral.splitSign
  split
  · next heq =>
    obtain ⟨rfl, -⟩ := List.cons.inj heq
    exact absurd hc (by decide)
  · next heq =>
    obtain ⟨rfl, -⟩ := List.cons.inj heq
    exact absurd hc (by decide)
  · rfl

/-- The sign of a number is split off. -/
theorem IsJson.splitSign_chars (h : n.IsJson) : Numeral.splitSign n.chars = (n.negative, n.size) := by
  rw [chars]
  split
  · next hnegative =>
    rw [hnegative]
    rfl
  · next hpositive => rw [Bool.eq_false_iff.mpr hpositive, h.splitSign_size]

end Number

/-! ### What is read as a number -/

theorem zero_of_wholePart {body more : List Char} (h : wholePart body = '0' :: more) : more = [] := by
  unfold wholePart at h
  split at h
  · exact (List.cons.inj h).2.symm
  · next hnot =>
    have hprefix := List.takeWhile_prefix isDigit (l := body)
    rw [h] at hprefix
    obtain ⟨rest, hrest⟩ := hprefix
    exact absurd hrest.symm (hnot _)

/-- What the reader takes for a fraction is a point with digits, or nothing. -/
theorem readFraction_spells (cs : List Char) :
    cs = pointed (readFraction cs).1 ++ (readFraction cs).2 ∧
      ∀ c ∈ (readFraction cs).1, isDigit c = true := by
  unfold readFraction
  split
  · next rest =>
    dsimp only
    split
    · exact ⟨rfl, List.forall_mem_nil _⟩
    · next hne =>
      rw [pointed, if_neg hne]
      exact ⟨by simp, fun c hc => List.mem_takeWhile_imp hc⟩
  · exact ⟨rfl, List.forall_mem_nil _⟩

/-- A sign is split off from what comes behind it. -/
theorem splitSign_spells (cs : List Char) :
    ∃ sign : Option Char, cs = sign.toList ++ (Numeral.splitSign cs).2 ∧
      (Numeral.splitSign cs).1 = decide (sign = some '-') ∧ ∀ c ∈ sign, c = '-' ∨ c = '+' := by
  unfold Numeral.splitSign
  split
  · exact ⟨some '-', rfl, rfl, fun c hc => .inl (Option.some.inj hc).symm⟩
  · exact ⟨some '+', rfl, rfl, fun c hc => .inr (Option.some.inj hc).symm⟩
  · exact ⟨none, rfl, rfl, nofun⟩

/-- What the reader takes for an exponent is one, or nothing. -/
theorem readExponent_spells (cs : List Char) :
    ∃ e : Option Exponent, cs = (e.map Exponent.chars).getD [] ++ (readExponent cs).2 ∧
      (readExponent cs).1 = e.map Exponent.parts ∧ ∀ x ∈ e, x.IsJson := by
  unfold readExponent
  split
  · next c rest =>
    split
    · next hletter =>
      obtain ⟨sign, hrest, hdown, hsign⟩ := splitSign_spells rest
      generalize Numeral.splitSign rest = split at hrest hdown
      obtain ⟨down, body⟩ := split
      obtain rfl : rest = sign.toList ++ body := hrest
      obtain rfl : down = decide (sign = some '-') := hdown
      dsimp only
      split
      · exact ⟨none, rfl, rfl, nofun⟩
      · next hne =>
        refine ⟨some ⟨c, sign, body.takeWhile isDigit⟩, by simp [Exponent.chars], rfl, ?_⟩
        intro x hx
        obtain rfl := Option.some.inj hx
        exact ⟨hletter, hsign, fun hnil => hne (List.isEmpty_iff.mpr hnil),
          fun d hd => List.mem_takeWhile_imp hd⟩
    · exact ⟨none, rfl, rfl, nofun⟩
  · exact ⟨none, rfl, rfl, nofun⟩

/-- What is read as a number is written as one. -/
theorem exists_number {negative : Bool} {body rest : List Char} {r : Except Numeral.Fault Value}
    (h : readNumber? negative body = some (r, rest)) :
    ∃ n : Number, n.IsJson ∧ n.negative = negative ∧ body = n.size ++ rest ∧ r = n.value := by
  rw [readNumber?_eq] at h
  split at h
  · cases h
  · next hne =>
    obtain ⟨tail, hbody⟩ := wholePart_prefix body
    obtain ⟨htail, hfraction⟩ := readFraction_spells tail
    obtain ⟨e, hexponent, hparts, hjson⟩ := readExponent_spells (readFraction tail).2
    have hdrop : (wholePart body ++ tail).drop (wholePart body).length = tail := List.drop_left
    rw [hbody] at hdrop
    simp only [hdrop, hparts, Option.some.injEq, Prod.mk.injEq] at h
    obtain ⟨rfl, rfl⟩ := h
    refine ⟨⟨negative, wholePart body, (readFraction tail).1, e⟩, ⟨?_, ?_, ?_, hfraction, hjson⟩, rfl,
      ?_, rfl⟩
    · exact fun hnil => hne (List.isEmpty_iff.mpr hnil)
    · exact fun c hc => isDigit_of_mem_wholePart hc
    · exact fun more hmore => zero_of_wholePart hmore
    · rw [Number.size, Number.tail, List.append_assoc, List.append_assoc, ← hexponent, ← htail, hbody]

/-- A word is a name or a number. -/
theorem exists_word {cs rest : List Char} {v : Value}
    (h : readScalar? (cs ++ rest) = some (.ok v, rest)) :
    (cs, v) ∈ names ∨ ∃ n : Number, n.IsJson ∧ n.chars = cs ∧ n.value = .ok v := by
  unfold readScalar? at h
  split at h
  · next name w hfind =>
    have hprefix := List.find?_some hfind
    obtain ⟨more, hmore⟩ := List.isPrefixOf_iff_prefix.mp hprefix
    rw [← hmore, List.drop_left] at h
    obtain ⟨hv, rfl⟩ := Prod.mk.inj (Option.some.inj h)
    obtain rfl := Except.ok.inj hv
    obtain rfl := List.append_cancel_right hmore
    exact .inl (List.mem_of_find?_eq_some hfind)
  · split at h
    · next body heq =>
      obtain ⟨n, hn, hsign, hbody, hvalue⟩ := exists_number h
      refine .inr ⟨n, hn, ?_, hvalue.symm⟩
      rw [hbody, ← List.cons_append] at heq
      rw [Number.chars, hsign, if_pos rfl, List.append_cancel_right heq]
    · obtain ⟨n, hn, hsign, hbody, hvalue⟩ := exists_number h
      refine .inr ⟨n, hn, ?_, hvalue.symm⟩
      rw [Number.chars, hsign, if_neg Bool.false_ne_true, List.append_cancel_right hbody]

end ApiLint.Json
