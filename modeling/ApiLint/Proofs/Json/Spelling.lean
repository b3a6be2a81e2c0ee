import ApiLint.Proofs.Json.Phrase
import ApiLint.Proofs.Json.Strings
import Mathlib.Algebra.Group.Nat.Defs
import Mathlib.Data.List.TakeWhile

/-! Whatever is read as JSON is written as JSON is: a text that has a value is a phrase between blanks,
and its value is that of the phrase (`read_eq_ok`). The induction is on the steps of the readers, which
are called on the rest of a text and leave a rest of their own. -/
namespace ApiLint

/-! ### Code points -/

namespace CodePoint

theorem code_ofCode {code : Nat} (h : code < 0x110000) : (ofCode code).code = code := by
  unfold ofCode
  split
  · next hhalf => exact Nat.add_sub_cancel' hhalf.1
  · next hnot =>
    have hvalid : code.isValidChar := by
      simp only [firstHalf] at hnot
      simp only [Nat.isValidChar]
      omega
    rw [CodePoint.code, Char.ofNat, dif_pos hvalid]
    rfl

end CodePoint

namespace Text

/-- A hexadecimal digit is less than 16. -/
theorem hexValue?_lt {c : Char} {n : Nat} (h : hexValue? c = some n) : n < 16 := by
  have h9 : '9'.val.toNat = 0x39 := rfl
  have hf : 'f'.val.toNat = 0x66 := rfl
  have hF : 'F'.val.toNat = 0x46 := rfl
  have hc : c.val.toNat = c.toNat := rfl
  simp only [hexValue?, Char.le_def, UInt32.le_iff_toNat_le] at h
  split at h
  · obtain rfl := Option.some.inj h
    omega
  · split at h
    · obtain rfl := Option.some.inj h
      omega
    · split at h
      · obtain rfl := Option.some.inj h
        omega
      · cases h

/-- Digits that are read behind others: each of them has a value, and the number is less than the
next one that has as many digits behind the same ones. -/
theorem hexNumber?_behind {digits : List Char} {start n : Nat}
    (h : digits.foldl (fun n c => do return (← n) * 16 + (← hexValue? c)) (some start) = some n) :
    (∀ c ∈ digits, (hexValue? c).isSome = true) ∧ n < (start + 1) * 16 ^ digits.length := by
  induction digits generalizing start with
  | nil =>
    obtain rfl := Option.some.inj h
    exact ⟨nofun, by simp⟩
  | cons c digits ih =>
    rw [List.foldl_cons] at h
    cases hc : hexValue? c with
    | none =>
      have hnone : ∀ cs : List Char, cs.foldl
          (fun n c => do return (← n) * 16 + (← hexValue? c)) (none : Option Nat) = none := by
        intro cs
        induction cs with
        | nil => rfl
        | cons d cs ih => exact ih
      rw [hc] at h
      cases (hnone digits).symm.trans h
    | some d =>
      rw [hc] at h
      have hlater : digits.foldl (fun n c => do return (← n) * 16 + (← hexValue? c))
          (some (start * 16 + d)) = some n := h
      obtain ⟨hdigits, hn⟩ := ih hlater
      have hd := hexValue?_lt hc
      refine ⟨List.forall_mem_cons.mpr ⟨by rw [hc]; rfl, hdigits⟩, Nat.lt_of_lt_of_le hn ?_⟩
      rw [List.length_cons, Nat.pow_succ', ← Nat.mul_assoc]
      exact Nat.mul_le_mul_right _ (by omega)

/-- The number of some digits is less than that power of sixteen. -/
theorem hexNumber?_lt {digits : List Char} {n : Nat} (h : hexNumber? digits = some n) :
    n < 16 ^ digits.length := by
  simpa using (hexNumber?_behind h).2

end Text

namespace Json

theorem isHighHalf_iff {code : Nat} : isHighHalf code = true ↔ 0xD800 ≤ code ∧ code < 0xDC00 := by
  simp [isHighHalf]

theorem isLowHalf_iff {code : Nat} : isLowHalf code = true ↔ 0xDC00 ≤ code ∧ code < 0xE000 := by
  simp [isLowHalf]

theorem not_isHighHalf (c : Char) : isHighHalf (CodePoint.char c).code = false := by
  have hvalid : c.toNat < 0xD800 ∨ 0xDFFF < c.toNat ∧ c.toNat < 0x110000 := c.valid
  rw [Bool.eq_false_iff, Ne, isHighHalf_iff, CodePoint.code]
  omega

theorem not_isLowHalf (c : Char) : isLowHalf (CodePoint.char c).code = false := by
  have hvalid : c.toNat < 0xD800 ∨ 0xDFFF < c.toNat ∧ c.toNat < 0x110000 := c.valid
  rw [Bool.eq_false_iff, Ne, isLowHalf_iff, CodePoint.code]
  omega

/-! ### Halves -/

variable {a b : CodePoint} {t : Text}

theorem joinHalves_of_not_high (h : isHighHalf a.code = false) :
    joinHalves (a :: t) = a :: joinHalves t := by
  cases t with
  | nil => rfl
  | cons b t => rw [joinHalves, h, Bool.false_and, if_neg Bool.false_ne_true]

theorem joinHalves_of_not_low (h : isLowHalf b.code = false) :
    joinHalves (a :: b :: t) = a :: joinHalves (b :: t) := by
  rw [joinHalves, h, Bool.and_false, if_neg Bool.false_ne_true]

theorem joinHalves_pair (ha : isHighHalf a.code = true) (hb : isLowHalf b.code = true) :
    joinHalves (a :: b :: t) = .char (pairChar a.code b.code) :: joinHalves t := by
  rw [joinHalves, ha, hb, Bool.and_self, if_pos rfl]

/-- The first half that was read last, as the beginning of a text. -/
def pending (half : Option Nat) : Text :=
  (half.map CodePoint.ofCode).toList

/-- A character parts a half from what follows. -/
theorem joinHalves_pending_char (half : Option Nat) (c : Char) :
    joinHalves (pending half ++ .char c :: t) = flushHalf half (.char c :: joinHalves t) := by
  cases half with
  | none => exact joinHalves_of_not_high (not_isHighHalf c)
  | some code =>
    show joinHalves (.ofCode code :: .char c :: t) = .ofCode code :: .char c :: joinHalves t
    rw [joinHalves_of_not_low (not_isLowHalf c), joinHalves_of_not_high (not_isHighHalf c)]

theorem joinHalves_pending (half : Option Nat) :
    joinHalves (pending half) = flushHalf half [] := by
  cases half <;> rfl

theorem code_of_high {code : Nat} (h : isHighHalf code = true) :
    (CodePoint.ofCode code).code = code := by
  have hrange := isHighHalf_iff.mp h
  exact CodePoint.code_ofCode (by omega)

/-- What an escape by code adds to a text is what its code point and the half in front are joined to. -/
theorem joinHalves_unitStep {half half' : Option Nat} {code : Nat} {added : Text}
    (hhalf : ∀ high ∈ half, isHighHalf high = true) (hcode : (CodePoint.ofCode code).code = code)
    (hstep : unitStep half code = (added, half')) (units : Text) :
    joinHalves (pending half ++ .ofCode code :: units) =
      added ++ joinHalves (pending half' ++ units) := by
  cases half with
  | none =>
    simp only [unitStep] at hstep
    split at hstep
    · cases hstep
      rfl
    · next hhigh =>
      cases hstep
      rw [← hcode] at hhigh
      exact joinHalves_of_not_high (Bool.eq_false_iff.mpr hhigh)
  | some high =>
    have hfirst := code_of_high (hhalf high rfl)
    simp only [unitStep] at hstep
    split at hstep
    · next hlow =>
      cases hstep
      have hpair := joinHalves_pair (a := .ofCode high) (b := .ofCode code) (t := units)
        (by rw [hfirst]; exact hhalf high rfl) (by rw [hcode]; exact hlow)
      rw [hfirst, hcode] at hpair
      exact hpair
    · next hlow =>
      rw [← hcode] at hlow
      have hfront := joinHalves_of_not_low (a := .ofCode high) (t := units)
        (Bool.eq_false_iff.mpr hlow)
      split at hstep
      · cases hstep
        exact hfront
      · next hhigh =>
        cases hstep
        rw [← hcode] at hhigh
        exact hfront.trans (congrArg _ (joinHalves_of_not_high (Bool.eq_false_iff.mpr hhigh)))

/-! ### Strings -/

/-- A string was read: the text is that of its code points behind the half in front of them. -/
def ReadsTo (half : Option Nat) (cs : List Char) (s rest : Text) : Prop :=
  ∃ body units cs', cs = body ++ '"' :: cs' ∧ rest = Text.ofChars cs' ∧ Body body units ∧
    s = joinHalves (pending half ++ units)

/-- An escape by code in front of the rest of a string. -/
theorem ReadsTo.code {half half' : Option Nat} {digits cs : List Char} {code : Nat}
    {s rest : Text} (head : Text) (h : ReadsTo half' cs s rest) (hlength : digits.length = 4)
    (hdigits : Text.hexNumber? digits = some code)
    (hjoin : ∀ units, joinHalves (pending half ++ .ofCode code :: units) =
      head ++ joinHalves (pending half' ++ units)) :
    ReadsTo half ('\\' :: 'u' :: (digits ++ cs)) (head ++ s) rest := by
  obtain ⟨body, units, cs', rfl, hrest, hbody, rfl⟩ := h
  refine ⟨'\\' :: 'u' :: (digits ++ body), .ofCode code :: units, cs', ?_, hrest,
    .code hlength hdigits hbody, (hjoin units).symm⟩
  simp

/-- A character that stands for itself or for another one. -/
theorem ReadsTo.char {half : Option Nat} {cs : List Char} {c : Char} {s rest : Text}
    (front : List Char) (h : ReadsTo none cs s rest)
    (hbody : ∀ {body units}, Body body units → Body (front ++ body) (.char c :: units)) :
    ReadsTo half (front ++ cs) (flushHalf half (.char c :: s)) rest := by
  obtain ⟨body, units, cs', rfl, hrest, hunits, rfl⟩ := h
  refine ⟨front ++ body, .char c :: units, cs', by simp, hrest, hbody hunits, ?_⟩
  exact (joinHalves_pending_char half c).symm

theorem exists_char {p : CodePoint} {t : Text} {cs : List Char} (h : Text.ofChars cs = p :: t) :
    ∃ c cs', cs = c :: cs' ∧ p = .char c ∧ Text.ofChars cs' = t := by
  obtain ⟨c, cs', rfl, rfl, rfl⟩ := List.map_eq_cons_iff.mp h
  exact ⟨c, cs', rfl, rfl, rfl⟩

theorem exists_sign {c : Char} {t : Text} {cs : List Char} (h : Text.ofChars cs = .char c :: t) :
    ∃ cs', cs = c :: cs' ∧ Text.ofChars cs' = t := by
  obtain ⟨_, cs', rfl, hc, ht⟩ := exists_char h
  cases hc
  exact ⟨cs', rfl, ht⟩

/-- The digits of an escape by code. -/
theorem exists_digits {a b c d : CodePoint} {t : Text} {cs : List Char} {code : Nat}
    (h : Text.ofChars cs = .char '\\' :: .char 'u' :: a :: b :: c :: d :: t)
    (hcode : (Text.chars? [a, b, c, d]).bind Text.hexNumber? = some code) :
    ∃ digits cs', cs = '\\' :: 'u' :: (digits ++ cs') ∧ Text.ofChars cs' = t ∧
      digits.length = 4 ∧ Text.hexNumber? digits = some code := by
  obtain ⟨_, _, rfl, hslash, hu⟩ := exists_char h
  obtain ⟨_, _, rfl, hletter, ha⟩ := exists_char hu
  obtain ⟨a, _, rfl, rfl, hb⟩ := exists_char ha
  obtain ⟨b, _, rfl, rfl, hc⟩ := exists_char hb
  obtain ⟨c, _, rfl, rfl, hd⟩ := exists_char hc
  obtain ⟨d, cs', rfl, rfl, ht⟩ := exists_char hd
  cases hslash
  cases hletter
  exact ⟨[a, b, c, d], cs', rfl, ht, rfl, hcode⟩

theorem code_of_digits {digits : List Char} {code : Nat} (hlength : digits.length = 4)
    (h : Text.hexNumber? digits = some code) : (CodePoint.ofCode code).code = code := by
  have hlt := Text.hexNumber?_lt h
  rw [hlength] at hlt
  exact CodePoint.code_ofCode (by omega)

/-- How a string was read tells how it was written, with the first half of a pair carried along. -/
theorem readsTo_of_readsString {s rest : Text} {half : Option Nat} {cs : List Char}
    (hhalf : ∀ high ∈ half, isHighHalf high = true)
    (h : ReadsString half (Text.ofChars cs) s rest) : ReadsTo half cs s rest := by
  generalize ht : Text.ofChars cs = t at h
  induction h generalizing cs with
  | close =>
    obtain ⟨cs', rfl, rfl⟩ := exists_sign ht
    exact ⟨[], [], cs', rfl, rfl, .nil, by rw [List.append_nil, joinHalves_pending]⟩
  | code hcode hstep _ ih =>
    obtain ⟨digits, cs', rfl, ht', hlength, hdigits⟩ := exists_digits ht hcode
    exact .code _ (ih (isHighHalf_of_unitStep hstep) ht') hlength hdigits
      (joinHalves_unitStep hhalf (code_of_digits hlength hdigits) hstep)
  | escape hd _ ih =>
    obtain ⟨_, rfl, hletter⟩ := exists_sign ht
    obtain ⟨cs', rfl, ht'⟩ := exists_sign hletter
    exact .char ['\\', _] (ih nofun ht') (.escape hd)
  | plain hquote hslash hvisible _ ih =>
    obtain ⟨c, cs', rfl, rfl, ht'⟩ := exists_char ht
    exact .char [c] (ih nofun ht') (.plain (fun h => hquote (congrArg _ h))
      (fun h => hslash (congrArg _ h)) hvisible)

theorem readString_eq_ok {start s rest : Text} {cs : List Char}
    (h : readString start none (Text.ofChars cs) = .ok (s, rest)) : ReadsTo none cs s rest :=
  readsTo_of_readsString nofun (readString_iff.mp h)

/-! ### Words -/

theorem isAlphanum_of_isDigit {c : Char} (h : isDigit c = true) : c.isAlphanum = true := by
  rw [Char.isAlphanum, Char.isDigit, Bool.or_eq_true]
  exact .inr h

theorem isWordChar_of_isDigit {c : Char} (h : isDigit c = true) : isWordChar c = true := by
  rw [isWordChar, isAlphanum_of_isDigit h]
  rfl

theorem isWord_of_mem_names : ∀ name ∈ names, IsWord name.1 := by
  have hchars : names.all (fun name => name.1.all isWordChar) = true := by decide
  refine fun name h => ⟨?_, List.all_eq_true.mp (List.all_eq_true.mp hchars name h)⟩
  simp only [names, List.mem_cons, List.not_mem_nil, or_false] at h
  rcases h with rfl | rfl | rfl | rfl | rfl | rfl
  iterate 5 exact ⟨_, _, by decide, .inl rfl⟩
  exact ⟨_, _, by decide, .inr rfl⟩

/-- What is read as a fraction consists of word characters. -/
theorem exists_readFraction (cs : List Char) :
    ∃ w, cs = w ++ (readFraction cs).2 ∧ ∀ c ∈ w, isWordChar c = true := by
  unfold readFraction
  split
  · next rest =>
    dsimp only
    split
    · exact ⟨[], rfl, nofun⟩
    · refine ⟨'.' :: rest.takeWhile isDigit, by simp, ?_⟩
      refine List.forall_mem_cons.mpr ⟨by decide, fun c hc => ?_⟩
      exact isWordChar_of_isDigit (List.mem_takeWhile_imp hc)
  · exact ⟨[], rfl, nofun⟩

theorem exists_splitSign (cs : List Char) :
    ∃ w, cs = w ++ (Numeral.splitSign cs).2 ∧ ∀ c ∈ w, isWordChar c = true := by
  unfold Numeral.splitSign
  split
  · exact ⟨['-'], rfl, List.forall_mem_singleton.mpr rfl⟩
  · exact ⟨['+'], rfl, List.forall_mem_singleton.mpr rfl⟩
  · exact ⟨[], rfl, nofun⟩

/-- What is read as an exponent consists of word characters. -/
theorem exists_readExponent (cs : List Char) :
    ∃ w, cs = w ++ (readExponent cs).2 ∧ ∀ c ∈ w, isWordChar c = true := by
  unfold readExponent
  split
  · next c rest =>
    split
    · next hletter =>
      obtain ⟨sign, hsign, hchars⟩ := exists_splitSign rest
      dsimp only
      split
      · exact ⟨[], rfl, nofun⟩
      · refine ⟨c :: (sign ++ (Numeral.splitSign rest).2.takeWhile isDigit), ?_, ?_⟩
        · simpa using hsign
        · refine List.forall_mem_cons.mpr ⟨?_, List.forall_mem_append.mpr ⟨hchars, fun d hd => ?_⟩⟩
          · rcases hletter with rfl | rfl <;> decide
          · exact isWordChar_of_isDigit (List.mem_takeWhile_imp hd)
    · exact ⟨[], rfl, nofun⟩
  · exact ⟨[], rfl, nofun⟩

/-- A number starts with a digit and goes on with word characters. -/
theorem exists_readNumber? {negative : Bool} {body rest : List Char}
    {r : Except Numeral.Fault Value} (h : readNumber? negative body = some (r, rest)) :
    ∃ c w, body = c :: (w ++ rest) ∧ isDigit c = true ∧ ∀ d ∈ w, isWordChar d = true := by
  unfold readNumber? at h
  extract_lets whole n at h
  have hprefix : whole <+: body ∧ ∀ c ∈ whole, isDigit c = true := by
    unfold whole
    split
    · exact ⟨⟨_, rfl⟩, List.forall_mem_singleton.mpr rfl⟩
    · exact ⟨List.takeWhile_prefix _, fun c hc => List.mem_takeWhile_imp hc⟩
  clear_value whole
  obtain ⟨⟨tail, rfl⟩, hdigits⟩ := hprefix
  split at h
  · cases h
  · next hne =>
    rw [List.drop_left] at h
    have hrest : (readExponent (readFraction tail).2).2 = rest := by
      dsimp only at h
      split at h
      · split at h <;> exact (Prod.mk.inj (Option.some.inj h)).2
      · exact (Prod.mk.inj (Option.some.inj h)).2
    obtain ⟨u, hu, huchars⟩ := exists_readFraction tail
    obtain ⟨w, hw, hwchars⟩ := exists_readExponent (readFraction tail).2
    rw [hrest] at hw
    cases hcs : whole with
    | nil => exact absurd (List.isEmpty_iff.mpr hcs) hne
    | cons c digits =>
      rw [hcs] at hdigits
      obtain ⟨hc, hdigits⟩ := List.forall_mem_cons.mp hdigits
      refine ⟨c, digits ++ (u ++ w), ?_, hc, ?_⟩
      · rw [hu, hw]
        simp
      · simp only [List.forall_mem_append]
        exact ⟨fun d hd => isWordChar_of_isDigit (hdigits d hd), huchars, hwchars⟩

/-- A value without parts is read from a word. -/
theorem exists_readScalar? {cs rest : List Char} {r : Except Numeral.Fault Value}
    (h : readScalar? cs = some (r, rest)) : ∃ w, cs = w ++ rest ∧ IsWord w := by
  unfold readScalar? at h
  split at h
  · next name v hfind =>
    cases h
    have hmem := List.mem_of_find?_eq_some hfind
    have hprefix := List.find?_some hfind
    obtain ⟨rest, rfl⟩ := List.isPrefixOf_iff_prefix.mp hprefix
    exact ⟨name, by rw [List.drop_left], isWord_of_mem_names _ hmem⟩
  · split at h
    · obtain ⟨c, w, rfl, hc, hw⟩ := exists_readNumber? h
      refine ⟨'-' :: c :: w, rfl, ⟨c, w, isAlphanum_of_isDigit hc, .inr rfl⟩, ?_⟩
      exact List.forall_mem_cons.mpr ⟨by decide, List.forall_mem_cons.mpr
        ⟨isWordChar_of_isDigit hc, hw⟩⟩
    · obtain ⟨c, w, rfl, hc, hw⟩ := exists_readNumber? h
      exact ⟨c :: w, rfl, ⟨c, w, isAlphanum_of_isDigit hc, .inl rfl⟩, List.forall_mem_cons.mpr
        ⟨isWordChar_of_isDigit hc, hw⟩⟩

theorem leadingChars_ofChars (cs : List Char) : Text.leadingChars (Text.ofChars cs) = cs := by
  induction cs with
  | nil => rfl
  | cons c cs ih => exact congrArg (c :: ·) ih

/-- A value without parts was written as one word. -/
theorem readScalar_eq_ok {cs : List Char} {v : Value} {rest : Text}
    (h : readScalar (Text.ofChars cs) = .ok (v, rest)) :
    ∃ w cs', cs = w ++ cs' ∧ rest = Text.ofChars cs' ∧ (Phrase.word v w).IsJson := by
  unfold readScalar at h
  rw [leadingChars_ofChars] at h
  dsimp only at h
  split at h
  · cases h
  · cases h
  · next v' cs' hscalar =>
    cases h
    obtain ⟨w, rfl, -⟩ := exists_readScalar? hscalar
    refine ⟨w, cs', rfl, ?_, .word hscalar⟩
    simp [Text.ofChars]

/-! ### Collections -/

theorem exists_gap (cs : List Char) :
    ∃ gap cs', cs = gap ++ cs' ∧ IsGap gap ∧ skipSpace (Text.ofChars cs) = Text.ofChars cs' := by
  refine ⟨cs.takeWhile isSpace, cs.dropWhile isSpace, (List.takeWhile_append_dropWhile).symm,
    fun c hc => List.mem_takeWhile_imp hc, ?_⟩
  rw [skipSpace, Text.ofChars, List.dropWhile_map]
  rfl

namespace Phrase

/-- A comma and blanks in front of a row of items. -/
theorem exists_itemChars_false {gap : List Char} {items : List Item} (hgap : IsGap gap)
    (h : AreItems items) (hne : items ≠ []) :
    ∃ items', itemChars false items' = ',' :: (gap ++ itemChars true items) ∧ AreItems items' ∧
      itemValues items' = itemValues items := by
  cases items with
  | nil => exact absurd rfl hne
  | cons part items =>
    obtain ⟨before, item, after⟩ := part
    obtain ⟨⟨⟨hbefore, hafter⟩, hitem⟩, hitems⟩ := List.forall_mem_cons.mp h
    refine ⟨⟨gap ++ before, item, after⟩ :: items, by simp [itemChars, comma], ?_, rfl⟩
    exact List.forall_mem_cons.mpr
      ⟨⟨⟨List.forall_mem_append.mpr ⟨hgap, hbefore⟩, hafter⟩, hitem⟩, hitems⟩

/-- A comma and blanks in front of a row of members. -/
theorem exists_memberChars_false {gap : List Char} {members : List Member} (hgap : IsGap gap)
    (h : AreMembers members) (hne : members ≠ []) :
    ∃ members', memberChars false members' = ',' :: (gap ++ memberChars true members) ∧
      AreMembers members' ∧ memberValues members' = memberValues members := by
  cases members with
  | nil => exact absurd rfl hne
  | cons part members =>
    obtain ⟨label, member, after⟩ := part
    obtain ⟨⟨⟨hlabel, hafter⟩, hmember⟩, hmembers⟩ := List.forall_mem_cons.mp h
    refine ⟨⟨{ label with before := gap ++ label.before }, member, after⟩ :: members,
      by simp [memberChars, comma, Label.chars], ?_, rfl⟩
    exact List.forall_mem_cons.mpr ⟨⟨⟨⟨List.forall_mem_append.mpr ⟨hgap, hlabel.before⟩,
      hlabel.body, hlabel.gap, hlabel.after⟩, hafter⟩, hmember⟩, hmembers⟩

end Phrase

/-- A name and its colon are a label without blanks in front. -/
theorem readName_eq_ok {cs : List Char} {name rest : Text}
    (h : readName (Text.ofChars cs) = .ok (name, rest)) :
    ∃ (label : Label) (cs' : List Char), label.IsJson ∧ label.name = name ∧
      cs = label.chars ++ cs' ∧ rest = Text.ofChars cs' := by
  generalize ht : Text.ofChars cs = t at h
  unfold readName at h
  split at h
  · obtain ⟨cs, rfl, rfl⟩ := exists_sign ht
    split at h
    · cases h
    · next hread =>
      obtain ⟨body, units, cs, rfl, rfl, hbody, rfl⟩ := readString_eq_ok hread
      obtain ⟨gap, cs, rfl, hgap, hskip⟩ := exists_gap cs
      rw [hskip] at h
      split at h
      · next hcolon =>
        obtain ⟨cs, rfl, rfl⟩ := exists_sign hcolon
        obtain ⟨after, cs, rfl, hafter, hskip⟩ := exists_gap cs
        rw [hskip] at h
        cases h
        refine ⟨⟨[], units, body, gap, after⟩, cs, ⟨nofun, hbody, hgap, hafter⟩, rfl, ?_, rfl⟩
        simp [Label.chars, Label.quoted]
      · cases h
  · cases h

open Phrase (AreItems AreMembers itemChars memberChars itemValues memberValues)

/-- Whether each value that is read is written. -/
def ValueSpells (fuel : Nat) : Prop :=
  ∀ cs v rest, readValue fuel (Text.ofChars cs) = .ok (v, rest) →
    ∃ (tree : Phrase) (cs' : List Char), cs = tree.chars ++ cs' ∧ rest = Text.ofChars cs' ∧
      tree.IsJson ∧ tree.value = v

/-- Whether the items that are read are written, up to the bracket behind them. -/
def ItemsSpell (fuel : Nat) : Prop :=
  ∀ before cs v rest, readItems fuel before (Text.ofChars cs) = .ok (v, rest) →
    ∃ items cs', items ≠ [] ∧ cs = itemChars true items ++ ']' :: cs' ∧ rest = Text.ofChars cs' ∧
      AreItems items ∧ v = .list (before.reverse ++ itemValues items)

/-- Whether the members that are read are written, up to the brace behind them. -/
def EntriesSpell (fuel : Nat) : Prop :=
  ∀ before cs v rest, readEntries fuel before (Text.ofChars cs) = .ok (v, rest) →
    ∃ members cs', members ≠ [] ∧ cs = memberChars true members ++ '}' :: cs' ∧
      rest = Text.ofChars cs' ∧ AreMembers members ∧
      v = .map (Entries.ofPairs (before.reverse ++ memberValues members))

variable {fuel : Nat}

/-- One step of the induction: a value, given its items and its members. -/
theorem readValue_spells (hitems : ItemsSpell fuel) (hentries : EntriesSpell fuel) :
    ValueSpells (fuel + 1) := by
  intro cs v rest h
  generalize ht : Text.ofChars cs = t at h
  unfold readValue at h
  split at h
  · obtain ⟨cs, rfl, rfl⟩ := exists_sign ht
    obtain ⟨⟨s, rest⟩, hread, heq⟩ := Except.map_eq_ok.mp h
    cases heq
    obtain ⟨body, units, cs, rfl, rfl, hbody, rfl⟩ := readString_eq_ok hread
    refine ⟨.string units body, cs, ?_, rfl, .string hbody, rfl⟩
    simp [Phrase.chars, Label.quoted]
  · obtain ⟨cs, rfl, rfl⟩ := exists_sign ht
    obtain ⟨gap, cs, rfl, hgap, hskip⟩ := exists_gap cs
    rw [hskip] at h
    split at h
    · next hclose =>
      obtain ⟨cs, rfl, rfl⟩ := exists_sign hclose
      cases h
      refine ⟨.object gap [], cs, ?_, rfl, AreMembers.object nofun hgap, rfl⟩
      simp [Phrase.chars, memberChars]
    · obtain ⟨members, cs, -, rfl, rfl, hmembers, rfl⟩ := hentries _ _ _ _ h
      refine ⟨.object gap members, cs, ?_, rfl, hmembers.object hgap, rfl⟩
      simp [Phrase.chars]
  · obtain ⟨cs, rfl, rfl⟩ := exists_sign ht
    obtain ⟨gap, cs, rfl, hgap, hskip⟩ := exists_gap cs
    rw [hskip] at h
    split at h
    · next hclose =>
      obtain ⟨cs, rfl, rfl⟩ := exists_sign hclose
      cases h
      refine ⟨.list gap [], cs, ?_, rfl, AreItems.list nofun hgap, rfl⟩
      simp [Phrase.chars, itemChars]
    · obtain ⟨items, cs, -, rfl, rfl, hareItems, rfl⟩ := hitems _ _ _ _ h
      refine ⟨.list gap items, cs, ?_, rfl, hareItems.list hgap, rfl⟩
      simp [Phrase.chars]
  · obtain rfl := ht
    obtain ⟨w, cs, rfl, hrest, hword⟩ := readScalar_eq_ok h
    exact ⟨.word v w, cs, rfl, hrest, hword, rfl⟩

/-- One step of the induction: the items of a list. -/
theorem readItems_spell (hvalue : ValueSpells fuel) (hmore : ItemsSpell fuel) :
    ItemsSpell (fuel + 1) := by
  intro before cs v rest h
  unfold readItems at h
  split at h
  · cases h
  · next hread =>
    obtain ⟨tree, cs, rfl, rfl, htree, rfl⟩ := hvalue _ _ _ hread
    obtain ⟨after, cs, rfl, hafter, hskip⟩ := exists_gap cs
    rw [hskip] at h
    split at h
    · next hclose =>
      obtain ⟨cs, rfl, rfl⟩ := exists_sign hclose
      cases h
      refine ⟨[⟨[], tree, after⟩], cs, nofun, ?_, rfl, ?_, ?_⟩
      · simp [itemChars, comma]
      · exact List.forall_mem_singleton.mpr ⟨⟨nofun, hafter⟩, htree⟩
      · simp [itemValues]
    · next hcomma =>
      obtain ⟨cs, rfl, rfl⟩ := exists_sign hcomma
      obtain ⟨gap, cs, rfl, hgap, hskip⟩ := exists_gap cs
      rw [hskip] at h
      obtain ⟨items, cs, hne, rfl, rfl, hitems, rfl⟩ := hmore _ _ _ _ h
      obtain ⟨items', hchars, hitems', hvalues⟩ :=
        Phrase.exists_itemChars_false hgap hitems hne
      refine ⟨⟨[], tree, after⟩ :: items', cs, nofun, ?_, rfl, ?_, ?_⟩
      · simp [itemChars, comma, hchars]
      · exact List.forall_mem_cons.mpr ⟨⟨⟨nofun, hafter⟩, htree⟩, hitems'⟩
      · simp [itemValues, hvalues]
    · cases h

/-- One step of the induction: the members of an object. -/
theorem readEntries_spell (hvalue : ValueSpells fuel) (hmore : EntriesSpell fuel) :
    EntriesSpell (fuel + 1) := by
  intro before cs v rest h
  unfold readEntries at h
  split at h
  · cases h
  · next hname =>
    obtain ⟨label, cs, hlabel, rfl, rfl, rfl⟩ := readName_eq_ok hname
    split at h
    · cases h
    · next hread =>
      obtain ⟨tree, cs, rfl, rfl, htree, rfl⟩ := hvalue _ _ _ hread
      obtain ⟨after, cs, rfl, hafter, hskip⟩ := exists_gap cs
      rw [hskip] at h
      split at h
      · next hclose =>
        obtain ⟨cs, rfl, rfl⟩ := exists_sign hclose
        cases h
        refine ⟨[⟨label, tree, after⟩], cs, nofun, ?_, rfl, ?_, ?_⟩
        · simp [memberChars, comma]
        · exact List.forall_mem_singleton.mpr ⟨⟨hlabel, hafter⟩, htree⟩
        · simp [memberValues]
      · next hcomma =>
        obtain ⟨cs, rfl, rfl⟩ := exists_sign hcomma
        obtain ⟨gap, cs, rfl, hgap, hskip⟩ := exists_gap cs
        rw [hskip] at h
        obtain ⟨members, cs, hne, rfl, rfl, hmembers, rfl⟩ := hmore _ _ _ _ h
        obtain ⟨members', hchars, hmembers', hvalues⟩ :=
          Phrase.exists_memberChars_false hgap hmembers hne
        refine ⟨⟨label, tree, after⟩ :: members', cs, nofun, ?_, rfl, ?_, ?_⟩
        · simp [memberChars, comma, hchars]
        · exact List.forall_mem_cons.mpr ⟨⟨⟨hlabel, hafter⟩, htree⟩, hmembers'⟩
        · simp [memberValues, hvalues]
      · cases h

theorem readers_spell (fuel : Nat) : ValueSpells fuel ∧ ItemsSpell fuel ∧ EntriesSpell fuel := by
  induction fuel with
  | zero => exact ⟨nofun, nofun, nofun⟩
  | succ fuel ih =>
    obtain ⟨hvalue, hitems, hentries⟩ := ih
    exact ⟨readValue_spells hitems hentries, readItems_spell hvalue hitems,
      readEntries_spell hvalue hentries⟩

/-- **What is read as JSON is written as JSON.** -/
theorem read_spells {cs : List Char} {v : Value} (h : read (Text.ofChars cs) = .ok v) :
    ∃ (lead trail : List Char) (tree : Phrase), cs = lead ++ (tree.chars ++ trail) ∧
      IsGap lead ∧ IsGap trail ∧ tree.IsJson ∧ tree.value = v := by
  have hall : readAll (Text.ofChars cs) = .ok v := Except.mapError_ok_iff.mp h
  obtain ⟨lead, cs, rfl, hlead, hskip⟩ := exists_gap cs
  unfold readAll at hall
  split at hall
  · cases hall
  · rw [hskip] at hall
    split at hall
    · cases hall
    · next hread =>
      obtain ⟨tree, cs, rfl, rfl, htree, rfl⟩ := (readers_spell _).1 _ _ _ hread
      obtain ⟨trail, cs, rfl, htrail, hskip⟩ := exists_gap cs
      rw [hskip] at hall
      split at hall
      · next hend =>
        cases hall
        obtain rfl : cs = [] := List.map_eq_nil_iff.mp hend
        exact ⟨lead, trail, tree, by rw [List.append_nil], hlead, htrail, htree, rfl⟩
      · cases hall

end Json

end ApiLint
