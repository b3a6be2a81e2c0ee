import ApiLint.Proofs.Json.Numbers
import ApiLint.Proofs.Numeral.Binary64
import ApiLint.Proofs.Yaml.Whole

/-! The numbers of JSON as YAML scalars. Both languages write whole numbers in the same way. A number with
a fraction is one in YAML if its exponent, when it has one, has a sign; every other number with an exponent
is a text there (`kindOfLine_number`). What both take for a number is the same number. -/
namespace ApiLint

open Json (Number Exponent)

namespace Json.Number

variable {n : Number}

/-- Whether YAML takes the number for one. -/
def isCommon (n : Number) : Bool :=
  n.exponent.all fun e => !n.fraction.isEmpty && e.sign.isSome

/-- The digits of an exponent and what stands in front of them, if there is one. -/
def exponentChars (n : Number) : List Char :=
  (n.exponent.map Exponent.chars).getD []

theorem IsJson.digit_mem_size (h : n.IsJson) : ∃ c ∈ n.size, c.isDigit = true := by
  obtain ⟨c, more, hsize, hc⟩ := h.exists_digit
  exact ⟨c, hsize ▸ List.mem_cons_self, hc⟩

theorem IsJson.digit_mem_chars (h : n.IsJson) : ∃ c ∈ n.chars, c.isDigit = true := by
  obtain ⟨c, hc, hdigit⟩ := h.digit_mem_size
  refine ⟨c, ?_, hdigit⟩
  rw [chars]
  split
  · exact List.mem_cons_of_mem _ hc
  · exact hc

theorem tail_of_fraction_nil (h : n.fraction = []) : n.tail = n.exponentChars := by
  rw [tail, h]
  rfl

theorem tail_of_fraction_ne (h : n.fraction ≠ []) :
    n.tail = '.' :: (n.fraction ++ n.exponentChars) := by
  rw [tail, pointed, if_neg (by simpa using h)]
  rfl

theorem tail_isEmpty (n : Number) :
    n.tail.isEmpty = (n.fraction.isEmpty && n.exponent.isNone) := by
  by_cases hfraction : n.fraction = []
  · rw [tail_of_fraction_nil hfraction, exponentChars, hfraction]
    cases n.exponent <;> rfl
  · have hempty : n.fraction.isEmpty = false := by simpa using hfraction
    rw [tail_of_fraction_ne hfraction, hempty]
    rfl

/-- No point stands in an exponent. -/
theorem IsJson.point_not_mem (h : n.IsJson) : '.' ∉ n.exponentChars := by
  rw [exponentChars]
  cases hexponent : n.exponent with
  | none => exact List.not_mem_nil
  | some e =>
    have he := h.exponent e hexponent
    simp only [Option.map_some, Option.getD_some, Exponent.chars, List.mem_cons, List.mem_append,
      not_or, Option.mem_toList]
    refine ⟨fun heq => ?_, fun hsign => ?_, fun hmem => ?_⟩
    · obtain hletter | hletter := he.letter <;> rw [hletter] at heq <;> exact absurd heq (by decide)
    · obtain heq | heq := he.sign _ hsign <;> exact absurd heq (by decide)
    · exact absurd (he.digits _ hmem) (by decide)

end Json.Number

namespace Yaml

variable {n : Number}

theorem unsigned_number (h : n.IsJson) : unsigned n.chars = n.size := by
  rw [unsigned, h.splitSign_chars]

theorem isDigitOrLow_of_isDigit {c : Char} (h : isDigit c = true) : isDigitOrLow c = true := by
  rw [isDigitOrLow, h, Bool.true_or]

theorem dropWhile_size (h : n.IsJson) : n.size.dropWhile isDigitOrLow = n.tail :=
  (h.takeWhile_size (fun _ hc => isDigitOrLow_of_isDigit hc) (by decide)).2

/-- An exponent is one of YAML if it has a sign. -/
theorem isExponent_chars (h : n.IsJson) :
    isExponent n.exponentChars = n.exponent.all (·.sign.isSome) := by
  rw [Number.exponentChars]
  cases hexponent : n.exponent with
  | none => rfl
  | some e =>
    have he := h.exponent e hexponent
    obtain ⟨letter, sign, digits⟩ := e
    obtain ⟨hletter, hsign, hne, hdigits⟩ := he
    cases sign with
    | none =>
      obtain ⟨d, more, rfl⟩ := List.exists_cons_of_ne_nil hne
      have hd := hdigits d List.mem_cons_self
      have hminus : d ≠ '-' := fun heq => absurd (heq ▸ hd) (by decide)
      have hplus : d ≠ '+' := fun heq => absurd (heq ▸ hd) (by decide)
      simp [Exponent.chars, isExponent, hminus, hplus]
    | some c =>
      have hall : digits.all isDigit = true := List.all_eq_true.mpr hdigits
      have hempty : digits.isEmpty = false := by simpa using hne
      obtain rfl | rfl := hletter <;> obtain rfl | rfl := hsign c rfl <;>
        simp [Exponent.chars, isExponent, someOf, hall, hempty]

/-- The digits of a fraction are taken up to the exponent. -/
theorem dropWhile_fraction {p : Char → Bool} (h : n.IsJson) (hdigit : ∀ c, isDigit c = true → p c = true)
    (hletter : p 'e' = false ∧ p 'E' = false) :
    (n.fraction ++ n.exponentChars).dropWhile p = n.exponentChars := by
  rw [List.dropWhile_append_of_pos fun c hc => hdigit c (h.fraction c hc), Number.exponentChars]
  cases hexponent : n.exponent with
  | none => rfl
  | some e =>
    have hend : p e.letter = false := by
      obtain heq | heq := (h.exponent e hexponent).letter <;> rw [heq]
      · exact hletter.1
      · exact hletter.2
    rw [Option.map_some, Option.getD_some, Exponent.chars, List.dropWhile_cons, hend]
    rfl

/-- A number without a sign, or behind a minus, does not start with a point. -/
theorem chars_ne_point (h : n.IsJson) (rest : List Char) : n.chars ≠ '.' :: rest := by
  obtain ⟨d, digits, hsize, hd⟩ := h.exists_digit
  rw [Number.chars]
  split
  · exact fun heq => absurd (List.cons.inj heq).1 (by decide)
  · rw [hsize]
    intro heq
    obtain ⟨rfl, -⟩ := List.cons.inj heq
    exact absurd hd (by decide)

/-- A JSON number is a number with a point to YAML only if it has one, and its exponent a sign. -/
theorem isDecimal_number (h : n.IsJson) :
    isDecimal n.chars = (!n.fraction.isEmpty && n.exponent.all (·.sign.isSome)) := by
  have hinfinite : String.ofList n.size ∉ [".inf", ".Inf", ".INF"] :=
    not_mem_of_digit h.digit_mem_size (by decide)
  have hnan : String.ofList n.chars ∉ [".nan", ".NaN", ".NAN"] :=
    not_mem_of_digit h.digit_mem_chars (by decide)
  obtain ⟨d, digits, hsize, hd⟩ := h.exists_digit
  unfold isDecimal
  rw [unsigned_number h]
  simp only [if_neg hinfinite, if_neg hnan]
  split
  · next heq => exact absurd heq (chars_ne_point h _)
  · next c rest heq _ =>
    obtain ⟨rfl, rfl⟩ := List.cons.inj (hsize.symm.trans heq)
    have hdrop := dropWhile_size h
    rw [hsize, List.dropWhile_cons, isDigitOrLow_of_isDigit hd, if_pos rfl] at hdrop
    rw [hdrop]
    by_cases hfraction : n.fraction = []
    · have hall : ∀ c ∈ n.exponentChars, decide (c ≠ '.') = true := fun c hc =>
        decide_eq_true fun heq => h.point_not_mem (heq ▸ hc)
      rw [Number.tail_of_fraction_nil hfraction, List.dropWhile_eq_nil_iff.mpr hall, hfraction]
      rfl
    · rw [Number.tail_of_fraction_ne hfraction]
      have hsplit : ('.' :: (n.fraction ++ n.exponentChars)).takeWhile (· ≠ '.') = [] ∧
          ('.' :: (n.fraction ++ n.exponentChars)).dropWhile (· ≠ '.') =
            '.' :: (n.fraction ++ n.exponentChars) := ⟨rfl, rfl⟩
      have hempty : n.fraction.isEmpty = false := by simpa using hfraction
      have hd : isDigit d = true := hd
      have hdrop := dropWhile_fraction h (fun _ hc => isDigitOrLow_of_isDigit hc) (by decide)
      simp only [hsplit, hd, List.isEmpty_nil, if_true, hdrop, isExponent_chars h,
        hempty, Bool.true_and, Bool.not_false]
  · next hnot => exact absurd hsize (hnot d digits)

/-- Behind a zero in front comes what is no digit. -/
theorem tail_of_zero (h : n.IsJson) {rest : List Char} (hsize : n.size = '0' :: rest) :
    n.tail = rest := by
  obtain ⟨d, digits, hwhole⟩ := List.exists_cons_of_ne_nil h.nonempty
  rw [Number.size, hwhole] at hsize
  obtain ⟨rfl, hrest⟩ := List.cons.inj hsize
  obtain rfl := h.zero digits hwhole
  exact hrest

/-- Only a number without a tail is a whole one. -/
theorem isWhole_number (h : n.IsJson) : isWhole n.chars = n.tail.isEmpty := by
  have hhead := h.head?_tail
  obtain ⟨d, digits, hsize, hd⟩ := h.exists_digit
  unfold isWhole
  rw [unsigned_number h]
  split
  · next heq =>
    rw [tail_of_zero h heq]
    rfl
  · next heq =>
    rw [tail_of_zero h heq] at hhead
    exact absurd (hhead _ rfl) (by decide)
  · next heq =>
    rw [tail_of_zero h heq] at hhead
    exact absurd (hhead _ rfl) (by decide)
  · next rest hne _ _ heq =>
    rw [tail_of_zero h heq] at hhead ⊢
    cases rest with
    | nil => exact absurd rfl hne
    | cons c rest => obtain rfl | rfl | rfl := hhead c rfl <;> rfl
  · next c rest _ _ _ _ heq =>
    obtain ⟨rfl, rfl⟩ := List.cons.inj (hsize.symm.trans heq)
    have hdrop := dropWhile_size h
    rw [hsize, List.dropWhile_cons, isDigitOrLow_of_isDigit hd, if_pos rfl] at hdrop
    have hd : isDigit d = true := hd
    rw [hdrop, hd, Bool.true_and]
    generalize n.tail = tail at hhead
    cases tail with
    | nil => rfl
    | cons c tail => obtain rfl | rfl | rfl := hhead c rfl <;> rfl
  · next heq => rw [hsize] at heq; cases heq

theorem takeDigits_eq_some {least most : Nat} {cs digits rest : List Char}
    (h : takeDigits least most cs = some (digits, rest)) :
    cs = digits ++ rest ∧ least ≤ digits.length ∧ ∀ c ∈ digits, isDigit c = true := by
  rw [takeDigits] at h
  split at h
  · cases h
  · next hlength =>
    obtain ⟨rfl, rfl⟩ := Prod.mk.inj (Option.some.inj h)
    refine ⟨?_, Nat.not_lt.mp hlength, fun c hc => List.mem_takeWhile_imp hc⟩
    have hprefix := (List.takeWhile_prefix isDigit (l := cs.take most)).trans (List.take_prefix most cs)
    exact (List.prefix_iff_eq_append.mp hprefix).symm

theorem dropSign_eq_some {sign : Char} {cs rest : List Char} (h : dropSign sign cs = some rest) :
    cs = sign :: rest := by
  cases cs with
  | nil => cases h
  | cons c cs =>
    rw [dropSign] at h
    split at h
    · next heq => rw [heq, Option.some.inj h]
    · cases h

/-- A number has no minus sign behind its first digits, and so is no date. -/
theorem isStamp_number (h : n.IsJson) : isStamp n.chars = false := by
  have hnone : readStamp n.chars = none := by
    cases hread : readStamp n.chars with
    | none => rfl
    | some stamp =>
      obtain ⟨⟨year, rest⟩, hyear, hread⟩ := Option.bind_eq_some_iff.mp hread
      obtain ⟨rest, hsign, -⟩ := Option.bind_eq_some_iff.mp hread
      obtain ⟨hchars, hlength, hdigits⟩ := takeDigits_eq_some hyear
      rw [dropSign_eq_some hsign] at hchars
      have hdrop : (year ++ '-' :: rest).dropWhile isDigit = '-' :: rest :=
        List.dropWhile_append_of_pos hdigits
      rw [Number.chars] at hchars
      split at hchars
      · cases year with
        | nil => exact absurd hlength (by decide)
        | cons c year =>
          obtain ⟨rfl, -⟩ := List.cons.inj hchars
          exact absurd (hdigits _ List.mem_cons_self) (by decide)
      · have htail := (h.takeWhile_size (fun _ hc => hc) (by decide)).2
        have hhead := h.head?_tail
        rw [hchars] at htail
        rw [htail.symm.trans hdrop] at hhead
        exact absurd (hhead _ rfl) (by decide)
  rw [isStamp, hnone]
  rfl

/-- What YAML takes a number for. -/
theorem kindOfText_number (h : n.IsJson) :
    kindOfText (Text.ofChars n.chars) =
      if n.tail.isEmpty then .int else if n.isCommon then .float else .str := by
  have hline : '\n' ∉ n.chars := fun hmem => absurd (h.mem_chars _ hmem) (by decide)
  have hempty : n.chars.isEmpty = false := by
    obtain ⟨c, hc, -⟩ := h.digit_mem_chars
    exact List.isEmpty_eq_false_iff_exists_mem.mpr ⟨c, hc⟩
  have htruth := isTruth_of_digit h.digit_mem_chars
  have hnull : isNull (String.ofList n.chars) = false :=
    decide_eq_false (not_mem_of_digit h.digit_mem_chars (by decide))
  have hsigns : String.ofList n.chars ∉ ["<<", "="] :=
    not_mem_of_digit h.digit_mem_chars (by decide)
  have hunknown : String.ofList n.chars ∉ ["!", "&", "*"] :=
    not_mem_of_digit h.digit_mem_chars (by decide)
  simp only [List.mem_cons, not_or, List.not_mem_nil, not_false_eq_true, and_true] at hsigns
  rw [kindOfText, withoutLineEnd_of_not_mem hline, Text.chars?_ofChars]
  simp only [hempty, kindOfLine, htruth, hnull, hsigns, hunknown, isDecimal_number h,
    isWhole_number h, isStamp_number h, n.tail_isEmpty, Number.isCommon, Bool.false_and,
    Bool.false_eq_true, if_false]
  obtain hfraction | hfraction := Bool.eq_false_or_eq_true n.fraction.isEmpty <;>
    obtain hexponent | ⟨e, hexponent⟩ := Option.eq_none_or_eq_some n.exponent <;>
    simp [hfraction, hexponent]

/-! ### What they stand for -/

theorem size_of_tail_nil (htail : n.tail = []) : n.size = n.whole := by
  rw [Number.size, htail, List.append_nil]

/-- A whole number stands for itself. -/
theorem readWhole_number (h : n.IsJson) (htail : n.tail = []) :
    (readWhole (Text.ofChars n.chars)).map .int = n.value.mapError .number := by
  have hlow : '_' ∉ n.chars := fun hmem => absurd (h.mem_chars _ hmem) (by decide)
  have hparts : (n.fraction.isEmpty && (n.exponent.map Exponent.parts).isNone) = true := by
    rw [Option.isNone_map, ← n.tail_isEmpty, htail]
    rfl
  rw [readWhole, filter_ofChars hlow, splitSign_ofChars, h.splitSign_chars, size_of_tail_nil htail,
    Number.value, Json.numberOf, if_pos hparts]
  simp only [unsignedWhole_row h.nonempty h.whole h.zero]
  by_cases hlong : Numeral.digitLimit < n.whole.length
  · simp only [if_pos hlong]
    rfl
  · simp only [if_neg hlong]
    cases n.negative <;> rfl

end Yaml

namespace Numeral

variable {n : Number}

/-- No number has a name. -/
theorem readName?_size (h : n.IsJson) : readName? n.size = none := by
  have hdigit : ∃ c ∈ n.size.map Char.toLower, c.isDigit = true := by
    obtain ⟨c, hc, hdigit⟩ := h.digit_mem_size
    have hlower : Json.numberChars.all (fun d => d.toLower.isDigit = d.isDigit) = true := by
      decide +kernel
    have hsame := of_decide_eq_true (List.all_eq_true.mp hlower c (h.mem_size c hc))
    exact ⟨c.toLower, List.mem_map_of_mem hc, hsame.trans hdigit⟩
  have hnames : String.ofList (n.size.map Char.toLower) ∉ ["inf", "infinity", "nan"] :=
    Yaml.not_mem_of_digit hdigit (by decide)
  simp only [List.mem_cons, not_or, List.not_mem_nil, not_false_eq_true, and_true] at hnames
  simp only [readName?, hnames, or_self, if_false]

/-- An exponent starts with its letter. -/
theorem head?_exponentChars (h : n.IsJson) :
    ∀ c ∈ n.exponentChars.head?, c = 'e' ∨ c = 'E' := by
  intro c hc
  cases hexponent : n.exponent with
  | none => simp [Number.exponentChars, hexponent] at hc
  | some e =>
    simp [Number.exponentChars, hexponent, Exponent.chars] at hc
    exact hc ▸ (h.exponent e hexponent).letter

/-- The exponent means the same to both readers. -/
theorem readExponent?_chars (h : n.IsJson) :
    readExponent? n.exponentChars = some (Json.powerOf (n.exponent.map Exponent.parts)) := by
  rw [Number.exponentChars]
  cases hexponent : n.exponent with
  | none => rfl
  | some e =>
    obtain ⟨hletter, hsign, hne, hdigits⟩ := h.exponent e hexponent
    obtain ⟨letter, sign, digits⟩ := e
    have hsplit : splitSign (sign.toList ++ digits) = (decide (sign = some '-'), digits) := by
      cases sign with
      | none => exact splitSign_of_isDigit hdigits
      | some c => obtain rfl | rfl := hsign c rfl <;> rfl
    have hspan : spanDigits false digits = (digits.map fun c => c.toNat - '0'.toNat, []) := by
      have hrest : ∀ c ∈ ([] : List Char).head?, c ≠ '_' ∧ Text.decimalValue? c = none := nofun
      rw [← spanDigits_append false hdigits hrest, List.append_nil]
    obtain ⟨d, more, rfl⟩ := List.exists_cons_of_ne_nil hne
    simp only [Option.map_some, Option.getD_some, Exponent.chars, readExponent?, if_pos hletter, hsplit,
      hspan]
    rfl

/-- The floating point number that a number without its sign is. -/
theorem readSize?_size (h : n.IsJson) :
    readSize? n.size = some (decimalSize (Json.digitValues n.whole) (Json.digitValues n.fraction)
      (Json.powerOf (n.exponent.map Exponent.parts))) := by
  have hends : ∀ c, c = '.' ∨ c = 'e' ∨ c = 'E' → c ≠ '_' ∧ Text.decimalValue? c = none := by
    intro c hc
    obtain rfl | rfl | rfl := hc <;> decide +kernel
  have hwhole : spanDigits false n.size = (Json.digitValues n.whole, n.tail) :=
    spanDigits_append false h.whole fun c hc => hends c (h.head?_tail c hc)
  have hempty : (Json.digitValues n.whole).isEmpty = false := by
    simpa [Json.digitValues] using h.nonempty
  rw [readSize?, hwhole]
  simp only [hempty, Bool.false_and, Bool.false_eq_true, if_false]
  by_cases hfraction : n.fraction = []
  · have hhead := head?_exponentChars h
    have hexponent := readExponent?_chars h
    rw [Number.tail_of_fraction_nil hfraction, hfraction]
    generalize n.exponentChars = cs at hhead hexponent
    split
    · exact absurd (hhead _ rfl) (by decide)
    · simp only [hexponent]
      rfl
  · have hspan : spanDigits false (n.fraction ++ n.exponentChars) =
        (Json.digitValues n.fraction, n.exponentChars) :=
      spanDigits_append false h.fraction fun c hc => hends c (.inr (head?_exponentChars h c hc))
    rw [Number.tail_of_fraction_ne hfraction]
    simp only [hspan, readExponent?_chars h]
    rfl

/-- A number with a point is read to the same size. -/
theorem readFloat_size (h : n.IsJson) :
    readFloat (Text.ofChars n.size) =
      .ok (decimalSize (Json.digitValues n.whole) (Json.digitValues n.fraction)
        (Json.powerOf (n.exponent.map Exponent.parts))) := by
  have hnone : Json.numberChars.all (!isOuterBlank ·) = true := by decide +kernel
  have hblank : ∀ c ∈ n.size, isOuterBlank c = false := by
    intro c hc
    have hnot := List.all_eq_true.mp hnone c (h.mem_size c hc)
    simpa using hnot
  simp only [readFloat, Text.chars?_ofChars, Option.bind_eq_bind, Option.bind_some,
    inner_eq_self hblank, h.splitSign_size, readName?_size h, readSize?_size h]
  simp

end Numeral

/-! ### Lower case -/

/-- The lower case of what numbers are written with. -/
def lowerSign (c : Char) : Char :=
  if c = 'E' then 'e' else c

/-- What numbers are written with has the lower case of single characters. -/
theorem lower_ofChars {cs : List Char} (h : ∀ c ∈ cs, c ∈ Json.numberChars) :
    Text.lower (Text.ofChars cs) = Text.ofChars (cs.map lowerSign) := by
  have hsigns : Json.numberChars.all (fun c =>
      decide (c ≠ Text.capitalSigma) && decide (Text.lowerLetter (.char c) = [.char (lowerSign c)])) =
        true := by
    decide +kernel
  have hfrom : ∀ before, Text.lowerFrom before (Text.ofChars cs) = Text.ofChars (cs.map lowerSign) := by
    induction cs with
    | nil => exact fun _ => rfl
    | cons c cs ih =>
      obtain ⟨hc, hcs⟩ := List.forall_mem_cons.mp h
      obtain ⟨hsigma, hletter⟩ := Bool.and_eq_true_iff.mp (List.all_eq_true.mp hsigns c hc)
      have hsigma : (CodePoint.char c) ≠ .char Text.capitalSigma := fun heq =>
        of_decide_eq_true hsigma (CodePoint.char.inj heq)
      intro before
      show Text.lowerFrom before (.char c :: Text.ofChars cs) = _
      rw [Text.lowerFrom, if_neg hsigma, of_decide_eq_true hletter, ih hcs]
      rfl
  exact hfrom []

namespace Json.Number

/-- The number with a small letter in front of its exponent. -/
def lowered (n : Number) : Number :=
  { n with exponent := n.exponent.map fun e => { e with letter := 'e' } }

variable {n : Number}

theorem IsJson.lowered (h : n.IsJson) : n.lowered.IsJson where
  nonempty := h.nonempty
  whole := h.whole
  zero := h.zero
  fraction := h.fraction
  exponent := by
    intro e he
    obtain ⟨e, hn, rfl⟩ := Option.map_eq_some_iff.mp he
    have hjson := h.exponent e hn
    exact ⟨.inl rfl, hjson.sign, hjson.nonempty, hjson.digits⟩

theorem map_lowerSign {cs : List Char} (h : ∀ c ∈ cs, isDigit c = true) : cs.map lowerSign = cs := by
  have hsame : ∀ c ∈ cs, lowerSign c = c := by
    intro c hc
    refine if_neg fun heq => ?_
    obtain rfl := heq
    exact absurd (h _ hc) (by decide)
  rw [List.map_congr_left hsame, List.map_id']

/-- In lower case an exponent is that of the number with a small letter. -/
theorem IsJson.exponentChars_lowered (h : n.IsJson) :
    n.exponentChars.map lowerSign = n.lowered.exponentChars := by
  rw [exponentChars, exponentChars, Number.lowered]
  cases hexponent : n.exponent with
  | none => rfl
  | some e =>
    obtain ⟨hletter, hsign, -, hdigits⟩ := h.exponent e hexponent
    obtain ⟨letter, sign, digits⟩ := e
    have hletter : lowerSign letter = 'e' := by
      obtain rfl | rfl := hletter <;> rfl
    have hsign : sign.toList.map lowerSign = sign.toList := by
      cases sign with
      | none => rfl
      | some c => obtain rfl | rfl := hsign c rfl <;> rfl
    simp only [Option.map_some, Option.getD_some, Exponent.chars, List.map_cons, List.map_append,
      hletter, hsign, map_lowerSign hdigits]

theorem IsJson.chars_lowered (h : n.IsJson) : n.chars.map lowerSign = n.lowered.chars := by
  have hpointed : (pointed n.fraction).map lowerSign = pointed n.fraction := by
    rw [pointed]
    split
    · rfl
    · exact congrArg ('.' :: ·) (map_lowerSign h.fraction)
  have hsize : n.size.map lowerSign = n.lowered.size := by
    rw [size, tail, List.map_append, List.map_append, map_lowerSign h.whole, hpointed]
    exact congrArg (fun cs => n.whole ++ (pointed n.fraction ++ cs)) h.exponentChars_lowered
  rw [chars, apply_ite (List.map lowerSign), List.map_cons, hsize]
  rfl

theorem parts_lowered (n : Number) :
    n.lowered.exponent.map Exponent.parts = n.exponent.map Exponent.parts := by
  rw [lowered, Option.map_map]
  rfl

end Json.Number

namespace Yaml

variable {n : Number}

theorem ofChars_size_ne (h : n.IsJson) (rest : Text) : Text.ofChars n.size ≠ .char '.' :: rest := by
  obtain ⟨c, more, hsize, hc⟩ := h.exists_digit
  rw [hsize]
  intro heq
  obtain rfl := CodePoint.char.inj (List.cons.inj heq).1
  exact absurd hc (by decide)

theorem unsignedDecimal_size (h : n.IsJson) :
    unsignedDecimal (Text.ofChars n.size) =
      .ok (Numeral.decimalSize (Json.digitValues n.whole) (Json.digitValues n.fraction)
        (Json.powerOf (n.exponent.map Exponent.parts))) := by
  have hinfinite : Text.ofChars n.size ≠ ".inf" := ofChars_size_ne h ['i', 'n', 'f']
  have hcolon : (Text.ofChars n.size).contains ':' = false := by
    rw [List.contains_eq_any_beq, List.any_eq_false]
    intro c hc heq
    obtain ⟨d, hd, rfl⟩ := List.mem_map.mp hc
    obtain rfl := CodePoint.char.inj (beq_iff_eq.mp heq)
    exact absurd (h.mem_size _ hd) (by decide)
  simp only [unsignedDecimal, if_neg hinfinite, hcolon, Numeral.readFloat_size h]
  rfl

/-- A number with a fraction stands for itself. -/
theorem readDecimal_number (h : n.IsJson) (htail : n.tail.isEmpty = false) (origin : Origin) :
    readDecimal origin (Text.ofChars n.chars) = n.value.mapError .number := by
  have hlow : '_' ∉ n.chars := fun hmem => absurd (h.mem_chars _ hmem) (by decide)
  have hlowered := h.lowered
  have hempty : (Text.ofChars n.lowered.chars).isEmpty = false := by
    obtain ⟨c, hc, -⟩ := hlowered.digit_mem_chars
    simpa [Text.ofChars] using List.ne_nil_of_mem hc
  have hnan : Text.ofChars n.lowered.size ≠ ".nan" := ofChars_size_ne hlowered ['n', 'a', 'n']
  have hparts : (n.fraction.isEmpty && (n.exponent.map Exponent.parts).isNone) = false := by
    rw [Option.isNone_map, ← n.tail_isEmpty, htail]
  rw [readDecimal, filter_ofChars hlow, lower_ofChars h.mem_chars, h.chars_lowered]
  simp only [hempty, splitSign_ofChars, hlowered.splitSign_chars, if_neg hnan,
    unsignedDecimal_size hlowered, n.parts_lowered, Bool.false_eq_true, if_false, Except.map,
    Numeral.decimalSize_isNaN]
  rw [Number.value, Json.numberOf, hparts, if_neg Bool.false_ne_true]
  rfl

/-- **The numbers of JSON in YAML.** -/
theorem scalarValue_number (h : n.IsJson) (origin : Origin) :
    scalarValue (kindOfText (Text.ofChars n.chars)) origin (Text.ofChars n.chars) =
      if n.isCommon then n.value.mapError .number else .ok (.str (Text.ofChars n.chars)) := by
  rw [kindOfText_number h]
  cases htail : n.tail.isEmpty with
  | true =>
    have hnone : n.isCommon = true := by
      rw [n.tail_isEmpty, Bool.and_eq_true, Option.isNone_iff_eq_none] at htail
      rw [Number.isCommon, htail.2]
      rfl
    rw [if_pos rfl, hnone, if_pos rfl]
    exact readWhole_number h (List.isEmpty_iff.mp htail)
  | false =>
    rw [if_neg Bool.false_ne_true]
    split
    · exact readDecimal_number h htail origin
    · rfl

end Yaml

end ApiLint
