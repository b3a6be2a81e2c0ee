import ApiLint.Json.Writer
import ApiLint.Proofs.Json.Spelling

/-! Texts as JSON writes them. A character is written as it is, by a letter behind a backslash, or by the
code of one unit or of two, and what follows the closing quote may be anything. What stands between quotes
has one reading (`Body.unique`), and what is written for a text reads as that text once halves are joined
to pairs (`joinHalves_flatMap_units`). So rows that are written alike are rows of the same texts
(`row_inj`), whatever signs the texts hold. -/
namespace ApiLint

/-! ### Codes -/

namespace Text

theorem hexValue?_hexDigit : ∀ n < 16, hexValue? (hexDigit n) = some n := by
  decide

theorem length_hexDigits (width n : Nat) : (hexDigits width n).length = width := by
  induction width generalizing n with
  | zero => rfl
  | succ width ih => rw [hexDigits, List.length_append, ih, List.length_singleton]

theorem hexNumber?_hexDigits {width n : Nat} (h : n < 16 ^ width) :
    hexNumber? (hexDigits width n) = some n := by
  induction width generalizing n with
  | zero => rw [Nat.lt_one_iff.mp h]; rfl
  | succ width ih =>
    have hfront : hexNumber? (hexDigits width (n / 16)) = some (n / 16) :=
      ih (Nat.div_lt_of_lt_mul (Nat.pow_succ' ▸ h))
    unfold hexNumber? at hfront ⊢
    rw [hexDigits, List.foldl_append, hfront, List.foldl_cons, List.foldl_nil,
      hexValue?_hexDigit _ (Nat.mod_lt n (by decide))]
    exact congrArg some (Nat.div_add_mod' n 16)

end Text

namespace CodePoint

theorem ofCode_toNat (c : Char) : ofCode c.toNat = .char c := by
  have hvalid : c.toNat < 0xD800 ∨ 0xDFFF < c.toNat ∧ c.toNat < 0x110000 := c.valid
  have hnot : ¬(firstHalf ≤ c.toNat ∧ c.toNat - firstHalf < 0x800) := by
    simp only [firstHalf]
    omega
  rw [ofCode, dif_neg hnot, Char.ofNat_toNat]

end CodePoint

namespace Json

/-! ### What is written for a character -/

/-- The first half of the pair for a character beyond the first 0x10000. -/
def highCode (c : Char) : Nat :=
  0xD800 + (c.toNat - 0x10000) / 0x400

def lowCode (c : Char) : Nat :=
  0xDC00 + (c.toNat - 0x10000) % 0x400

/-- The code points that are written one by one for a character. -/
def units (c : Char) : Text :=
  if c.toNat < 0x10000 then [.char c] else [.ofCode (highCode c), .ofCode (lowCode c)]

theorem highCode_bounds (c : Char) : 0xD800 ≤ highCode c ∧ highCode c < 0xDC00 := by
  have hvalid : c.toNat < 0xD800 ∨ 0xDFFF < c.toNat ∧ c.toNat < 0x110000 := c.valid
  simp only [highCode]
  omega

theorem lowCode_bounds (c : Char) : 0xDC00 ≤ lowCode c ∧ lowCode c < 0xE000 := by
  simp only [lowCode]
  omega

theorem pairChar_codes {c : Char} (h : ¬c.toNat < 0x10000) :
    pairChar (highCode c) (lowCode c) = c := by
  have hnumber : 0x10000 + (highCode c - 0xD800) * 0x400 + (lowCode c - 0xDC00) = c.toNat := by
    simp only [highCode, lowCode]
    omega
  rw [pairChar, hnumber, Char.ofNat_toNat]

/-- The text is read again, pair by pair. -/
theorem joinHalves_flatMap_units (cs : List Char) :
    joinHalves (cs.flatMap units) = Text.ofChars cs := by
  induction cs with
  | nil => rfl
  | cons c cs ih =>
    rw [List.flatMap_cons, units]
    split
    · rw [List.singleton_append, joinHalves_of_not_high (not_isHighHalf c), ih]
      rfl
    · next hlarge =>
      have hhigh := highCode_bounds c
      have hlow := lowCode_bounds c
      have hfirst : (CodePoint.ofCode (highCode c)).code = highCode c :=
        CodePoint.code_ofCode (by omega)
      have hlast : (CodePoint.ofCode (lowCode c)).code = lowCode c :=
        CodePoint.code_ofCode (by omega)
      have hpair := joinHalves_pair (a := .ofCode (highCode c)) (b := .ofCode (lowCode c))
        (t := cs.flatMap units) (by rw [hfirst]; exact isHighHalf_iff.mpr hhigh)
        (by rw [hlast]; exact isLowHalf_iff.mpr hlow)
      rw [hfirst, hlast, pairChar_codes hlarge, ih] at hpair
      exact hpair

namespace Body

variable {body : List Char} {t : Text}

theorem unitEscape {code : Nat} (hcode : code < 0x10000) (h : Body body t) :
    Body (unitEscape code ++ body) (.ofCode code :: t) :=
  .code (Text.length_hexDigits 4 code) (Text.hexNumber?_hexDigits hcode) h

/-- A written character is the body of a string with its code points: one, or a pair. -/
theorem writeChar (c : Char) (h : Body body t) : Body (writeChar c ++ body) (units c ++ t) := by
  unfold Json.writeChar
  split_ifs with hquote hslash hn hr ht hb hf hplain hsmall
  · subst hquote; exact .escape rfl h
  · subst hslash; exact .escape rfl h
  · subst hn; exact .escape rfl h
  · subst hr; exact .escape rfl h
  · subst ht; exact .escape rfl h
  · subst hb; exact .escape rfl h
  · subst hf; exact .escape rfl h
  · rw [units, if_pos (by omega)]
    exact .plain hquote hslash hplain.1 h
  · rw [units, if_pos hsmall]
    exact CodePoint.ofCode_toNat c ▸ h.unitEscape hsmall
  · have hhigh := highCode_bounds c
    have hlow := lowCode_bounds c
    show Body (Json.unitEscape (highCode c) ++ Json.unitEscape (lowCode c) ++ body) _
    rw [units, if_neg hsmall, List.append_assoc]
    exact (h.unitEscape (by omega)).unitEscape (by omega)

theorem flatMap_writeChar (cs : List Char) : Body (cs.flatMap Json.writeChar) (cs.flatMap units) := by
  induction cs with
  | nil => exact .nil
  | cons c cs ih => exact ih.writeChar c

/-- What stands between quotes is told apart from what follows, and stands for one row of code points. The
induction is on the one reading; the first sign of the other is the same, so both take the same step. -/
theorem unique {body body' rest rest' : List Char} {t t' : Text} (h : Body body t)
    (h' : Body body' t') (heq : body ++ '"' :: rest = body' ++ '"' :: rest') :
    t = t' ∧ rest = rest' := by
  induction h generalizing body' t' with
  | nil =>
    cases h' with
    | nil => exact ⟨rfl, (List.cons.inj heq).2⟩
    | plain hquote => exact absurd (List.cons.inj heq).1.symm hquote
    | escape => exact absurd (List.cons.inj heq).1 (by decide)
    | code => exact absurd (List.cons.inj heq).1 (by decide)
  | plain hquote hslash _ _ ih =>
    cases h' with
    | nil => exact absurd (List.cons.inj heq).1 hquote
    | plain _ _ _ h' =>
      obtain ⟨rfl, hlater⟩ := List.cons.inj heq
      obtain ⟨rfl, hrest⟩ := ih h' hlater
      exact ⟨rfl, hrest⟩
    | escape => exact absurd (List.cons.inj heq).1 hslash
    | code => exact absurd (List.cons.inj heq).1 hslash
  | escape hd _ ih =>
    cases h' with
    | nil => exact absurd (List.cons.inj heq).1 (by decide)
    | plain _ hslash => exact absurd (List.cons.inj heq).1.symm hslash
    | escape hd' h' =>
      obtain ⟨rfl, hlater⟩ := List.cons.inj (List.cons.inj heq).2
      obtain rfl := Option.some.inj (hd.symm.trans hd')
      obtain ⟨rfl, hrest⟩ := ih h' hlater
      exact ⟨rfl, hrest⟩
    | code =>
      obtain ⟨rfl, -⟩ := List.cons.inj (List.cons.inj heq).2
      cases hd
  | code hlength hcode _ ih =>
    cases h' with
    | nil => exact absurd (List.cons.inj heq).1 (by decide)
    | plain _ hslash => exact absurd (List.cons.inj heq).1.symm hslash
    | escape hd' =>
      obtain ⟨rfl, -⟩ := List.cons.inj (List.cons.inj heq).2
      cases hd'
    | code hlength' hcode' h' =>
      simp only [List.cons_append, List.append_assoc, List.cons.injEq, true_and] at heq
      obtain ⟨rfl, hlater⟩ := List.append_inj heq (hlength.trans hlength'.symm)
      obtain rfl := Option.some.inj (hcode.symm.trans hcode')
      obtain ⟨rfl, hrest⟩ := ih h' hlater
      exact ⟨rfl, hrest⟩

end Body

/-! ### Texts and rows of texts -/

/-- A text between its quotes, whatever comes behind it. -/
theorem writeString_append (cs rest : List Char) :
    writeString (Text.ofChars cs) ++ rest = '"' :: (cs.flatMap writeChar ++ '"' :: rest) := by
  simp [writeString, Text.ofChars, List.flatMap_map, writePoint]

theorem writeString_inj {cs ds rest rest' : List Char}
    (h : writeString (Text.ofChars cs) ++ rest = writeString (Text.ofChars ds) ++ rest') :
    cs = ds ∧ rest = rest' := by
  rw [writeString_append, writeString_append] at h
  obtain ⟨hunits, hrest⟩ :=
    (Body.flatMap_writeChar cs).unique (Body.flatMap_writeChar ds) (List.cons.inj h).2
  have hjoin := congrArg joinHalves hunits
  rw [joinHalves_flatMap_units, joinHalves_flatMap_units] at hjoin
  exact ⟨Text.ofChars_inj.mp hjoin, hrest⟩

/-- A row of written texts in front of its closing bracket. -/
def row (texts : List (List Char)) (rest : List Char) : List Char :=
  commas (texts.map fun cs => writeString (Text.ofChars cs)) ++ ']' :: rest

theorem row_cons (cs : List Char) (texts : List (List Char)) (rest : List Char) :
    row (cs :: texts) rest = writeString (Text.ofChars cs) ++
      if texts = [] then ']' :: rest else ',' :: ' ' :: row texts rest := by
  cases texts <;> simp [row, commas]

/-- Rows of texts that are written alike, whatever comes behind them, have the same texts. -/
theorem row_inj {texts texts' : List (List Char)} {rest rest' : List Char}
    (h : row texts rest = row texts' rest') : texts = texts' ∧ rest = rest' := by
  induction texts generalizing texts' with
  | nil =>
    cases texts' with
    | nil => exact ⟨rfl, (List.cons.inj h).2⟩
    | cons ds texts' =>
      rw [row_cons, writeString_append] at h
      exact absurd (List.cons.inj h).1 (by decide)
  | cons cs texts ih =>
    cases texts' with
    | nil =>
      rw [row_cons, writeString_append] at h
      exact absurd (List.cons.inj h).1 (by decide)
    | cons ds texts' =>
      rw [row_cons, row_cons] at h
      obtain ⟨rfl, hlater⟩ := writeString_inj h
      split_ifs at hlater with hend hend' hend'
      · exact ⟨by rw [hend, hend'], (List.cons.inj hlater).2⟩
      · exact absurd (List.cons.inj hlater).1 (by decide)
      · exact absurd (List.cons.inj hlater).1 (by decide)
      · obtain ⟨rfl, hrest⟩ := ih (List.cons.inj (List.cons.inj hlater).2).2
        exact ⟨rfl, hrest⟩

end Json

end ApiLint
