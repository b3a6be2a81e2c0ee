import ApiLint.Text.Utf8

/-! Texts survive being written as bytes (`decode_encode`): the bytes of each character take the machine
through that character and leave it where it was. -/
namespace ApiLint.Text.Utf8

variable {position : Nat} {rest : List UInt8}

theorem toNat_ofNat_add (n low : Nat) (h : n + low < 256) :
    (UInt8.ofNat (n + low)).toNat = n + low := by
  rw [UInt8.toNat_ofNat', Nat.mod_eq_of_lt h]

/-! ### First bytes -/

theorem begin?_one {n : Nat} (h : n < 0x80) :
    begin? (UInt8.ofNat n) position = some (.inl (Char.ofNat n)) := by
  have hn := toNat_ofNat_add n 0 (by omega)
  rw [Nat.add_zero] at hn
  simp only [begin?, hn, if_pos h]

theorem begin?_two {n : Nat} (hlow : 2 ≤ n) (hhigh : n < 32) :
    begin? (UInt8.ofNat (n + 192)) position =
      some (.inr { byte := UInt8.ofNat (n + 192), start := position, bits := n, missing := 1 }) := by
  have hn := toNat_ofNat_add n 192 (by omega)
  simp only [begin?, hn]
  rw [if_neg (by omega), if_neg (by omega), if_pos (by omega), Nat.add_sub_cancel]

theorem begin?_three {n : Nat} (hhigh : n < 16) :
    begin? (UInt8.ofNat (n + 224)) position =
      some (.inr { byte := UInt8.ofNat (n + 224), start := position, bits := n, missing := 2
                   low := if n = 0 then 0xA0 else 0x80, high := if n = 13 then 0x9F else 0xBF }) := by
  have hn := toNat_ofNat_add n 224 (by omega)
  simp only [begin?, hn]
  rw [if_neg (by omega), if_neg (by omega), if_neg (by omega), if_pos (by omega), Nat.add_sub_cancel]
  simp

theorem begin?_four {n : Nat} (hhigh : n < 5) :
    begin? (UInt8.ofNat (n + 240)) position =
      some (.inr { byte := UInt8.ofNat (n + 240), start := position, bits := n, missing := 3
                   low := if n = 0 then 0x90 else 0x80, high := if n = 4 then 0x8F else 0xBF }) := by
  have hn := toNat_ofNat_add n 240 (by omega)
  simp only [begin?, hn]
  rw [if_neg (by omega), if_neg (by omega), if_neg (by omega), if_neg (by omega), if_pos (by omega),
    Nat.add_sub_cancel]
  simp

/-! ### Later bytes -/

section Later
variable {p : Partial} {n : Nat} (hn : n < 64) (hlow : p.low ≤ n + 128) (hhigh : n + 128 ≤ p.high)
include hn hlow hhigh

theorem decodeFrom_last (hmissing : p.missing = 1) :
    decodeFrom position (some p) (UInt8.ofNat (n + 128) :: rest) =
      (decodeFrom (position + 1) none rest).map (Char.ofNat (p.bits * 64 + n) :: ·) := by
  have hbyte := toNat_ofNat_add n 128 (by omega)
  rw [decodeFrom]
  simp only [hbyte, Nat.add_sub_cancel]
  rw [if_neg (by omega), if_pos hmissing]

theorem decodeFrom_more (hmissing : p.missing ≠ 1) :
    decodeFrom position (some p) (UInt8.ofNat (n + 128) :: rest) =
      decodeFrom (position + 1) (some { byte := p.byte, start := p.start, bits := p.bits * 64 + n
                                        missing := p.missing - 1 }) rest := by
  have hbyte := toNat_ofNat_add n 128 (by omega)
  rw [decodeFrom]
  simp only [hbyte, Nat.add_sub_cancel]
  rw [if_neg (by omega), if_neg hmissing]

end Later

/-! ### Characters -/

theorem decodeFrom_begin {byte : UInt8} {p : Partial} (h : begin? byte position = some (.inr p)) :
    decodeFrom position none (byte :: rest) = decodeFrom (position + 1) (some p) rest := by
  simp only [decodeFrom, h]

/-- The bytes of a character are read as that character. -/
theorem decodeFrom_character (c : Char) (position : Nat) (rest : List UInt8) :
    decodeFrom position none (String.utf8EncodeChar c ++ rest) =
      (decodeFrom (position + (String.utf8EncodeChar c).length) none rest).map (c :: ·) := by
  have hvalid : c.toNat < 0xD800 ∨ 0xDFFF < c.toNat ∧ c.toNat < 0x110000 := c.valid
  have hchar : ∀ n, n = c.toNat → Char.ofNat n = c := fun n hn => hn ▸ Char.ofNat_toNat c
  -- Everything below is about the number of the character.
  obtain ⟨n, hn⟩ : ∃ n, n = c.val.toNat := ⟨_, rfl⟩
  change c.val.toNat < _ ∨ _ < c.val.toNat ∧ c.val.toNat < _ at hvalid
  change ∀ m, m = c.val.toNat → _ at hchar
  rw [String.utf8EncodeChar]
  simp only [← hn] at hvalid hchar ⊢
  by_cases h1 : n ≤ 127
  · rw [if_pos h1]
    simp only [List.cons_append, List.nil_append, List.length_cons, List.length_nil, decodeFrom,
      begin?_one (Nat.lt_succ_of_le h1), hchar n rfl]
  by_cases h2 : n ≤ 2047
  · rw [if_neg h1, if_pos h2]
    show decodeFrom position none (_ :: _ :: rest) = _
    rw [decodeFrom_begin (begin?_two (by omega) (by omega)),
      decodeFrom_last (by omega) (by dsimp only; omega) (by dsimp only; omega) rfl,
      hchar _ (by dsimp only; omega)]
    rfl
  by_cases h3 : n ≤ 65535
  · rw [if_neg h1, if_neg h2, if_pos h3]
    show decodeFrom position none (_ :: _ :: _ :: rest) = _
    rw [decodeFrom_begin (begin?_three (by omega)),
      decodeFrom_more (by omega) (by dsimp only; split <;> omega) (by dsimp only; split <;> omega)
        (by simp),
      decodeFrom_last (by omega) (by dsimp only; omega) (by dsimp only; omega) rfl,
      hchar _ (by dsimp only; omega)]
    rfl
  · rw [if_neg h1, if_neg h2, if_neg h3]
    show decodeFrom position none (_ :: _ :: _ :: _ :: rest) = _
    rw [decodeFrom_begin (begin?_four (by omega)),
      decodeFrom_more (by omega) (by dsimp only; split <;> omega) (by dsimp only; split <;> omega)
        (by simp),
      decodeFrom_more (by omega) (by dsimp only; omega) (by dsimp only; omega) (by simp),
      decodeFrom_last (by omega) (by dsimp only; omega) (by dsimp only; omega) rfl,
      hchar _ (by dsimp only; omega)]
    rfl

/-- **A text is read back from its bytes.** -/
theorem decode_encode (cs : List Char) : decode (encode cs) = .ok cs := by
  have hfrom : ∀ position, decodeFrom position none (encode cs) = .ok cs := by
    induction cs with
    | nil => exact fun _ => rfl
    | cons c cs ih =>
      intro position
      rw [encode, List.flatMap_cons, decodeFrom_character, ← encode, ih]
      rfl
  exact hfrom 0

end ApiLint.Text.Utf8
