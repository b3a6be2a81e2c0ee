import ApiLint.Proofs.Document.References
import ApiLint.Proofs.Json.Sound
import ApiLint.Value.Display
import Mathlib.Algebra.Group.Nat.Defs
import Mathlib.Data.List.TakeWhile

/-! What is read from JSON is bounded. It does not contain itself (`read_isFinite`); and a numeral with too
many digits to be written is not read either, and so all that is read can be written
(`read_isWritable`). -/
namespace ApiLint.Json

variable {v : Value}

/-- What is read from JSON does not contain itself. -/
theorem read_isFinite {t : Text} (h : read t = .ok v) : v.IsFinite :=
  read_induction {
    str := fun _ => .scalar rfl
    scalar := fun _ _ _ h => .scalar (isScalar_of_readScalar h)
    list := fun _ => .list
    map := fun _ hpairs => .map <|
      Entries.ofPairs_induction (P := fun entries => ∀ e ∈ entries, e.2.IsFinite)
        (List.forall_mem_nil _) fun _ hentries pair hpair e he => by
          obtain hmem | ⟨-, heq⟩ := Entries.mem_put he
          · exact hentries e hmem
          · exact heq ▸ (hpairs pair hpair).2 } h

/-! ### Whole numbers -/

/-- A row of digits is less than ten to the power of their count. -/
theorem ofDigits_lt {digits : List Nat} (h : ∀ d ∈ digits, d < 10) :
    Numeral.ofDigits 10 digits < 10 ^ digits.length := by
  have hfold : ∀ n, digits.foldl (fun n d => n * 10 + d) n < (n + 1) * 10 ^ digits.length := by
    induction digits with
    | nil => exact fun n => by simp
    | cons d digits ih =>
      obtain ⟨hd, hdigits⟩ := List.forall_mem_cons.mp h
      intro n
      have hstep : n * 10 + d + 1 ≤ (n + 1) * 10 := by omega
      calc digits.foldl (fun n d => n * 10 + d) (n * 10 + d)
          < (n * 10 + d + 1) * 10 ^ digits.length := ih hdigits _
        _ ≤ (n + 1) * 10 * 10 ^ digits.length := Nat.mul_le_mul_right _ hstep
        _ = (n + 1) * 10 ^ (digits.length + 1) := by
          rw [Nat.pow_succ, Nat.mul_assoc, Nat.mul_comm 10]
  simpa [Numeral.ofDigits] using hfold 0

theorem lt_ten_of_mem_digitValues {cs : List Char} (h : ∀ c ∈ cs, isDigit c = true) :
    ∀ d ∈ digitValues cs, d < 10 := by
  intro d hd
  obtain ⟨c, hc, rfl⟩ := List.mem_map.mp hd
  have hdigit := h c hc
  simp only [isDigit, Bool.and_eq_true, decide_eq_true_iff, Char.le_def,
    UInt32.le_iff_toNat_le] at hdigit
  have hhigh : c.toNat ≤ 0x39 := hdigit.2
  omega

theorem tenTo_le {m n : Nat} (h : m ≤ n) : Numeral.tenTo m ≤ Numeral.tenTo n :=
  Nat.pow_le_pow_right (by decide) h

theorem hasLongNumeral_int {n : Int} (h : n.natAbs < Value.writableLimit) :
    (Value.int n).hasLongNumeral = false :=
  decide_eq_false (Nat.not_le.mpr h)

/-- The number that a numeral stands for can be written, unless the numeral is too long. -/
theorem hasLongNumeral_of_digits {cs : List Char} (h : ∀ c ∈ cs, isDigit c = true)
    (hlength : cs.length ≤ Numeral.digitLimit) (negative : Bool) :
    (Value.int (if negative then -(Numeral.ofDigits 10 (digitValues cs) : Int)
      else (Numeral.ofDigits 10 (digitValues cs) : Int))).hasLongNumeral = false := by
  have hpow : Numeral.tenTo cs.length ≤ Value.writableLimit := tenTo_le hlength
  have hlt : Numeral.ofDigits 10 (digitValues cs) < Numeral.tenTo cs.length := by
    have hlt := ofDigits_lt (lt_ten_of_mem_digitValues h)
    rwa [digitValues, List.length_map] at hlt
  refine hasLongNumeral_int (Nat.lt_of_lt_of_le ?_ hpow)
  split
  · rwa [Int.natAbs_neg, Int.natAbs_natCast]
  · rwa [Int.natAbs_natCast]

/-- A number that is read has no more digits than can be written. -/
theorem hasLongNumeral_of_readNumber? {negative : Bool} {body rest : List Char}
    (h : readNumber? negative body = some (.ok v, rest)) : v.hasLongNumeral = false := by
  unfold readNumber? at h
  extract_lets whole at h
  have hwhole : ∀ c ∈ whole, isDigit c = true := by
    unfold whole
    split
    · exact List.forall_mem_singleton.mpr rfl
    · exact fun c hc => List.mem_takeWhile_imp hc
  clear_value whole
  split at h
  · cases h
  · dsimp only at h
    split at h
    · split at h
      · cases h
      · next hlength =>
        cases h
        exact hasLongNumeral_of_digits hwhole (Nat.not_lt.mp hlength) negative
    · cases h
      rfl

theorem hasLongNumeral_of_names : ∀ name ∈ names, name.2.hasLongNumeral = false := by
  simp [names, Value.hasLongNumeral]

/-- The same of everything without parts. -/
theorem hasLongNumeral_of_readScalar {t rest : Text} (h : readScalar t = .ok (v, rest)) :
    v.hasLongNumeral = false := by
  unfold readScalar at h
  simp only at h
  split at h
  · cases h
  · cases h
  · next hscalar =>
    cases h
    unfold readScalar? at hscalar
    split at hscalar
    · next hname =>
      cases hscalar
      exact hasLongNumeral_of_names _ (List.mem_of_find?_eq_some hname)
    · split at hscalar
      · exact hasLongNumeral_of_readNumber? hscalar
      · exact hasLongNumeral_of_readNumber? hscalar

theorem hasLongNumerals_eq_false {items : List Value} :
    Value.hasLongNumerals items = false ↔ ∀ v ∈ items, v.hasLongNumeral = false := by
  induction items with
  | nil => exact ⟨fun _ => List.forall_mem_nil _, fun _ => rfl⟩
  | cons v items ih =>
    rw [Value.hasLongNumerals, Bool.or_eq_false_iff, ih, List.forall_mem_cons]

theorem hasLongEntries_eq_false {entries : Entries} :
    Value.hasLongEntries entries = false ↔
      ∀ e ∈ entries, e.1.hasLongNumeral = false ∧ e.2.hasLongNumeral = false := by
  induction entries with
  | nil => exact ⟨fun _ => List.forall_mem_nil _, fun _ => rfl⟩
  | cons e entries ih =>
    rw [Value.hasLongEntries, Bool.or_eq_false_iff, Bool.or_eq_false_iff, ih, List.forall_mem_cons]

/-- An entry more brings no long number into entries that have none. -/
theorem hasLongEntries_put {key : Value} {entries : Entries} (hkey : key.hasLongNumeral = false)
    (hv : v.hasLongNumeral = false) (h : Value.hasLongEntries entries = false) :
    Value.hasLongEntries (entries.put key v) = false := by
  induction entries with
  | nil => rw [Entries.put, Value.hasLongEntries, hkey, hv, h]; rfl
  | cons e entries ih =>
    obtain ⟨k, w⟩ := e
    rw [Value.hasLongEntries, Bool.or_eq_false_iff, Bool.or_eq_false_iff] at h
    obtain ⟨⟨hk, hw⟩, hentries⟩ := h
    rw [Entries.put]
    split
    · rw [Value.hasLongEntries, hk, hv, hentries]
      rfl
    · rw [Value.hasLongEntries, hk, hw, ih hentries]
      rfl

/-- All that is read from JSON can be written. -/
theorem read_isWritable {t : Text} (h : read t = .ok v) : v.hasLongNumeral = false :=
  read_induction {
    str := fun _ => rfl
    scalar := fun _ _ _ => hasLongNumeral_of_readScalar
    list := fun _ => hasLongNumerals_eq_false.mpr
    map := fun _ hpairs =>
      Entries.ofPairs_induction (P := fun entries => Value.hasLongEntries entries = false) rfl
        fun _ hentries pair hpair => by
          obtain ⟨⟨name, hname⟩, hv⟩ := hpairs pair hpair
          exact hasLongEntries_put (hname ▸ rfl) hv hentries } h

/-- What a walk over a value meets can be written if the value can. -/
theorem elements_isWritable {elements : List Value} (hv : v.IsFinite) (h : v.hasLongNumeral = false)
    (helements : v.elements? = some elements) : ∀ s ∈ elements, s.hasLongNumeral = false := by
  have hbyte : ∀ b : UInt8, (Value.int b.toNat).hasLongNumeral = false := fun b =>
    hasLongNumeral_int <| Nat.lt_of_lt_of_le (Nat.lt_trans b.toNat_lt (by decide))
      (tenTo_le (by decide : 3 ≤ Numeral.digitLimit))
  rw [Value.elements?, hv.opened] at helements
  split at helements
  · exact hasLongNumerals_eq_false.mp (Option.some.inj helements ▸ h)
  · exact hasLongNumerals_eq_false.mp (Option.some.inj helements ▸ h)
  · exact hasLongNumerals_eq_false.mp (Option.some.inj helements ▸ h)
  · obtain rfl := Option.some.inj helements
    intro s hs
    obtain ⟨e, he, rfl⟩ := List.mem_map.mp hs
    exact (hasLongEntries_eq_false.mp h e he).1
  · obtain rfl := Option.some.inj helements
    intro s hs
    obtain ⟨c, -, rfl⟩ := List.mem_map.mp hs
    rfl
  · obtain rfl := Option.some.inj helements
    intro s hs
    obtain ⟨b, -, rfl⟩ := List.mem_map.mp hs
    exact hbyte b
  · cases helements

end ApiLint.Json
