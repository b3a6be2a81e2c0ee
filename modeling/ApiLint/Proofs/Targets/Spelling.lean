import ApiLint.Proofs.Path
import ApiLint.Proofs.Targets.Below
import ApiLint.Targets

/-! How version control prints names. A name of visible characters is printed as it is; any other stands
between quotes, with backslashes in front of letters or octal digits for its bytes. No printed name has a
line end in it, so the lines of a listing are its names as they are printed (`files?_printed`). That is what a
name is exactly if it is printed as it is (`spelled_eq_self_iff`); else it ends in a quote and has none of
the suffixes (`suffix_spelled`). -/
namespace ApiLint

namespace Text

variable {row rest : Text}

/-- A line of a listing ends at its newline. -/
theorem linesFrom_append_newline (line : Text) (h : ∀ p ∈ row, p.isA isLineEnd = false) :
    linesFrom line (row ++ .char '\n' :: rest) = (line.reverse ++ row) :: linesFrom [] rest := by
  induction row generalizing line with
  | nil =>
    rw [List.append_nil, List.nil_append, linesFrom]
    · rfl
    · simp
  | cons p row ih =>
    obtain ⟨hp, hrow⟩ := List.forall_mem_cons.mp h
    rw [List.cons_append, linesFrom, hp, if_neg Bool.false_ne_true, ih _ hrow]
    · simp
    · rintro _ rfl
      cases hp

/-- Rows without line ends, with a newline behind each, are the lines of what they make. -/
theorem lines_flatMap {α : Type} {xs : List α} {f : α → Text}
    (h : ∀ x ∈ xs, ∀ p ∈ f x, p.isA isLineEnd = false) :
    lines (xs.flatMap fun x => f x ++ "\n") = xs.map f := by
  induction xs with
  | nil => rfl
  | cons x xs ih =>
    obtain ⟨hx, hxs⟩ := List.forall_mem_cons.mp h
    rw [List.flatMap_cons, List.append_assoc, List.map_cons, ← ih hxs]
    exact linesFrom_append_newline [] hx

end Text

namespace Targets

/-- Whether a byte of a name is printed as it is: a visible character or a space, but no quote and no
backslash. -/
def isVerbatimByte (b : UInt8) : Bool :=
  0x20 ≤ b.toNat && b.toNat < 0x7F && b.toNat ≠ 0x22 && b.toNat ≠ 0x5C

/-- The letters that stand for bytes behind a backslash. -/
def escapeLetters : List (Nat × Char) :=
  [(0x07, 'a'), (0x08, 'b'), (0x09, 't'), (0x0A, 'n'), (0x0B, 'v'), (0x0C, 'f'), (0x0D, 'r'),
   (0x22, '"'), (0x5C, '\\')]

def octalDigits (b : UInt8) : List Char :=
  [b.toNat / 64, b.toNat / 8 % 8, b.toNat % 8].map Nat.digitChar

/-- A byte as it is printed: as it is, or a backslash and its letter or its digits. -/
def spelledByte (b : UInt8) : List Char :=
  if isVerbatimByte b then [Char.ofNat b.toNat]
  else '\\' :: ((escapeLetters.lookup b.toNat).map ([·])).getD (octalDigits b)

/-- Whether a name is printed as it is. -/
def isVerbatim (name : Text) : Bool :=
  (Text.bytes name).all isVerbatimByte

/-- A name as it is printed: as it is, or byte by byte between quotes. -/
def spelled (name : Text) : Text :=
  let spelling := (Text.bytes name).flatMap spelledByte
  .ofChars (if isVerbatim name then spelling else '"' :: spelling ++ ['"'])

/-- A listing of names, a line for each. -/
def printed (names : List Text) : Text :=
  names.flatMap fun name => spelled name ++ "\n"

section Spelling
variable {b : UInt8} {name : Text}

theorem toNat_ofNat_byte (b : UInt8) : (Char.ofNat b.toNat).toNat = b.toNat := by
  have hb : b.toNat < 256 := b.toNat_lt
  have hvalid : b.toNat.isValidChar := .inl (by omega)
  rw [Char.ofNat, dif_pos hvalid]
  rfl

theorem visible_of_isVerbatimByte (h : isVerbatimByte b = true) : 0x20 ≤ b.toNat ∧ b.toNat < 0x7F := by
  simp only [isVerbatimByte, Bool.and_eq_true, decide_eq_true_eq] at h
  exact h.1.1

/-- What is printed is visible. -/
theorem visible_spelledByte {c : Char} (hc : c ∈ spelledByte b) : 0x20 ≤ c.toNat ∧ c.toNat < 0x7F := by
  have hletters : ∀ e ∈ escapeLetters, 0x20 ≤ e.2.toNat ∧ e.2.toNat < 0x7F := by decide
  have hdigits : ∀ n < 8, 0x20 ≤ (Nat.digitChar n).toNat ∧ (Nat.digitChar n).toNat < 0x7F := by decide
  have hb : b.toNat < 256 := b.toNat_lt
  rw [spelledByte] at hc
  split at hc
  · next hverbatim =>
    obtain rfl := List.mem_singleton.mp hc
    rw [toNat_ofNat_byte]
    exact visible_of_isVerbatimByte hverbatim
  · obtain rfl | hc := List.mem_cons.mp hc
    · decide
    · cases hletter : escapeLetters.lookup b.toNat with
      | some letter =>
        rw [hletter] at hc
        obtain ⟨before, after, heq, -⟩ := List.lookup_eq_some_iff.mp hletter
        rw [List.mem_singleton.mp hc]
        exact hletters (b.toNat, letter) (heq ▸ List.mem_append_right before List.mem_cons_self)
      | none =>
        rw [hletter] at hc
        obtain ⟨n, hn, rfl⟩ := List.mem_map.mp hc
        refine hdigits n ?_
        simp only [List.mem_cons, List.not_mem_nil, or_false] at hn
        omega

/-- However a name is printed, it stays on its line. -/
theorem isLineEnd_spelled : ∀ p ∈ spelled name, p.isA Text.isLineEnd = false := by
  have hvisible : ∀ c : Char, 0x20 ≤ c.toNat ∧ c.toNat < 0x7F → Text.isLineEnd c = false := by
    intro c hc
    simp [Text.isLineEnd]
    omega
  have hspelling : ∀ c ∈ (Text.bytes name).flatMap spelledByte, Text.isLineEnd c = false := by
    intro c hc
    obtain ⟨b, -, hc⟩ := List.mem_flatMap.mp hc
    exact hvisible c (visible_spelledByte hc)
  intro p hp
  obtain ⟨c, hc, rfl⟩ := List.mem_map.mp hp
  show Text.isLineEnd c = false
  split at hc
  · exact hspelling c hc
  · obtain hc | hc := List.mem_append.mp hc
    · obtain rfl | hc := List.mem_cons.mp hc
      · decide
      · exact hspelling c hc
    · rw [List.mem_singleton.mp hc]
      decide

theorem spelledByte_ne_nil (b : UInt8) : spelledByte b ≠ [] := by
  rw [spelledByte]
  split <;> exact List.cons_ne_nil _ _

theorem pointBytes_char (c : Char) : Text.pointBytes (.char c) = String.utf8EncodeChar c :=
  List.append_nil _

theorem pointBytes_ne_nil (p : CodePoint) : Text.pointBytes p ≠ [] := by
  cases p with
  | half offset => exact List.cons_ne_nil _ _
  | char c =>
    rw [pointBytes_char, String.utf8EncodeChar]
    split_ifs <;> exact List.cons_ne_nil _ _

theorem length_le_length_flatMap {α β : Type} {f : α → List β} (hf : ∀ x, f x ≠ []) (xs : List α) :
    xs.length ≤ (xs.flatMap f).length := by
  have hpos : ∀ n ∈ xs.map fun x => (f x).length, 1 ≤ n :=
    List.forall_mem_map.mpr fun x _ => List.length_pos_of_ne_nil (hf x)
  have hlength := List.length_le_sum_of_one_le _ hpos
  rwa [List.length_map, ← List.length_flatMap] at hlength

theorem length_le_length_spelling (name : Text) :
    name.length ≤ ((Text.bytes name).flatMap spelledByte).length :=
  (length_le_length_flatMap pointBytes_ne_nil name).trans
    (length_le_length_flatMap spelledByte_ne_nil (Text.bytes name))

theorem spelled_ne_nil (h : name ≠ []) : spelled name ≠ [] := by
  have hlength := length_le_length_spelling name
  have hname := List.length_pos_of_ne_nil h
  rw [← List.length_pos_iff, spelled, Text.ofChars, List.length_map]
  split
  · omega
  · simp

/-- What is not printed as it is is printed longer than it is. -/
theorem length_lt_length_spelled (h : isVerbatim name = false) : name.length < (spelled name).length := by
  have hlength := length_le_length_spelling name
  rw [spelled, h, if_neg Bool.false_ne_true, Text.ofChars, List.length_map, List.length_append,
    List.length_cons]
  omega

/-- A character is a byte of its own if its bytes are low: the first of several bytes is not. -/
theorem utf8EncodeChar_of_low {c : Char} (h : ∀ b ∈ String.utf8EncodeChar c, b.toNat < 0x7F) :
    String.utf8EncodeChar c = [UInt8.ofNat c.toNat] ∧ c.toNat ≤ 127 := by
  by_cases hc : c.val.toNat ≤ 127
  · refine ⟨?_, hc⟩
    rw [String.utf8EncodeChar]
    exact if_pos hc
  · exfalso
    rw [String.utf8EncodeChar] at h
    simp only [if_neg hc] at h
    split_ifs at h
    all_goals
      have hfirst := h _ List.mem_cons_self
      rw [UInt8.toNat_ofNat'] at hfirst
      omega

/-- A code point whose bytes are printed as they are is printed as it is. -/
theorem spelled_point {p : CodePoint} (hp : Text.isNamable p = true)
    (h : ∀ b ∈ Text.pointBytes p, isVerbatimByte b = true) :
    Text.ofChars ((Text.pointBytes p).flatMap spelledByte) = [p] := by
  have hlow : ∀ b ∈ Text.pointBytes p, b.toNat < 0x7F := fun b hb =>
    (visible_of_isVerbatimByte (h b hb)).2
  cases p with
  | half offset =>
    simp [Text.isNamable, Text.isChar, CodePoint.char?, Text.isRawByte] at hp
    have hbyte := hlow _ (List.mem_singleton.mpr rfl)
    simp at hbyte
    omega
  | char c =>
    rw [pointBytes_char] at h hlow ⊢
    obtain ⟨hone, hsmall⟩ := utf8EncodeChar_of_low hlow
    have hchar : (UInt8.ofNat c.toNat).toNat = c.toNat := by
      rw [UInt8.toNat_ofNat', Nat.mod_eq_of_lt (by omega)]
    rw [hone] at h ⊢
    rw [List.flatMap_singleton, spelledByte, if_pos (h _ List.mem_cons_self), hchar, Char.ofNat_toNat]
    rfl

/-- A name that needs no quotes is printed as it is. -/
theorem spelled_of_isVerbatim (hname : FileFault.ofName? name = none) (h : isVerbatim name = true) :
    spelled name = name := by
  rw [spelled, if_pos h]
  rw [Text.ofName?_eq_none] at hname
  rw [isVerbatim, List.all_eq_true] at h
  induction name with
  | nil => rfl
  | cons p name ih =>
    obtain ⟨hp, hname⟩ := List.forall_mem_cons.mp hname
    rw [Text.bytes, List.flatMap_cons] at h ⊢
    obtain ⟨hpoint, hrest⟩ := List.forall_mem_append.mp h
    have hrest := ih hname hrest
    rw [Text.ofChars, List.flatMap_append, List.map_append]
    exact congrArg₂ (· ++ ·) (spelled_point hp hpoint) hrest

/-- A name is spelled as it is exactly if it is printed so. -/
theorem spelled_eq_self_iff (hname : FileFault.ofName? name = none) :
    spelled name = name ↔ isVerbatim name = true := by
  refine ⟨fun heq => ?_, spelled_of_isVerbatim hname⟩
  by_contra hnot
  have hlength := length_lt_length_spelled (Bool.eq_false_iff.mpr hnot)
  rw [heq] at hlength
  exact lt_irrefl _ hlength

/-- The names in a listing are spelled as they are printed. -/
theorem files?_printed {names : List Text} (hnames : ∀ name ∈ names, name ≠ []) :
    (Listing.answered 0 (printed names)).files? = some (names.map spelled) := by
  have hlines : Text.lines (printed names) = names.map spelled :=
    Text.lines_flatMap fun _ _ => isLineEnd_spelled
  rw [Listing.files?, if_pos rfl, hlines, List.filter_eq_self.mpr]
  intro row hrow
  obtain ⟨name, hname, rfl⟩ := List.mem_map.mp hrow
  exact decide_eq_true (spelled_ne_nil (hnames name hname))

/-- What is printed between quotes has none of the suffixes, since it ends in a quote. -/
theorem suffix_spelled (h : isVerbatim name = false) :
    (Path.ofText (spelled name)).suffix ∉ suffixes := by
  intro hsuffix
  have hends : ∀ suffix ∈ suffixes, suffix ≠ [] ∧ suffix.getLast? ≠ some (.char '"') := by decide
  obtain ⟨hne, hlast⟩ := hends _ hsuffix
  obtain ⟨front, -, hname⟩ := Path.exists_name_eq hne
  obtain ⟨row, hspelled⟩ : ∃ row, spelled name = row ++ [.char '"'] := by
    refine ⟨Text.ofChars ('"' :: (Text.bytes name).flatMap spelledByte), ?_⟩
    rw [spelled, h, if_neg Bool.false_ne_true, Text.ofChars, List.map_append]
    rfl
  obtain ⟨last, hquote⟩ := Path.exists_name_ofText (c := .char '"') (by decide) (by decide) row
  rw [← hspelled, hname] at hquote
  have := congrArg List.getLast? hquote
  rw [List.getLast?_append_of_ne_nil _ hne, List.getLast?_concat] at this
  exact hlast this

end Spelling

end Targets
end ApiLint
