import ApiLint.Document.Reference
import ApiLint.Proofs.Value.Place
import ApiLint.Proofs.Value.Same
import ApiLint.Proofs.Value.Tree
import ApiLint.Proofs.Yaml.Whole

/-! The references that name the places of a document. A place is spelled step by step, with a slash in
front of each; a slash or a tilde inside a key is written as a tilde and a digit, and so no slash but those
between the steps is left. Looking the reference up reads all this back: it leads to what stands at the
place, and to nothing where the place does not exist (`resolve_pointer`). -/
namespace ApiLint

namespace Value

/-- A tree all parts of which have a place that can be spelled: the keys of its mappings are texts, and its
lists have no more items than there are numerals that can be read. That is a number of thousands of digits,
far beyond any list that there is memory for. Nothing in a set or in a row has a place, whatever it is. -/
inductive IsAddressable : Value → Prop
  | scalar {v : Value} (h : v.isScalar = true) : IsAddressable v
  | list {items : List Value} (hlength : items.length ≤ writableLimit)
      (h : ∀ v ∈ items, IsAddressable v) : IsAddressable (.list items)
  | tuple {items : List Value} : IsAddressable (.tuple items)
  | set {items : List Value} : IsAddressable (.set items)
  | map {entries : Entries} (hkeys : ∀ e ∈ entries, ∃ t, e.1 = .str t)
      (h : ∀ e ∈ entries, IsAddressable e.2) : IsAddressable (.map entries)

/-- A step that leads nowhere: to a key that a mapping has not, behind the end of a list, into a row or
a set, or into a scalar. -/
inductive Lacks : Value → Step → Prop
  | key {entries : Entries} {t : Text} (h : ∀ e ∈ entries, e.1 ≠ .str t) :
      Lacks (.map entries) (.text t)
  | index {items : List Value} {i : Nat} (h : items.length ≤ i)
      (hread : i < writableLimit) : Lacks (.list items) (.whole i)
  | tuple {items : List Value} (s : Step) : Lacks (.tuple items) s
  | set {items : List Value} (s : Step) : Lacks (.set items) s
  | below {v : Value} (h : v.isScalar = true) (s : Step) : Lacks v s

end Value

namespace Reference

/-! ### Spelling -/

def escape (key : Text) : Text :=
  key.flatMap fun c =>
    if c = .char '~' then "~0" else if c = .char '/' then "~1" else ([c] : Text)

def spelled : Step → Text
  | .text t => escape t
  | .whole i => (Value.int i).text

/-- The reference that names a place. -/
def pointer (p : List Step) : Text :=
  "#/" ++ Text.joined "/" (p.map spelled)

theorem slash_not_mem_escape (key : Text) : .char '/' ∉ escape key := by
  intro h
  obtain ⟨c, -, hc⟩ := List.mem_flatMap.mp h
  split at hc
  · exact absurd hc (by decide)
  · split at hc
    · exact absurd hc (by decide)
    · next hslash => exact hslash (List.mem_singleton.mp hc).symm

theorem slash_not_mem_spelled (s : Step) : .char '/' ∉ spelled s := by
  cases s with
  | text t => exact slash_not_mem_escape t
  | whole i =>
    rw [spelled, Value.text_int]
    intro h
    obtain ⟨c, hc, hslash⟩ := List.mem_map.mp h
    obtain rfl := CodePoint.char.inj hslash
    exact absurd (Numeral.mem_decimal hc) (by decide)

/-- What a reference spells are the steps of its place. -/
theorem pieces_pointer {p : List Step} (hp : p ≠ []) :
    Text.pieces (.char '/') ((pointer p).drop 2) = p.map spelled := by
  have hdrop : (pointer p).drop 2 = Text.joined "/" (p.map spelled) := rfl
  rw [hdrop]
  refine Text.pieces_intercalate (mt List.map_eq_nil_iff.mp hp) fun row hrow => ?_
  obtain ⟨s, -, rfl⟩ := List.mem_map.mp hrow
  exact slash_not_mem_spelled s

/-! ### Reading back -/

theorem replaceTilde_cons {c : CodePoint} (digit by_ : Char) (rest : Text) (h : c ≠ .char '~') :
    replaceTilde digit by_ (c :: rest) = c :: replaceTilde digit by_ rest := by
  rw [replaceTilde.eq_def]
  split
  · next heq => exact absurd (List.cons.inj heq).1 h
  · next heq =>
    obtain ⟨rfl, rfl⟩ := List.cons.inj heq
    rfl
  · next heq => cases heq

theorem replaceTilde_pair (digit by_ : Char) (rest : Text) :
    replaceTilde digit by_ (.char '~' :: .char digit :: rest) =
      .char by_ :: replaceTilde digit by_ rest := by
  rw [replaceTilde, if_pos rfl]

def escapeTildes (key : Text) : Text :=
  key.flatMap fun c => if c = .char '~' then "~0" else ([c] : Text)

/-- The slashes are read back first: the tilde of a spelled tilde has a digit of its own behind it. -/
theorem replaceTilde_escape (key : Text) : replaceTilde '1' '/' (escape key) = escapeTildes key := by
  induction key with
  | nil => rfl
  | cons c key ih =>
    rw [escape, List.flatMap_cons, ← escape, escapeTildes, List.flatMap_cons, ← escapeTildes]
    by_cases htilde : c = .char '~'
    · rw [if_pos htilde, if_pos htilde]
      show replaceTilde '1' '/' (.char '~' :: .char '0' :: escape key) = _
      rw [replaceTilde, if_neg (by decide), replaceTilde_cons _ _ _ (by decide), ih]
      rfl
    · rw [if_neg htilde, if_neg htilde]
      by_cases hslash : c = .char '/'
      · rw [if_pos hslash, hslash]
        show replaceTilde '1' '/' (.char '~' :: .char '1' :: escape key) = _
        rw [replaceTilde_pair, ih]
        rfl
      · rw [if_neg hslash, List.singleton_append, replaceTilde_cons _ _ _ htilde, ih]
        rfl

theorem replaceTilde_escapeTildes (key : Text) :
    replaceTilde '0' '~' (escapeTildes key) = key := by
  induction key with
  | nil => rfl
  | cons c key ih =>
    rw [escapeTildes, List.flatMap_cons, ← escapeTildes]
    by_cases htilde : c = .char '~'
    · rw [if_pos htilde, htilde]
      show replaceTilde '0' '~' (.char '~' :: .char '0' :: escapeTildes key) = _
      rw [replaceTilde_pair, ih]
    · rw [if_neg htilde, List.singleton_append, replaceTilde_cons _ _ _ htilde, ih]

/-- A key is read back as it is, whatever it holds. -/
theorem unescape_escape (key : Text) : unescape (escape key) = key := by
  rw [unescape, replaceTilde_escape, replaceTilde_escapeTildes]

/-- What holds no tilde stands for itself. -/
theorem unescape_of_not_mem {t : Text} (h : .char '~' ∉ t) : unescape t = t := by
  have hsame : ∀ digit by_, ∀ t : Text, .char '~' ∉ t → replaceTilde digit by_ t = t := by
    intro digit by_ t h
    induction t with
    | nil => rfl
    | cons c t ih =>
      rw [List.mem_cons, not_or] at h
      rw [replaceTilde_cons _ _ _ (Ne.symm h.1), ih h.2]
  rw [unescape, hsame _ _ t h, hsame _ _ t h]

/-- A numeral as a reference spells it. -/
theorem unescape_numeral (i : Int) : unescape (Value.int i).text = (Value.int i).text := by
  refine unescape_of_not_mem fun h => ?_
  rw [Value.text_int] at h
  obtain ⟨c, hc, htilde⟩ := List.mem_map.mp h
  obtain rfl := CodePoint.char.inj htilde
  exact absurd (Numeral.mem_decimal hc) (by decide)

/-! ### Looking up -/

theorem isIndex_digits (n : Nat) : isIndex (Text.ofChars (Nat.toDigits 10 n)) = true := by
  have hdigits : ∀ c ∈ Text.ofChars (Nat.toDigits 10 n), c.isA Text.isDigitLike = true := by
    intro c hc
    obtain ⟨d, hd, rfl⟩ := List.mem_map.mp hc
    exact Numeral.isDigitLike_of_isDigit (Numeral.isDigit_of_mem_toDigits hd)
  have hne : (Text.ofChars (Nat.toDigits 10 n)).isEmpty = false := by
    rw [List.isEmpty_eq_false_iff, Text.ofChars, Ne, List.map_eq_nil_iff]
    exact Nat.toDigits_ne_nil
  rw [isIndex, hne, List.all_eq_true.mpr hdigits]
  rfl

/-- The numeral of an index stands for it, if it can be read. -/
theorem index_numeral {n : Nat} (h : n < Value.writableLimit) :
    isIndex (Value.int n).text = true ∧ index (Value.int n).text = .ok n := by
  have htext : (Value.int n).text = Text.ofChars (Nat.toDigits 10 n) := by
    rw [Value.text_int, Numeral.decimal, if_pos (Int.natCast_nonneg n), Int.natAbs_natCast]
  have hlength : (Nat.toDigits 10 n).length ≤ Numeral.digitLimit :=
    (Numeral.length_toDigits_le_iff (by decide)).mpr h
  rw [htext, index, Numeral.readInt_digits, if_neg (Nat.not_lt.mpr hlength)]
  exact ⟨isIndex_digits n, rfl⟩

theorem step_index {items : List Value} {n : Nat} (h : n < Value.writableLimit) :
    step (.list items) (unescape (spelled (.whole n))) = .ok items[n]? := by
  obtain ⟨hindex, hread⟩ := index_numeral h
  show (if isIndex (unescape (Value.int n).text) then
    (index (unescape (Value.int n).text)).map fun n => items[n]? else .ok none) = _
  rw [unescape_numeral, if_pos hindex, hread]
  rfl

theorem step_key (entries : Entries) (t : Text) :
    step (.map entries) (unescape (spelled (.text t))) = .ok (entries.find? (.str t)) := by
  rw [spelled, unescape_escape]
  rfl

variable {document v w : Value} {s : Step} {p : List Step}

/-- A spelled step leads to the part that the step leads to. -/
theorem step_of_part? (hv : v.IsAddressable) (h : v.part? s = some w) :
    step v (unescape (spelled s)) = .ok (some w) := by
  cases hv with
  | scalar hscalar => cases v <;> first | cases h | cases hscalar
  | tuple | set => cases h
  | @list items hlength _ =>
    cases s with
    | text t => cases h
    | whole i =>
      simp only [Value.part?, Option.ite_none_right_eq_some] at h
      obtain ⟨hi, hw⟩ := h
      obtain ⟨n, rfl⟩ := Int.eq_ofNat_of_zero_le hi
      have hn : n < items.length := (List.getElem?_eq_some_iff.mp hw).1
      rw [step_index (Nat.lt_of_lt_of_le hn hlength)]
      exact congrArg Except.ok hw
  | @map entries hkeys _ =>
    cases s with
    | text t =>
      rw [step_key]
      exact congrArg Except.ok h
    | whole i =>
      obtain ⟨k, hmem, hsame⟩ := Entries.exists_of_find? h
      obtain ⟨t, rfl⟩ := hkeys _ hmem
      cases hsame

/-- Parts of an addressable tree are addressable, so that the walk can go on. -/
theorem part_isAddressable (hv : v.IsAddressable) (h : v.part? s = some w) : w.IsAddressable := by
  cases hv with
  | scalar hscalar => cases v <;> first | cases h | cases hscalar
  | tuple | set => cases h
  | @list items _ hitems =>
    cases s with
    | text t => cases h
    | whole i =>
      simp only [Value.part?, Option.ite_none_right_eq_some] at h
      exact hitems w (List.mem_of_getElem? h.2)
  | @map entries _ hentries =>
    obtain ⟨k, hmem, -⟩ := Entries.exists_of_find? h
    exact hentries _ hmem

/-- A spelled step that leads nowhere finds nothing. -/
theorem step_of_lacks (h : v.Lacks s) : step v (unescape (spelled s)) = .ok none := by
  cases h with
  | @key entries t h =>
    rw [step_key]
    exact congrArg Except.ok (Entries.find?_eq_none.mpr fun e he => Value.same_str_eq_false.mpr (h e he))
  | @index items i h hread =>
    rw [step_index hread, List.getElem?_eq_none h]
  | tuple | set => rfl
  | below h s => cases v <;> first | rfl | cases h

/-- Following goes on from where the first steps led. -/
theorem follow_append {tokens : List Text} (rest : List Text)
    (h : follow v tokens = .ok (some w)) : follow v (tokens ++ rest) = follow w rest := by
  induction tokens generalizing v with
  | nil =>
    cases h
    rfl
  | cons token tokens ih =>
    rw [List.cons_append, follow]
    rw [follow] at h
    split at h
    · cases h
    · cases h
    · exact ih h

/-- Following the spelled steps of a place leads to what stands there. -/
theorem follow_of_at? (hv : v.IsAddressable) (h : v.at? p = some w) :
    follow v (p.map fun s => unescape (spelled s)) = .ok (some w) := by
  induction p generalizing v with
  | nil =>
    cases h
    rfl
  | cons s p ih =>
    obtain ⟨part, hpart, hw⟩ := Option.bind_eq_some_iff.mp h
    rw [List.map_cons, follow, step_of_part? hv hpart]
    exact ih (part_isAddressable hv hpart) hw

theorem resolve_pointer_eq (hp : p ≠ []) :
    resolve document (pointer p) = follow document (p.map fun s => unescape (spelled s)) := by
  rw [resolve, pieces_pointer hp, List.map_map]
  rfl

/-- **A reference names the place that it spells.** What stands at a place of a document is found under the
reference that spells the place, whatever the keys hold; and nothing is found if one of the steps leads
nowhere, however the place goes on behind it. -/
theorem resolve_pointer (hdocument : document.IsAddressable) :
    (∀ p part, p ≠ [] → document.at? p = some part →
      resolve document (pointer p) = .ok (some part)) ∧
    ∀ p s rest v, document.at? p = some v → v.Lacks s →
      resolve document (pointer (p ++ s :: rest)) = .ok none := by
  refine ⟨fun p part hp hpart => ?_, fun p s rest v hv hlacks => ?_⟩
  · rw [resolve_pointer_eq hp]
    exact follow_of_at? hdocument hpart
  · rw [resolve_pointer_eq (List.append_ne_nil_of_right_ne_nil p (List.cons_ne_nil s rest)),
      List.map_append, follow_append _ (follow_of_at? hdocument hv), List.map_cons, follow,
      step_of_lacks hlacks]

/-- A document with keys that hold slashes, tildes and what looks like a spelled slash, one below the
other. -/
def knotted : Value :=
  .record [("/", .record [("~1", .list [.null, .record [("~01", .str "here"), ("", .int 2)]])])]

theorem knotted_isAddressable : knotted.IsAddressable := by
  have hkeys : ∀ fields : List (Text × Value), ∀ e ∈ fields.map fun f => (Value.str f.1, f.2),
      ∃ t, e.1 = .str t := by
    intro fields e he
    obtain ⟨f, -, rfl⟩ := List.mem_map.mp he
    exact ⟨f.1, rfl⟩
  have htwo : 2 ≤ Value.writableLimit :=
    Nat.le_of_lt ((Numeral.length_toDigits_le_iff (by decide)).mp (by decide))
  refine .map (hkeys _) (List.forall_mem_singleton.mpr (.map (hkeys _)
    (List.forall_mem_singleton.mpr (.list htwo (List.forall_mem_cons.mpr ⟨.scalar rfl,
      List.forall_mem_singleton.mpr (.map (hkeys _) (List.forall_mem_cons.mpr ⟨.scalar rfl,
        List.forall_mem_singleton.mpr (.scalar rfl)⟩))⟩)))))

theorem resolve_pointer_sample : knotted.IsAddressable ∧
    resolve knotted "#/~1/~01/1/~001" = .ok (some (.str "here")) ∧
    resolve knotted "#/~1/~01/2/~001" = .ok none := by
  obtain ⟨hfound, hmissing⟩ := resolve_pointer knotted_isAddressable
  refine ⟨knotted_isAddressable, ?_, ?_⟩
  · exact hfound [.text "/", .text "~1", .whole 1, .text "~01"] _ (List.cons_ne_nil _ _) rfl
  · exact hmissing [.text "/", .text "~1"] (.whole 2) [.text "~01"] _ rfl
      (.index (Nat.le_refl 2) ((Numeral.length_toDigits_le_iff (by decide)).mp (by decide)))

end Reference

end ApiLint
