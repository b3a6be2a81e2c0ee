import ApiLint.Proofs.Text.Order
import ApiLint.Proofs.Tree

/-! Names below a directory. The entries of a directory have names that the system knows, no two of them
the same (`Tree.IsNamed`). So a row of parts that leads to something below a directory is read back from
its text (`ofText_joined`), and what stands there is found under the name of the directory and that row,
unless both together are too long (`find_below`). -/
namespace ApiLint

/-- A name that an entry of a directory can have. -/
structure IsName (name : Text) : Prop where
  nonempty : name ≠ []
  slash : .char '/' ∉ name
  dot : name ≠ "."
  dots : name ≠ ".."
  known : FileFault.ofName? name = none
  limit : (Text.bytes name).length ≤ partLimit

instance (name : Text) : Decidable (IsName name) :=
  decidable_of_iff ((name ≠ [] ∧ .char '/' ∉ name ∧ name ≠ "." ∧ name ≠ "..") ∧
      FileFault.ofName? name = none ∧ (Text.bytes name).length ≤ partLimit)
    ⟨fun h => ⟨h.1.1, h.1.2.1, h.1.2.2.1, h.1.2.2.2, h.2.1, h.2.2⟩,
      fun h => ⟨⟨h.nonempty, h.slash, h.dot, h.dots⟩, h.known, h.limit⟩⟩

namespace Tree

/-- The entries of all directories in a tree have names of their own. -/
inductive IsNamed : Tree → Prop
  | file (content : List UInt8) : IsNamed (.file content)
  | directory {es : List (Text × Tree)} (distinct : (es.map Prod.fst).Nodup)
      (names : ∀ e ∈ es, IsName e.1) (trees : ∀ e ∈ es, IsNamed e.2) : IsNamed (.directory es)

section Lookup
variable {es : List (Text × Tree)} {name : Text} {t u : Tree} {parts : List Text}

theorem mem_of_lookup (h : es.lookup name = some t) : (name, t) ∈ es := by
  obtain ⟨before, after, rfl, -⟩ := List.lookup_eq_some_iff.mp h
  exact List.mem_append_right before List.mem_cons_self

theorem lookup_of_mem (hdistinct : (es.map Prod.fst).Nodup) (h : (name, t) ∈ es) :
    es.lookup name = some t := by
  obtain ⟨before, after, rfl⟩ := List.append_of_mem h
  refine List.lookup_eq_some_iff.mpr ⟨before, after, rfl, fun e he => ?_⟩
  rw [List.map_append, List.nodup_append] at hdistinct
  have hne := hdistinct.2.2 e.1 (List.mem_map_of_mem he) name List.mem_cons_self
  exact bne_iff_ne.mpr (Ne.symm hne)

theorem leads_cons : Leads (directory es) (name :: parts) u ↔
    name ≠ ".." ∧ (Text.bytes name).length ≤ partLimit ∧
      ∃ t, es.lookup name = some t ∧ Leads t parts u := by
  constructor
  · intro h
    cases h with
    | down hpart hlimit hlookup h => exact ⟨hpart, hlimit, _, hlookup, h⟩
  · intro hgiven
    obtain ⟨hpart, hlimit, t, hlookup, h⟩ := hgiven
    exact .down hpart hlimit hlookup h

/-- Where entries have names of their own a row of parts leads through any of them. -/
theorem IsNamed.leads_cons (hnamed : (Tree.directory es).IsNamed) :
    Leads (Tree.directory es) (name :: parts) u ↔ ∃ t, (name, t) ∈ es ∧ Leads t parts u := by
  cases hnamed with
  | directory hdistinct hnames _ =>
    rw [Tree.leads_cons]
    constructor
    · intro hgiven
      obtain ⟨-, -, t, hlookup, h⟩ := hgiven
      exact ⟨t, mem_of_lookup hlookup, h⟩
    · intro hgiven
      obtain ⟨t, hmem, h⟩ := hgiven
      exact ⟨(hnames _ hmem).dots, (hnames _ hmem).limit, t, lookup_of_mem hdistinct hmem, h⟩

theorem IsNamed.names_of_leads (hnamed : t.IsNamed) (h : Leads t parts u) :
    ∀ part ∈ parts, IsName part := by
  induction h with
  | here _ => exact List.forall_mem_nil _
  | down _ _ hlookup _ ih =>
    cases hnamed with
    | directory _ hnames htrees =>
      have hmem := mem_of_lookup hlookup
      exact List.forall_mem_cons.mpr ⟨hnames _ hmem, ih (htrees _ hmem)⟩

/-- Where a walk comes to its end it goes on from there. -/
theorem exists_walk_append {above : List Tree} (h : walk above t parts = .ok u) :
    ∃ around, ∀ rest, walk above t (parts ++ rest) = walk around u rest := by
  induction parts generalizing above t with
  | nil =>
    obtain rfl := Except.ok.inj h
    exact ⟨above, fun _ => rfl⟩
  | cons part parts ih =>
    cases t with
    | file content => cases h
    | directory es =>
      simp only [List.cons_append, walk] at h ⊢
      split at h
      · next hdots =>
        simp only [if_pos hdots]
        split at h <;> exact ih h
      · next hdots =>
        simp only [if_neg hdots]
        split at h
        · cases h
        · next hlimit =>
          simp only [if_neg hlimit]
          split at h
          · cases h
          · exact ih h

end Lookup

end Tree

/-! ### Texts of names -/

namespace Path

variable {parts : List Text}

/-- Names of entries with slashes between them are read back. -/
theorem ofText_joined (hne : parts ≠ []) (hnames : ∀ part ∈ parts, IsName part) :
    ofText (Text.joined "/" parts) = ⟨0, parts⟩ := by
  have hpieces : Text.pieces (.char '/') (Text.joined "/" parts) = parts :=
    Text.pieces_intercalate hne fun part hpart => (hnames part hpart).slash
  have hslashes : leadingSlashes (Text.joined "/" parts) = 0 := by
    obtain ⟨part, rest, rfl⟩ := List.exists_cons_of_ne_nil hne
    obtain ⟨c, cs, rfl⟩ := List.exists_cons_of_ne_nil (hnames part List.mem_cons_self).nonempty
    have hc : c ≠ .char '/' := fun heq =>
      (hnames _ List.mem_cons_self).slash (heq ▸ List.mem_cons_self)
    obtain ⟨more, hmore⟩ : ∃ more, Text.joined "/" ((c :: cs) :: rest) = c :: more := by
      cases rest with
      | nil => exact ⟨cs, List.intercalate_singleton⟩
      | cons next rest => exact ⟨_, List.intercalate_cons_cons⟩
    rw [leadingSlashes, hmore, List.takeWhile_cons_of_neg (by simpa using hc)]
    rfl
  rw [ofText, hpieces, hslashes, List.filter_eq_self.mpr fun part hpart => ?_]
  simp [(hnames part hpart).nonempty, (hnames part hpart).dot]

end Path

namespace Text

/-- Whether a code point may stand in a name that the system hears of. -/
def isNamable (p : CodePoint) : Bool :=
  (isChar p || isRawByte p) && p ≠ .char '\x00'

theorem refusedFrom_eq_none {refused : CodePoint → Bool} {start : Nat} {t : Text} :
    refusedFrom refused start t = none ↔ ∀ p ∈ t, refused p = false := by
  induction t generalizing start with
  | nil => simp [refusedFrom]
  | cons p t ih =>
    rw [refusedFrom, List.forall_mem_cons]
    split
    · next h => simp [h]
    · next h => simp [h, ih]

/-- The system hears of a name that consists of characters and raw bytes, without a null. -/
theorem ofName?_eq_none {name : Text} :
    FileFault.ofName? name = none ↔ ∀ p ∈ name, isNamable p = true := by
  have hunnamable : unnamable? name = none ↔ ∀ p ∈ name, (isChar p || isRawByte p) = true := by
    rw [unnamable?, refusedFrom_eq_none]
    refine forall₂_congr fun p _ => ?_
    cases isChar p <;> cases isRawByte p <;> simp
  have hzero : (name.contains (.char '\x00')) = false ↔ ∀ p ∈ name, p ≠ .char '\x00' := by
    rw [← Bool.not_eq_true, List.contains_iff_mem]
    exact ⟨fun h p hp heq => h (heq ▸ hp), fun h hmem => h _ hmem rfl⟩
  have hboth : (∀ p ∈ name, isNamable p = true) ↔ unnamable? name = none ∧
      name.contains (.char '\x00') = false := by
    rw [hunnamable, hzero, ← forall₂_and]
    simp [isNamable]
  rw [hboth, FileFault.ofName?]
  cases unnamable? name <;> simp

/-- What stands in joined parts is a slash or stands in one of them. -/
theorem mem_joined {p : CodePoint} {parts : List Text} (h : p ∈ joined "/" parts) :
    p = .char '/' ∨ ∃ part ∈ parts, p ∈ part := by
  induction parts with
  | nil => cases h
  | cons part parts ih =>
    cases parts with
    | nil =>
      rw [joined, List.intercalate_singleton] at h
      exact .inr ⟨part, List.mem_cons_self, h⟩
    | cons next parts =>
      rw [joined, List.intercalate_cons_cons, List.mem_append, List.mem_append] at h
      obtain (h | h) | h := h
      · exact .inr ⟨part, List.mem_cons_self, h⟩
      · exact .inl (List.mem_singleton.mp h)
      · obtain h | ⟨later, hlater, h⟩ := ih h
        · exact .inl h
        · exact .inr ⟨later, List.mem_cons_of_mem _ hlater, h⟩

/-- What stands in a part stands in the joined parts. -/
theorem mem_joined_of_mem {p : CodePoint} {part : Text} {parts : List Text} (hpart : part ∈ parts)
    (h : p ∈ part) : p ∈ joined "/" parts := by
  induction parts with
  | nil => cases hpart
  | cons first parts ih =>
    cases parts with
    | nil =>
      rw [joined, List.intercalate_singleton, ← List.mem_singleton.mp hpart]
      exact h
    | cons next parts =>
      rw [joined, List.intercalate_cons_cons]
      obtain rfl | hpart := List.mem_cons.mp hpart
      · exact List.mem_append_left _ (List.mem_append_left _ h)
      · exact List.mem_append_right _ (ih hpart)

end Text

/-! ### Looking up what is below a directory -/

namespace Disk

variable {disk : Disk} {root : Path} {parts : List Text} {t u : Tree}

theorem text_join (hne : parts ≠ []) : (root.join ⟨0, parts⟩).text =
    List.replicate root.slashes (.char '/') ++ Text.joined "/" (root.parts ++ parts) := by
  have hrelative : (⟨0, parts⟩ : Path).isAbsolute = false := rfl
  rw [Path.join, if_neg (by rw [hrelative]; exact Bool.false_ne_true), Path.text,
    if_neg fun h => hne (List.append_eq_nil_iff.mp h.2).2]

theorem fullParts_join : disk.fullParts (root.join ⟨0, parts⟩) = disk.fullParts root ++ parts := by
  have hrelative : (⟨0, parts⟩ : Path).isAbsolute = false := rfl
  rw [Path.join, if_neg (by rw [hrelative]; exact Bool.false_ne_true), fullParts, fullParts,
    Path.join, Path.join]
  show (if root.isAbsolute = true then _ else _ : Path).parts = _
  split
  · rfl
  · exact (List.append_assoc _ _ _).symm

/-- Names below a directory that is heard of are heard of. -/
theorem ofName?_join (hroot : FileFault.ofName? root.text = none) (hne : parts ≠ [])
    (hnames : ∀ part ∈ parts, IsName part) :
    FileFault.ofName? (root.join ⟨0, parts⟩).text = none := by
  rw [Text.ofName?_eq_none] at hroot ⊢
  intro p hp
  rw [text_join hne] at hp
  have hslash : Text.isNamable (.char '/') = true := rfl
  obtain hp | hp := List.mem_append.mp hp
  · rw [(List.mem_replicate.mp hp).2]
    exact hslash
  · obtain rfl | ⟨part, hpart, hp⟩ := Text.mem_joined hp
    · exact hslash
    · obtain hpart | hpart := List.mem_append.mp hpart
      · refine hroot p ?_
        rw [Path.text, if_neg fun h => List.ne_nil_of_mem hpart h.2]
        exact List.mem_append_right _ (Text.mem_joined_of_mem hpart hp)
      · exact Text.ofName?_eq_none.mp (hnames part hpart).known p hp

/-- **What is below a directory is found there**, unless its whole name is too long. -/
theorem find_below (hfind : disk.find root = .ok t) (hnamed : t.IsNamed) (hleads : t.Leads parts u)
    (hne : parts ≠ []) : disk.find (root.join ⟨0, parts⟩) =
      if nameLimit ≤ (Text.bytes (root.join ⟨0, parts⟩).text).length then .error .nameTooLong
      else .ok u := by
  obtain ⟨hroot, -, hwalk⟩ := find_eq_ok.mp hfind
  obtain ⟨around, hwalk⟩ := Tree.exists_walk_append hwalk
  rw [find, ofName?_join hroot hne (hnamed.names_of_leads hleads)]
  simp only [fullParts_join, hwalk, hleads.walk_eq]

end Disk

end ApiLint
