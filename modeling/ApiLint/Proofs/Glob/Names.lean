import ApiLint.Glob
import ApiLint.Proofs.Targets.Below

/-! Names in parts. A name with single slashes between its parts (`IsSpelled`) is cut before its last part
and put together again (`splitLast_inside`, `joined_inside`), and what it leads to as it is written stands
under that part in the directory that the rest of it leads to (`exists_find_inside`). -/
namespace ApiLint

namespace Tree

variable {t v : Tree} {parts more : List Text}

/-- A walk that comes to its end has been where its first parts lead. -/
theorem exists_of_walk_append {above : List Tree} (h : walk above t (parts ++ more) = .ok v) :
    ∃ around u, walk above t parts = .ok u ∧ walk around u more = .ok v := by
  induction parts generalizing above t with
  | nil => exact ⟨above, t, rfl, h⟩
  | cons part parts ih =>
    cases t with
    | file content => cases h
    | directory es =>
      simp only [List.cons_append, walk] at h ⊢
      split at h
      · next hdots =>
        simp only [if_pos hdots]
        split at h <;> exact ih h
      · next hdots =>
        simp only [if_neg hdots]
        split at h
        · cases h
        · next hlimit =>
          simp only [if_neg hlimit]
          split at h
          · cases h
          · exact ih h

theorem isDirectory_of_walk {above : List Tree} {part : Text}
    (h : walk above t (part :: parts) = .ok v) : t.isDirectory = true := by
  cases t with
  | file content => cases h
  | directory es => rfl

/-- Under a part that is not a pair of dots stands an entry of the directory. -/
theorem exists_entry_of_walk {above : List Tree} {part : Text} (hpart : part ≠ "..")
    (h : walk above t [part] = .ok v) : (part, v) ∈ t.entries := by
  cases t with
  | file content => cases h
  | directory es =>
    simp only [walk, if_neg hpart] at h
    split at h
    · cases h
    · split at h
      · cases h
      · next hlookup =>
        obtain rfl := Except.ok.inj h
        exact mem_of_lookup hlookup

end Tree

namespace Text

/-- The last part stands behind a slash of its own. -/
theorem joined_append_singleton {parts : List Text} (part : Text) (hne : parts ≠ []) :
    joined "/" (parts ++ [part]) = joined "/" parts ++ .char '/' :: part := by
  induction parts with
  | nil => exact absurd rfl hne
  | cons first parts ih =>
    cases parts with
    | nil =>
      rw [joined, joined, List.singleton_append, List.intercalate_cons_cons,
        List.intercalate_singleton, List.intercalate_singleton, List.append_assoc]
      rfl
    | cons next parts =>
      have hrest := ih (List.cons_ne_nil _ _)
      rw [joined, joined] at hrest ⊢
      rw [List.cons_append, List.cons_append, List.intercalate_cons_cons,
        List.intercalate_cons_cons, ← List.cons_append, hrest, List.append_assoc, List.append_assoc,
        List.append_assoc]

/-- Names in front of others make the front of what all of them make. -/
theorem joined_prefix (parts more : List Text) : joined "/" parts <+: joined "/" (parts ++ more) := by
  by_cases hne : parts = []
  · rw [hne]
    exact List.nil_prefix
  · induction more using List.reverseRecOn with
    | nil => exact ⟨[], by rw [List.append_nil, List.append_nil]⟩
    | append_singleton more part ih =>
      rw [← List.append_assoc,
        joined_append_singleton part fun h => hne (List.append_eq_nil_iff.mp h).1]
      exact ih.trans (List.prefix_append _ _)

end Text

namespace Disk

variable {disk : Disk} {p q : Path} {more : List Text} {t : Tree}

section Front
variable (hslashes : q.slashes = p.slashes) (hparts : q.parts = p.parts ++ more)
include hslashes hparts

theorem fullParts_front : disk.fullParts q = disk.fullParts p ++ more := by
  rw [fullParts, fullParts, Path.join, Path.join, Path.isAbsolute, hslashes]
  show (if p.isAbsolute = true then q else _ : Path).parts = _
  split
  · exact hparts
  · rw [hparts]
    exact (List.append_assoc _ _ _).symm

/-- The front of a name is a name without parts, or begins the name. -/
theorem text_front : p.slashes = 0 ∧ p.parts = [] ∨ p.text <+: q.text := by
  by_cases hempty : p.slashes = 0 ∧ p.parts = []
  · exact .inl hempty
  · refine .inr ?_
    have hq : ¬(q.slashes = 0 ∧ q.parts = []) := fun hgiven =>
      hempty ⟨hslashes ▸ hgiven.1, (List.append_eq_nil_iff.mp (hparts ▸ hgiven.2)).1⟩
    rw [Path.text, Path.text, if_neg hempty, if_neg hq, hslashes, hparts]
    exact (List.prefix_append_right_inj _).mpr (Text.joined_prefix _ _)

/-- What a name leads to stands where its first parts lead. -/
theorem exists_find_front (h : disk.find q = .ok t) :
    ∃ around u, disk.find p = .ok u ∧ Tree.walk around u more = .ok t := by
  obtain ⟨hknown, hlength, hwalk⟩ := find_eq_ok.mp h
  rw [fullParts_front hslashes hparts] at hwalk
  obtain ⟨around, u, hu, hmore⟩ := Tree.exists_of_walk_append hwalk
  refine ⟨around, u, find_eq_ok.mpr ?_, hmore⟩
  obtain ⟨hslash, hnone⟩ | hbegins := text_front hslashes hparts
  · rw [Path.text, if_pos ⟨hslash, hnone⟩]
    exact ⟨by decide, by decide, hu⟩
  · rw [Text.ofName?_eq_none] at hknown ⊢
    refine ⟨fun c hc => hknown c (hbegins.subset hc), ?_, hu⟩
    obtain ⟨rest, hrest⟩ := hbegins
    rw [← hrest, Text.bytes, List.flatMap_append, List.length_append] at hlength
    exact Nat.lt_of_le_of_lt (Nat.le_add_right _ _) hlength

end Front

end Disk

namespace Glob

variable {directory part name : Text}

/-- The code point between the parts of a name. -/
abbrev slash : CodePoint := .char '/'

/-- A name of parts with single slashes between them. -/
inductive IsSpelled : Text → Prop
  | part {part : Text} (hslash : slash ∉ part) (hne : part ≠ []) : IsSpelled part
  | rooted {part : Text} (hslash : slash ∉ part) (hne : part ≠ []) : IsSpelled (slash :: part)
  | inside {directory part : Text} (h : IsSpelled directory) (hslash : slash ∉ part)
      (hne : part ≠ []) : IsSpelled (directory ++ slash :: part)

/-- A name of parts does not end in a slash. -/
theorem IsSpelled.ends (h : IsSpelled name) : ∃ front c, name = front ++ [c] ∧ c ≠ slash := by
  have hends : ∀ {part : Text}, slash ∉ part → part ≠ [] → ∃ front c, part = front ++ [c] ∧ c ≠ slash :=
    fun hslash hne => ⟨_, _, (List.dropLast_append_getLast hne).symm,
      fun heq => hslash (heq ▸ List.getLast_mem hne)⟩
  cases h with
  | part hslash hne => exact hends hslash hne
  | rooted hslash hne =>
    obtain ⟨front, c, rfl, hc⟩ := hends hslash hne
    exact ⟨slash :: front, c, rfl, hc⟩
  | @inside directory _ _ hslash hne =>
    obtain ⟨front, c, rfl, hc⟩ := hends hslash hne
    exact ⟨directory ++ slash :: front, c, (List.append_assoc directory (slash :: front) [c]).symm, hc⟩

theorem IsSpelled.ne_nil (h : IsSpelled name) : name ≠ [] := by
  obtain ⟨front, c, rfl, -⟩ := h.ends
  exact List.append_ne_nil_of_right_ne_nil _ (List.cons_ne_nil _ _)

theorem pieces_inside (hslash : slash ∉ part) :
    Text.pieces slash (directory ++ slash :: part) = Text.pieces slash directory ++ [part] := by
  rw [Text.pieces_append, Text.pieces_of_not_mem hslash]

/-! ### A name in two -/

/-- A name is cut behind its last slash, and slashes at the end of the directory part go unless there is
nothing else. -/
theorem splitLast_append {front : Text} (hpart : slash ∉ part)
    (hfront : front = [] ∨ ∃ directory, front = directory ++ [slash]) :
    splitLast (front ++ part) =
      (if (front.reverse.dropWhile isSlash).isEmpty then front
        else (front.reverse.dropWhile isSlash).reverse, part) := by
  have hname : ∀ c ∈ part.reverse, (!isSlash c) = true := by
    intro c hc
    have hne : c ≠ slash := fun heq => hpart (heq ▸ List.mem_reverse.mp hc)
    simpa [isSlash] using hne
  have hstop : front.reverse.takeWhile (!isSlash ·) = [] := by
    obtain rfl | ⟨directory, rfl⟩ := hfront
    · rfl
    · rw [List.reverse_append]
      rfl
  have hbase : (front ++ part).reverse.takeWhile (!isSlash ·) = part.reverse := by
    rw [List.reverse_append, List.takeWhile_append_of_pos hname, hstop, List.append_nil]
  have hhead : (front ++ part).take ((front ++ part).length - part.length) = front := by
    rw [List.length_append, Nat.add_sub_cancel, List.take_left]
  simp only [splitLast, hbase, List.reverse_reverse, hhead, List.isEmpty_reverse]

theorem splitLast_part (hpart : slash ∉ part) : splitLast part = ([], part) :=
  splitLast_append hpart (.inl rfl)

theorem splitLast_rooted (hpart : slash ∉ part) : splitLast (slash :: part) = ([slash], part) :=
  splitLast_append hpart (.inr ⟨[], rfl⟩)

theorem splitLast_inside (h : IsSpelled directory) (hpart : slash ∉ part) :
    splitLast (directory ++ slash :: part) = (directory, part) := by
  obtain ⟨front, c, rfl, hc⟩ := h.ends
  have hkept : (front ++ [c] ++ [slash]).reverse.dropWhile isSlash = (front ++ [c]).reverse := by
    have hstop : ¬isSlash c = true := by simpa [isSlash] using hc
    simp only [List.reverse_append, List.reverse_singleton, List.singleton_append]
    rw [List.dropWhile_cons_of_pos (by rfl), List.dropWhile_cons_of_neg hstop]
  have hsplit := splitLast_append hpart (.inr ⟨front ++ [c], rfl⟩)
  rw [hkept, List.reverse_reverse, List.append_assoc _ [slash] part] at hsplit
  refine hsplit.trans ?_
  simp

theorem joined_inside (h : IsSpelled directory) :
    joined directory part = directory ++ slash :: part := by
  obtain ⟨front, c, rfl, hc⟩ := h.ends
  have hlast : ((front ++ [c]).isEmpty || (front ++ [c]).getLast?.any isSlash) = false := by
    simpa [isSlash] using hc
  rw [joined, hlast, if_neg Bool.false_ne_true, List.append_assoc]
  rfl

/-! ### The path that a name is -/

/-- The parts that a part of a name adds to a path: none for a dot. -/
def added (part : Text) : List Text :=
  if part = "." then [] else [part]

theorem filter_part (hne : part ≠ []) :
    [part].filter (fun p => p ≠ [] && p ≠ ".") = added part := by
  by_cases hdot : part = "." <;> simp [added, hne, hdot]

theorem leadingSlashes_part (hslash : slash ∉ part) : Path.leadingSlashes part = 0 := by
  cases part with
  | nil => rfl
  | cons c cs =>
    have hc : c ≠ slash := fun heq => hslash (heq ▸ List.mem_cons_self)
    rw [Path.leadingSlashes, List.takeWhile_cons_of_neg (by simpa using hc)]
    rfl

theorem ofText_part (hslash : slash ∉ part) (hne : part ≠ []) :
    Path.ofText part = ⟨0, added part⟩ := by
  rw [Path.ofText, leadingSlashes_part hslash, Text.pieces_of_not_mem hslash, filter_part hne]

/-- A part at the root, as a path. -/
theorem ofText_rooted (hslash : slash ∉ part) (hne : part ≠ []) :
    Path.ofText (slash :: part) = ⟨1, added part⟩ := by
  have hleading : Path.leadingSlashes (slash :: part) = 1 := by
    cases part with
    | nil => rfl
    | cons c cs =>
      have hc : c ≠ slash := fun heq => hslash (heq ▸ List.mem_cons_self)
      rw [Path.leadingSlashes, List.takeWhile_cons_of_pos (by simp),
        List.takeWhile_cons_of_neg (by simpa using hc)]
      rfl
  have hpieces : Text.pieces slash (slash :: part) = [[], part] := by
    rw [Text.pieces, if_pos rfl, Text.pieces_of_not_mem hslash]
  rw [Path.ofText, hleading, hpieces, List.filter_cons_of_neg (by simp), filter_part hne]

/-- A part below a directory, as a path: a dot adds nothing to it. -/
theorem ofText_inside (h : IsSpelled directory) (hslash : slash ∉ part) (hne : part ≠ []) :
    Path.ofText (directory ++ slash :: part) =
      { Path.ofText directory with parts := (Path.ofText directory).parts ++ added part } := by
  obtain ⟨front, c, rfl, hc⟩ := h.ends
  have hstops : ¬((front ++ [c]).takeWhile (· = slash)).length = (front ++ [c]).length := by
    intro hlength
    have hall := List.takeWhile_eq_self_iff.mp
      ((List.takeWhile_prefix (· = slash)).eq_of_length hlength)
    exact hc (of_decide_eq_true (hall c (List.mem_append_right _ (List.mem_singleton_self c))))
  have hleading : Path.leadingSlashes (front ++ [c] ++ slash :: part) =
      Path.leadingSlashes (front ++ [c]) := by
    rw [Path.leadingSlashes, Path.leadingSlashes, List.takeWhile_append, if_neg hstops]
  rw [Path.ofText, hleading, pieces_inside hslash, List.filter_append, filter_part hne]
  rfl

/-! ### What a name leads to as it is written -/

section Find
variable {disk : Disk} {t u : Tree}

/-- A name as it is written leads to what its path leads to, unless it is empty, too long, or asks for a
directory where there is none. -/
theorem find_eq_ok : find disk name = .ok t ↔ disk.find (.ofText name) = .ok t ∧ name ≠ [] ∧
    (Text.bytes name).length < nameLimit ∧ (goesInside name = true → t.isDirectory = true) := by
  have hlimit : (Text.bytes name).length < nameLimit ↔ ¬nameLimit ≤ (Text.bytes name).length :=
    Nat.not_le.symm
  rw [find, hlimit]
  constructor
  · intro h
    obtain ⟨u, hu, h⟩ := Except.bind_eq_ok.mp h
    split at h
    · cases h
    · next hempty =>
      split at h
      · cases h
      · next hshort =>
        split at h
        · cases h
        · next hinside =>
          obtain rfl := Except.ok.inj h
          exact ⟨hu, mt List.isEmpty_iff.mpr hempty, hshort, by simpa using hinside⟩
  · intro hgiven
    obtain ⟨ht, hne, hshort, hinside⟩ := hgiven
    have houtside : ¬(goesInside name && !t.isDirectory) = true := by simpa using hinside
    rw [ht]
    show (if name.isEmpty = true then _ else _) = _
    rw [if_neg (mt List.isEmpty_iff.mp hne), if_neg hshort, if_neg houtside]
    rfl

theorem leads_of_find (h : find disk name = .ok t) : leads disk name = true := by
  rw [leads, h]
  rfl

/-- A name whose last part is a dot goes on inside. -/
theorem goesInside_of_getLast? (h : (Text.pieces slash name).getLast? = some part)
    (hne : part ≠ []) : goesInside name = true ↔ part = "." := by
  rw [goesInside, h]
  show (part.isEmpty || decide (part = ".")) = true ↔ _
  rw [List.isEmpty_eq_false_iff.mpr hne, Bool.false_or, decide_eq_true_eq]

theorem goesInside_part (hslash : slash ∉ part) (hne : part ≠ []) :
    goesInside part = true ↔ part = "." :=
  goesInside_of_getLast? (by rw [Text.pieces_of_not_mem hslash]; rfl) hne

theorem goesInside_rooted (hslash : slash ∉ part) (hne : part ≠ []) :
    goesInside (slash :: part) = true ↔ part = "." :=
  goesInside_of_getLast? (by rw [Text.pieces, if_pos rfl, Text.pieces_of_not_mem hslash]; rfl) hne

theorem goesInside_inside (hslash : slash ∉ part) (hne : part ≠ []) :
    goesInside (directory ++ slash :: part) = true ↔ part = "." :=
  goesInside_of_getLast? (by rw [pieces_inside hslash, List.getLast?_concat]) hne

/-- A part that leads on, or is a dot behind a directory, stands in a directory. -/
theorem isDirectory_of_added {around : List Tree} (hwalk : Tree.walk around u (added part) = .ok t)
    (hdot : part = "." → t.isDirectory = true) : u.isDirectory = true := by
  rw [added] at hwalk
  split at hwalk
  · next hpart =>
    obtain rfl := Except.ok.inj hwalk
    exact hdot hpart
  · exact Tree.isDirectory_of_walk hwalk

/-- What a name leads to stands under its last part in the directory that the name before it leads to. -/
theorem exists_find_before (before : Text)
    (hslashes : (Path.ofText name).slashes = (Path.ofText before).slashes)
    (hparts : (Path.ofText name).parts = (Path.ofText before).parts ++ added part)
    (hlast : goesInside name = true ↔ part = ".") (hne : before ≠ [])
    (hshort : (Text.bytes before).length < nameLimit) (h : find disk name = .ok t) :
    ∃ around u, find disk before = .ok u ∧ u.isDirectory = true ∧
      Tree.walk around u (added part) = .ok t := by
  obtain ⟨ht, -, -, hinside⟩ := find_eq_ok.mp h
  obtain ⟨around, u, hu, hwalk⟩ := Disk.exists_find_front hslashes hparts ht
  have hdirectory := isDirectory_of_added hwalk fun hdot => hinside (hlast.mpr hdot)
  exact ⟨around, u, find_eq_ok.mpr ⟨hu, hne, hshort, fun _ => hdirectory⟩, hdirectory, hwalk⟩

theorem exists_find_part (hslash : slash ∉ part) (hne : part ≠ [])
    (h : find disk part = .ok t) : ∃ around u, find disk "." = .ok u ∧ u.isDirectory = true ∧
      Tree.walk around u (added part) = .ok t := by
  have hpath := ofText_part hslash hne
  exact exists_find_before "." (by rw [hpath]; rfl) (by rw [hpath]; rfl) (goesInside_part hslash hne)
    (by decide) (by decide) h

theorem exists_find_rooted (hslash : slash ∉ part) (hne : part ≠ [])
    (h : find disk (slash :: part) = .ok t) : ∃ around u, find disk [slash] = .ok u ∧
      u.isDirectory = true ∧ Tree.walk around u (added part) = .ok t := by
  have hpath := ofText_rooted hslash hne
  exact exists_find_before [slash] (by rw [hpath]; rfl) (by rw [hpath]; rfl)
    (goesInside_rooted hslash hne) (by decide) (by decide) h

/-- What a name leads to stands under its last part in the directory that the rest of it leads to. -/
theorem exists_find_inside (hspelled : IsSpelled directory) (hslash : slash ∉ part)
    (hne : part ≠ []) (h : find disk (directory ++ slash :: part) = .ok t) :
    ∃ around u, find disk directory = .ok u ∧ u.isDirectory = true ∧
      Tree.walk around u (added part) = .ok t := by
  have hpath := ofText_inside hspelled hslash hne
  obtain ⟨-, -, hshort, -⟩ := find_eq_ok.mp h
  rw [Text.bytes, List.flatMap_append, List.length_append] at hshort
  exact exists_find_before directory (by rw [hpath]) (by rw [hpath]) (goesInside_inside hslash hne)
    hspelled.ne_nil (Nat.lt_of_le_of_lt (Nat.le_add_right _ _) hshort) h

end Find

end Glob

end ApiLint
