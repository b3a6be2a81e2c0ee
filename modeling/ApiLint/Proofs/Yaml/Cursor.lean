import ApiLint.Yaml.Cursor
import Mathlib.Data.List.TakeWhile

/-! Where a cursor stands. A cursor that was moved through a text stands behind a part of it and in
front of the rest, and its line is the number of newlines that it passed, as long as no other
character ends a line. -/
namespace ApiLint.Yaml

/-- A text with newlines as its only line ends, and without tabs. -/
def IsClear (cs : List Char) : Prop :=
  ∀ c ∈ cs, c ≠ '\t' ∧ (isBreak c = true → c = '\n')

theorem isClear_append {cs ds : List Char} : IsClear (cs ++ ds) ↔ IsClear cs ∧ IsClear ds :=
  List.forall_mem_append

theorem isClear_cons {c : Char} {cs : List Char} :
    IsClear (c :: cs) ↔ (c ≠ '\t' ∧ (isBreak c = true → c = '\n')) ∧ IsClear cs :=
  List.forall_mem_cons

/-- Blanks between the signs of a text: spaces and newlines. -/
def IsSpacing (cs : List Char) : Prop :=
  ∀ c ∈ cs, c = ' ' ∨ c = '\n'

/-- Whether blanks end in front of a text: something else than a comment comes next, or the end. -/
def EndsSpacing (cs : List Char) : Prop :=
  ∀ c ∈ cs.head?, c ≠ ' ' ∧ c ≠ '#' ∧ isBreak c = false

theorem EndsSpacing.head_ne_space {cs : List Char} (h : EndsSpacing cs) :
    ∀ c ∈ cs.head?, c ≠ ' ' :=
  fun c hc => (h c hc).1

/-- The mark of what comes after a part of a text. -/
def markAfter (front : List Char) : Mark :=
  ⟨front.count '\n', front.length⟩

namespace Cursor

/-- A place in a text: behind `front` and in front of `rest`. -/
structure At (front rest : List Char) (c : Cursor) : Prop where
  left : c.rest = rest
  index : c.index = front.length
  line : c.line = front.count '\n'
  size : c.size = front.length + rest.length
  stop : c.stop = none
  clear : IsClear rest

namespace At

variable {front rest cs : List Char} {ch : Char} {c : Cursor}

theorem mark (h : c.At front rest) : c.mark = markAfter front := by
  rw [Cursor.mark, h.line, h.index]
  rfl

theorem peek (h : c.At front rest) : c.peek = rest.head? := by
  rw [Cursor.peek, h.left]

theorem isStuck (h : c.At front rest) : c.isStuck = false := by
  rw [Cursor.isStuck, h.stop]
  exact Bool.and_false _

theorem length_lt_steps (h : c.At front rest) : rest.length < c.steps := by
  have hsize := h.size
  rw [steps]
  omega

/-- The cursor goes on by one character. -/
theorem advance (h : c.At front (ch :: rest)) : c.advance.At (front ++ [ch]) rest := by
  obtain ⟨hch, hrest⟩ := isClear_cons.mp h.clear
  have hindex := h.index
  have hline := h.line
  have hsize := h.size
  rw [List.length_cons] at hsize
  rw [Cursor.advance, h.left]
  dsimp only
  split
  · next hbreak =>
    obtain rfl := hch.2 (Bool.and_eq_true_iff.mp hbreak).1
    exact ⟨rfl, by simp [hindex], by simp [hline], by simp [hsize]; omega, h.stop, hrest⟩
  · next hno =>
    have hnewline : ch ≠ '\n' := by
      rintro rfl
      exact hno rfl
    exact ⟨rfl, by simp [hindex], by simp [hline, hnewline],
      by simp [hsize]; omega, h.stop, hrest⟩

theorem advanceBy (h : c.At front (cs ++ rest)) :
    (c.advanceBy cs.length).At (front ++ cs) rest := by
  induction cs generalizing front c with
  | nil => rwa [List.append_nil]
  | cons ch cs ih =>
    have hnext := ih h.advance
    rwa [List.append_assoc, List.singleton_append] at hnext

/-- A row of characters of a kind is passed as a whole. -/
theorem takeWhile {p : Char → Bool} (h : c.At front (cs ++ rest)) (hcs : ∀ x ∈ cs, p x = true)
    (hend : ∀ x ∈ rest.head?, p x = false) :
    (c.takeWhile p).1 = cs ∧ (c.takeWhile p).2.At (front ++ cs) rest := by
  have htake : c.rest.takeWhile p = cs := by
    rw [h.left, List.takeWhile_append_of_pos hcs]
    cases rest with
    | nil => simp
    | cons x rest => simp [hend x rfl]
  refine ⟨htake, ?_⟩
  show (c.advanceBy (c.rest.takeWhile p).length).At _ _
  rw [htake]
  exact h.advanceBy

theorem skipSpaces (h : c.At front (cs ++ rest)) (hcs : ∀ x ∈ cs, x = ' ')
    (hend : ∀ x ∈ rest.head?, x ≠ ' ') : c.skipSpaces.At (front ++ cs) rest :=
  (h.takeWhile (fun x hx => decide_eq_true (hcs x hx))
    fun x hx => decide_eq_false (hend x hx)).2

theorem lineBreak (h : c.At front ('\n' :: rest)) :
    c.lineBreak.1 = ['\n'] ∧ c.lineBreak.2.At (front ++ ['\n']) rest := by
  have heq : c.lineBreak = (['\n'], c.advance) := by
    rw [Cursor.lineBreak, h.left]
    rfl
  rw [heq]
  exact ⟨rfl, h.advance⟩

end At

end Cursor

/-- Spacing is a row of spaces, and then nothing or a newline with spacing behind it. -/
theorem IsSpacing.exists_spaces {cs : List Char} (h : IsSpacing cs) :
    ∃ spaces cs', cs = spaces ++ cs' ∧ (∀ x ∈ spaces, x = ' ') ∧
      (cs' = [] ∨ ∃ more, cs' = '\n' :: more ∧ IsSpacing more) := by
  induction cs with
  | nil => exact ⟨[], [], rfl, nofun, .inl rfl⟩
  | cons x cs ih =>
    obtain ⟨hx, hcs⟩ := List.forall_mem_cons.mp h
    obtain rfl | rfl := hx
    · obtain ⟨spaces, cs', rfl, hspaces, hcs'⟩ := ih hcs
      exact ⟨' ' :: spaces, cs', rfl, List.forall_mem_cons.mpr ⟨rfl, hspaces⟩, hcs'⟩
    · exact ⟨[], '\n' :: cs, rfl, nofun, .inr ⟨cs, rfl, hcs⟩⟩

/-- Behind the spaces of a gap the gap is over, or its next line starts. -/
theorem Cursor.At.exists_skipSpaces {front gap rest : List Char} {c : Cursor}
    (h : c.At front (gap ++ rest)) (hgap : IsSpacing gap) (hend : ∀ x ∈ rest.head?, x ≠ ' ') :
    c.skipSpaces.At (front ++ gap) rest ∨
      ∃ spaces more, gap = spaces ++ '\n' :: more ∧ IsSpacing more ∧
        c.skipSpaces.At (front ++ spaces) ('\n' :: (more ++ rest)) := by
  obtain ⟨spaces, cs', rfl, hspaces, rfl | ⟨more, rfl, hmore⟩⟩ := hgap.exists_spaces
  · rw [List.append_nil] at h ⊢
    exact .inl (h.skipSpaces hspaces hend)
  · rw [List.append_assoc] at h
    exact .inr ⟨spaces, more, rfl, hmore,
      h.skipSpaces hspaces fun x hx => Option.some.inj hx ▸ by decide⟩

end ApiLint.Yaml
