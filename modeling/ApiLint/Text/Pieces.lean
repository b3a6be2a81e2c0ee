/-! The pieces of a text between its separators. There is one piece more than there are
separators. -/
namespace ApiLint.Text

variable {α : Type} [DecidableEq α]

/-- The pieces of a row between occurrences of a separator. -/
def pieces (separator : α) : List α → List (List α)
  | [] => [[]]
  | c :: rest =>
    if c = separator then [] :: pieces separator rest
    else
      match pieces separator rest with
      | piece :: more => (c :: piece) :: more
      | [] => [[c]]

theorem pieces_ne_nil (separator : α) (cs : List α) : pieces separator cs ≠ [] := by
  fun_cases pieces separator cs <;> simp_all

/-- The pieces with their separators between them are the row. -/
theorem intercalate_pieces (separator : α) (cs : List α) :
    [separator].intercalate (pieces separator cs) = cs := by
  fun_induction pieces separator cs with
  | case1 => rfl
  | case2 rest ih =>
    obtain ⟨piece, more, hp⟩ := List.exists_cons_of_ne_nil (pieces_ne_nil separator rest)
    rw [hp] at ih ⊢
    simpa [List.intercalate, List.intersperse] using ih
  | case3 c rest hc piece more hp ih =>
    rw [hp] at ih
    cases more <;> simpa [List.intercalate, List.intersperse] using ih
  | case4 c rest hc hp ih => exact absurd hp (pieces_ne_nil separator rest)

/-- What is no separator belongs to the first piece. -/
theorem exists_pieces_cons {separator c : α} (hc : c ≠ separator) (cs : List α) :
    ∃ piece more, pieces separator cs = piece :: more ∧
      pieces separator (c :: cs) = (c :: piece) :: more := by
  obtain ⟨piece, more, hpieces⟩ := List.exists_cons_of_ne_nil (pieces_ne_nil separator cs)
  exact ⟨piece, more, hpieces, by rw [pieces, if_neg hc, hpieces]⟩

/-- Pieces in front of a separator and behind it. -/
theorem pieces_append {separator : α} (front rest : List α) :
    pieces separator (front ++ separator :: rest) =
      pieces separator front ++ pieces separator rest := by
  induction front with
  | nil =>
    rw [List.nil_append, pieces.eq_def separator (separator :: rest)]
    exact if_pos rfl
  | cons c front ih =>
    rw [List.cons_append, pieces, pieces, ih]
    split
    · rfl
    · obtain ⟨piece, more, hpieces⟩ := List.exists_cons_of_ne_nil (pieces_ne_nil separator front)
      rw [hpieces]
      rfl

theorem pieces_of_not_mem {separator : α} {cs : List α} (h : separator ∉ cs) :
    pieces separator cs = [cs] := by
  induction cs with
  | nil => rfl
  | cons c cs ih =>
    have hc : c ≠ separator := fun heq => h (heq ▸ List.mem_cons_self)
    rw [pieces, if_neg hc, ih fun hcs => h (List.mem_cons_of_mem c hcs)]

/-- Rows without separators are the pieces of what they make with separators between them. -/
theorem pieces_intercalate {separator : α} {rows : List (List α)} (hne : rows ≠ [])
    (h : ∀ row ∈ rows, separator ∉ row) :
    pieces separator ([separator].intercalate rows) = rows := by
  induction rows with
  | nil => exact absurd rfl hne
  | cons row rows ih =>
    obtain ⟨hrow, hrows⟩ := List.forall_mem_cons.mp h
    cases rows with
    | nil => rw [List.intercalate_singleton, pieces_of_not_mem hrow]
    | cons next rows =>
      rw [List.intercalate_cons_cons, List.append_assoc, List.singleton_append, pieces_append,
        pieces_of_not_mem hrow, ih (List.cons_ne_nil _ _) hrows, List.singleton_append]

/-- What is no separator is in some piece. -/
theorem exists_mem_pieces {separator c : α} {cs : List α} (hc : c ≠ separator) (h : c ∈ cs) :
    ∃ piece ∈ pieces separator cs, c ∈ piece := by
  induction cs with
  | nil => cases h
  | cons d cs ih =>
    by_cases hd : d = separator
    · obtain ⟨piece, hpiece, hmem⟩ := ih ((List.mem_cons.mp h).resolve_left (hd ▸ hc))
      rw [pieces, if_pos hd]
      exact ⟨piece, List.mem_cons_of_mem _ hpiece, hmem⟩
    · obtain ⟨first, more, hcs, hdcs⟩ := exists_pieces_cons hd cs
      rw [hdcs]
      rcases List.mem_cons.mp h with rfl | h
      · exact ⟨_, List.mem_cons_self, List.mem_cons_self⟩
      · obtain ⟨piece, hpiece, hmem⟩ := ih h
        rw [hcs] at hpiece
        rcases List.mem_cons.mp hpiece with rfl | hpiece
        · exact ⟨_, List.mem_cons_self, List.mem_cons_of_mem d hmem⟩
        · exact ⟨piece, List.mem_cons_of_mem _ hpiece, hmem⟩

end ApiLint.Text
