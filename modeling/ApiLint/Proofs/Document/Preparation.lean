import ApiLint.Proofs.Equality
import ApiLint.Proofs.Json.Tabs

/-! Preparing a text. A text is read with spaces for its tabs, and its name says only afterwards how it
is read. That suits both formats: what is read as JSON has the same value with tabs and without, and the
lines of any text stay as many as they are, each without its own tabs. -/
namespace ApiLint.Document

open Text (pieces exists_pieces_cons)

/-- The lines of a text without tabs are its lines without tabs. -/
theorem pieces_expandTabs (t : Text) :
    pieces (.char '\n') (expandTabs t) = (pieces (.char '\n') t).map expandTabs := by
  induction t with
  | nil => rfl
  | cons p t ih =>
    by_cases hline : p = .char '\n'
    · rw [expandTabs_cons (hline ▸ by decide), pieces, pieces, if_pos hline, if_pos hline, ih]
      rfl
    · obtain ⟨line, lines, ht, hpt⟩ := exists_pieces_cons hline t
      obtain ⟨line', lines', hexp, hpexp⟩ := exists_pieces_cons hline (expandTabs t)
      rw [hpt]
      rw [ht] at ih
      by_cases htab : p = .char '\t'
      · have hspace : CodePoint.char ' ' ≠ .char '\n' := by decide
        subst htab
        rw [expandTabs_tab, pieces, if_neg hspace, pieces, if_neg hspace, ih]
        rfl
      · rw [expandTabs_cons htab, pieces, if_neg hline, ih, List.map_cons, List.map_cons,
          expandTabs_cons htab]

/-- A text that is read as JSON is parsed to its value under any name that says JSON. -/
theorem parse_of_read {t : Text} {v : Value} {path : Path} (h : Json.read t = .ok v)
    (hpath : path.suffix = ".json") : parse t path = .ok v := by
  have hformat : format? path = some .json := if_pos hpath
  rw [parse, hformat, h]
  rfl

/-- **Spaces for tabs change neither the value nor the lines.** A text that is read as JSON is read with
the same value without its tabs, and a file of either text is parsed alike under any name that says JSON.
And whatever a text holds, the lines of what it is prepared to are those behind its byte order mark, as
many as they are, each with two spaces for every tab. -/
theorem prepare_faithful :
    (∀ (t : Text) (v : Value), Json.read t = .ok v → Json.read (expandTabs t) = .ok v) ∧
      (∀ (t : Text) (v : Value) (path : Path), Json.read t = .ok v → path.suffix = ".json" →
        parse (expandTabs t) path = parse t path) ∧
      ∀ t : Text, pieces (.char '\n') (prepare t) =
        (pieces (.char '\n') (stripMark t)).map expandTabs := by
  refine ⟨fun t v => Json.read_expandTabs, fun t v path hread hpath => ?_,
    fun t => pieces_expandTabs (stripMark t)⟩
  rw [parse_of_read (Json.read_expandTabs hread) hpath, parse_of_read hread hpath]

/-- A text with tabs on both of its lines, one of them right behind a number. -/
def tabbedText : Text :=
  "\t\x7b\"a\":\t[1\t,\n\ttrue]\x7d"

theorem prepare_faithful_tabbed :
    Json.read tabbedText = .ok (.map [(.str "a", .list [.int 1, .bool true])]) ∧
      Json.read (expandTabs tabbedText) = .ok (.map [(.str "a", .list [.int 1, .bool true])]) ∧
      parse (expandTabs tabbedText) ⟨0, ["a.json"]⟩ = parse tabbedText ⟨0, ["a.json"]⟩ ∧
      expandTabs tabbedText ≠ tabbedText := by
  have hread : Json.read tabbedText = .ok (.map [(.str "a", .list [.int 1, .bool true])]) :=
    Except.eq_ok_of_holds (by decide +kernel)
  exact ⟨hread, prepare_faithful.1 _ _ hread,
    prepare_faithful.2.1 _ _ ⟨0, ["a.json"]⟩ hread (by decide), by decide +kernel⟩

end ApiLint.Document
