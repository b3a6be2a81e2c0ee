import ApiLint.Proofs.Numeral.Decimal
import ApiLint.Report
import ApiLint.Report.Screen
import Mathlib.Data.List.DropRight
import Mathlib.Data.Nat.Notation

/-! How a report ends. Its last line counts the messages of the worst severity that there is, so it
is a line about errors exactly when there are errors (`countsErrors_lastLine`); where there are no
messages there is no report (`chars_render_eq_nil`). -/
namespace ApiLint

/-! ### Totals -/

namespace Totals

def count (t : Totals) : Severity → Nat
  | .error => t.errors
  | .warning => t.warnings
  | .info => t.infos
  | .hint => t.hints

theorem count_add (t : Totals) (r : Diagnosis) (s : Severity) :
    (t.add r).count s = t.count s + (r.bucket s).length := by
  cases s <;> rfl

theorem count_foldl (results : List (Text × Diagnosis)) (t : Totals) (s : Severity) :
    (results.foldl (fun t entry => t.add entry.2) t).count s =
      t.count s + (results.flatMap fun entry => entry.2.bucket s).length := by
  induction results generalizing t with
  | nil => rfl
  | cons entry results ih =>
    rw [List.foldl_cons, ih, count_add, List.flatMap_cons, List.length_append, Nat.add_assoc]

/-- The totals count the messages of all files. -/
theorem count_ofResults (results : List (Text × Diagnosis)) (s : Severity) :
    (ofResults results).count s = (results.flatMap fun entry => entry.2.bucket s).length := by
  rw [ofResults, count_foldl]
  cases s <;> exact Nat.zero_add _

theorem count_eq_zero {results : List (Text × Diagnosis)} {s : Severity} :
    (ofResults results).count s = 0 ↔ ∀ entry ∈ results, entry.2.bucket s = [] := by
  rw [count_ofResults, List.length_eq_zero_iff, List.flatMap_eq_nil_iff]

theorem total_eq_zero {t : Totals} : t.total = 0 ↔ ∀ s, t.count s = 0 := by
  constructor
  · intro h s
    cases s <;> simp only [total, count] at h ⊢ <;> omega
  · intro h
    have he := h .error
    have hw := h .warning
    have hi := h .info
    have hh := h .hint
    simp only [count] at he hw hi hh
    rw [total, he, hw, hi, hh]

theorem add_inLineOrder (t : Totals) (r : Diagnosis) : t.add r.inLineOrder = t.add r := by
  have h := r.counts_inLineOrder
  simp only [Diagnosis.counts, List.cons.injEq, and_true] at h
  obtain ⟨he, hw, hi, hh⟩ := h
  rw [add, add, he, hw, hi, hh]

/-- Sorting messages does not change their numbers. -/
theorem ofResults_inLineOrder (results : List (Text × Diagnosis)) :
    ofResults (results.map fun entry => (entry.1, entry.2.inLineOrder)) = ofResults results := by
  simp only [ofResults, List.foldl_map, add_inLineOrder]

end Totals

theorem anyErrors_iff {results : List (Text × Diagnosis)} :
    anyErrors results = true ↔ 0 < (Totals.ofResults results).errors := by
  have hzero : (Totals.ofResults results).errors = 0 ↔ ∀ entry ∈ results, entry.2.errors = [] :=
    Totals.count_eq_zero (s := .error)
  rw [Nat.pos_iff_ne_zero, Ne, hzero, anyErrors, List.any_eq_true]
  simp only [Bool.not_eq_true', List.isEmpty_eq_false_iff, not_forall, exists_prop]

/-! ### The characters of a report -/

namespace Styled

theorem chars_foldl (ts : List Styled) (t : Styled) :
    (ts.foldl followedBy t).chars = t.chars ++ ts.flatMap chars := by
  induction ts generalizing t with
  | nil => rw [List.foldl_nil, List.flatMap_nil, List.append_nil]
  | cons u ts ih =>
    rw [List.foldl_cons, ih, List.flatMap_cons, ← List.append_assoc]
    rfl

theorem chars_appendPlain (t : Styled) (part : Text × Option Style) :
    (t.appendPlain part).chars = t.chars ++ (ofText part.1 part.2).chars := by
  rw [appendPlain]
  split
  · next hempty =>
    rw [List.isEmpty_iff.mp hempty]
    exact (List.append_nil _).symm
  · rfl

theorem chars_assemble (parts : List (Text × Option Style)) :
    (assemble parts).chars = parts.flatMap fun part => (ofText part.1 part.2).chars := by
  have hfold : ∀ t : Styled, (parts.foldl appendPlain t).chars =
      t.chars ++ parts.flatMap fun part => (ofText part.1 part.2).chars := by
    induction parts with
    | nil => exact fun t => (List.append_nil _).symm
    | cons part parts ih =>
      intro t
      rw [List.foldl_cons, ih, chars_appendPlain, List.flatMap_cons, List.append_assoc]
  exact hfold {}

theorem chars_concat (ts : List Styled) : (concat ts).chars = ts.flatMap chars :=
  chars_foldl ts {}

theorem chars_joinLines_cons_cons (t u : Styled) (ts : List Styled) :
    (joinLines (t :: u :: ts)).chars = t.chars ++ .char '\n' :: (joinLines (u :: ts)).chars := by
  simp only [joinLines, chars_concat, List.intersperse_cons_cons, List.flatMap_cons]
  rfl

/-- The last of joined lines is the last line of what they make. -/
theorem suffix_joinLines (ts : List Styled) (t : Styled) :
    (.char '\n' :: t.chars) <:+ (.char '\n' :: (joinLines (ts ++ [t])).chars) := by
  induction ts with
  | nil =>
    have hsingle : (joinLines [t]).chars = t.chars := by
      rw [joinLines, chars_concat, List.intersperse_singleton, List.flatMap_singleton]
    exact ⟨[], congrArg (List.cons (CodePoint.char '\n')) hsingle.symm⟩
  | cons u ts ih =>
    obtain ⟨v, vs, hv⟩ := List.exists_cons_of_ne_nil (List.append_ne_nil_of_right_ne_nil ts
      (List.cons_ne_nil t []))
    rw [List.cons_append, hv, chars_joinLines_cons_cons]
    rw [hv] at ih
    exact ih.trans ⟨.char '\n' :: u.chars, rfl⟩

end Styled

/-! ### Lines of an output -/

namespace Text

/-- The last line of an output, each line of which ends in a line break. -/
def lastLine (t : Text) : Text :=
  t.dropLast.rtakeWhile (· ≠ .char '\n')

theorem lastLine_append {front line : Text} (h : .char '\n' ∉ line) :
    lastLine (front ++ .char '\n' :: line ++ [.char '\n']) = line := by
  have hline : ∀ c ∈ line.reverse, decide (c ≠ .char '\n') = true := fun c hc =>
    decide_eq_true fun heq => h (heq ▸ List.mem_reverse.mp hc)
  rw [lastLine, List.dropLast_concat, List.rtakeWhile, List.reverse_append, List.reverse_cons,
    List.append_assoc, List.takeWhile_append_of_pos hline, List.singleton_append,
    List.takeWhile_cons_of_neg (by simp), List.append_nil, List.reverse_reverse]

/-- The last letter of a line that counts something, be it one thing or several. -/
def lastLetter (t : Text) : Option CodePoint :=
  (t.rdropWhile (· = .char 's')).getLast?

theorem lastLetter_append_s (t : Text) : lastLetter (t ++ [.char 's']) = lastLetter t := by
  rw [lastLetter, List.rdropWhile_concat_pos _ _ _ (by decide), lastLetter]

theorem lastLetter_append {c : CodePoint} (t : Text) (h : c ≠ .char 's') :
    lastLetter (t ++ [c]) = some c := by
  rw [lastLetter, List.rdropWhile_concat_neg _ _ _ (by simpa using h), List.getLast?_concat]

theorem lastLetter_lastLine {c : CodePoint} (t : Text) (hbreak : c ≠ .char '\n')
    (hs : c ≠ .char 's') : lastLetter (lastLine (t ++ [c] ++ [.char '\n'])) = some c := by
  rw [lastLine, List.dropLast_concat, List.rtakeWhile_concat_pos _ _ _ (by simpa using hbreak),
    lastLetter_append _ hs]

/-- Whether a code point is shown as it is: a character that is no command. -/
def isPlain (c : CodePoint) : Bool :=
  c.isA fun d => 0x20 ≤ d.toNat

theorem isPlain_nat (n : Nat) : ∀ c ∈ ofString (toString n), isPlain c = true := by
  intro c hc
  obtain ⟨d, hd, rfl⟩ := List.mem_map.mp hc
  rw [Nat.toString_eq_repr, Nat.toList_repr] at hd
  have hdigit := Numeral.isDigit_iff.mp (Nat.isDigit_of_mem_toDigits (by decide) (by decide) hd)
  exact decide_eq_true (by omega)

end Text

/-- A line of plain characters is shown as it is. -/
theorem Styled.chars_ofText {t : Text} (h : ∀ c ∈ t, Text.isPlain c = true)
    (style : Option Style) : (ofText t style).chars = t := by
  refine List.filter_eq_self.mpr fun c hc => ?_
  have hplain := h c hc
  cases c with
  | half offset => rfl
  | char d =>
    replace hplain : 0x20 ≤ d.toNat := of_decide_eq_true hplain
    have hne : ∀ e : Char, e.toNat < 0x20 → d ≠ e := fun e he heq => by subst heq; omega
    simp only [CodePoint.isA, isStripped, hne '\x07' (by decide), hne '\x08' (by decide),
      hne '\x0b' (by decide), hne '\x0c' (by decide), hne '\r' (by decide), decide_false,
      Bool.or_false, Bool.not_false]

namespace Screen

theorem expandLine_of_isPlain {t : Text} (h : ∀ c ∈ t, Text.isPlain c = true) :
    expandLine t = t := by
  have htab : .char '\t' ∉ t := fun hmem => absurd (h _ hmem) (by decide)
  rw [expandLine, Text.pieces_of_not_mem htab, expandPieces]

theorem shown_ne_nil (t : Styled) : shown t ≠ [] := by
  obtain ⟨piece, more, h⟩ := List.exists_cons_of_ne_nil (Text.pieces_ne_nil (.char '\n') t.chars)
  rw [shown, h, List.flatMap_cons]
  exact List.append_ne_nil_of_left_ne_nil (List.append_ne_nil_of_right_ne_nil _ (by decide)) _

/-- A text whose last line is plain: what is shown ends with that line. -/
theorem shown_of_last_isPlain {t : Styled} {front line : Text}
    (ht : t.chars = front ++ .char '\n' :: line) (hline : ∀ c ∈ line, Text.isPlain c = true) :
    ∃ before, shown t = before ++ .char '\n' :: line ++ [.char '\n'] := by
  have hbreak : .char '\n' ∉ line := fun hmem => absurd (hline _ hmem) (by decide)
  obtain hnil | ⟨pieces, piece, hpieces⟩ :=
    List.eq_nil_or_concat' (Text.pieces (.char '\n') front)
  · exact absurd hnil (Text.pieces_ne_nil _ _)
  · refine ⟨pieces.flatMap (fun line => expandLine line ++ ("\n" : Text)) ++ expandLine piece, ?_⟩
    rw [shown, ht, Text.pieces_append, Text.pieces_of_not_mem hbreak, List.flatMap_append,
      List.flatMap_singleton, expandLine_of_isPlain hline, hpieces, List.flatMap_append,
      List.flatMap_singleton]
    simp only [List.append_assoc]
    rfl

end Screen

namespace Report

theorem isPlain_counted {word : Text} (n : Nat) (h : ∀ c ∈ word, Text.isPlain c = true) :
    ∀ c ∈ counted n word, Text.isPlain c = true := by
  simp only [counted, List.forall_mem_append]
  refine ⟨⟨⟨Text.isPlain_nat n, by decide⟩, h⟩, ?_⟩
  split <;> decide

theorem lastLetter_counted_append {c : CodePoint} (n : Nat) (front : Text) (h : c ≠ .char 's') :
    Text.lastLetter (counted n (front ++ [c])) = some c := by
  rw [counted, ← List.append_assoc]
  split
  · exact (List.append_nil _).symm ▸ Text.lastLetter_append _ h
  · exact (Text.lastLetter_append_s _).trans (Text.lastLetter_append _ h)

/-- The words for the severities end in different letters. -/
theorem lastLetter_counted (n : Nat) (s : Severity) :
    Text.lastLetter (counted n s.text) =
      some (match s with | .error => 'r' | .warning => 'g' | .info => 'o' | .hint => 't') := by
  cases s with
  | error => exact lastLetter_counted_append n "erro" (by decide)
  | warning => exact lastLetter_counted_append n "warnin" (by decide)
  | info => exact lastLetter_counted_append n "inf" (by decide)
  | hint => exact lastLetter_counted_append n "hin" (by decide)

/-- Whether a line counts errors. -/
def CountsErrors (line : Text) : Prop :=
  ∃ n, 0 < n ∧ line = counted n "error"

theorem CountsErrors.lastLetter {line : Text} (h : CountsErrors line) :
    line.lastLetter = some (.char 'r') := by
  obtain ⟨n, -, rfl⟩ := h
  exact lastLetter_counted n .error

/-- The last line below the blocks counts the messages of a severity, of errors if there are any. -/
theorem exists_last_footer {t : Totals} (h : t.total ≠ 0) :
    ∃ front s style, footer t = front ++ [.ofText (counted (t.count s) s.text) (some style)] ∧
      0 < t.count s ∧ (0 < t.errors → s = .error) := by
  have hlast : ∀ (n : Nat) (word : String) style,
      [(t.errors, "error", Style.red), (t.warnings, "warning", .yellow), (t.infos, "info", .cyan),
        (t.hints, "hint", .cyan)].find? (0 < ·.1) = some (n, word, style) →
      ∃ front, footer t = front ++ [.ofText (counted n word) (some style)] := by
    intro n word style hfind
    refine List.getLast?_eq_some_iff.mp ?_
    rw [footer, List.getLast?_map, List.getLast?_filter]
    exact congrArg (Option.map fun part : Nat × String × Style =>
      Styled.ofText (counted part.1 part.2.1) (some part.2.2)) hfind
  by_cases he : 0 < t.errors
  · obtain ⟨front, hfront⟩ := hlast t.errors "error" .red (by simp [he])
    exact ⟨front, .error, .red, hfront, he, fun _ => rfl⟩
  by_cases hw : 0 < t.warnings
  · obtain ⟨front, hfront⟩ := hlast t.warnings "warning" .yellow (by simp [he, hw])
    exact ⟨front, .warning, .yellow, hfront, hw, fun h => absurd h he⟩
  by_cases hi : 0 < t.infos
  · obtain ⟨front, hfront⟩ := hlast t.infos "info" .cyan (by simp [he, hw, hi])
    exact ⟨front, .info, .cyan, hfront, hi, fun h => absurd h he⟩
  · have hh : 0 < t.hints := by
      rw [Totals.total] at h
      omega
    obtain ⟨front, hfront⟩ := hlast t.hints "hint" .cyan (by simp [he, hw, hi, hh])
    exact ⟨front, .hint, .cyan, hfront, hh, fun h => absurd h he⟩

variable {results : List (Text × Diagnosis)}

/-- What a report consists of, when there are messages. -/
theorem exists_chars_render (h : (Totals.ofResults results).total ≠ 0) :
    ∃ blocks, (render results).chars = .char '\n' ::
      (blocks ++ .char '\n' :: (Styled.joinLines (footer (Totals.ofResults results))).chars) := by
  rw [render]
  simp only [Totals.ofResults_inLineOrder, if_neg h, Styled.chars_followedBy, Styled.chars_append]
  exact ⟨_, List.append_assoc _ _ _⟩

/-- Where there are no messages, there is no report. -/
theorem chars_render_eq_nil :
    (render results).chars = [] ↔ (Totals.ofResults results).total = 0 := by
  constructor
  · intro hnil
    by_contra h
    obtain ⟨blocks, hchars⟩ := exists_chars_render h
    rw [hnil] at hchars
    cases hchars
  · intro h
    rw [render]
    simp only [Totals.ofResults_inLineOrder, if_pos h]

/-- A report ends with the line that counts the messages of a severity, of errors if there are
any. -/
theorem exists_last_render (h : (Totals.ofResults results).total ≠ 0) :
    ∃ front s, (render results).chars =
        front ++ .char '\n' :: counted ((Totals.ofResults results).count s) s.text ∧
      0 < (Totals.ofResults results).count s ∧
      (0 < (Totals.ofResults results).errors → s = .error) := by
  obtain ⟨blocks, hchars⟩ := exists_chars_render h
  obtain ⟨front, s, style, hfooter, hcount⟩ := exists_last_footer h
  obtain ⟨before, hbefore⟩ := Styled.suffix_joinLines front
    (.ofText (counted ((Totals.ofResults results).count s) s.text) (some style))
  rw [Styled.chars_ofText (isPlain_counted _ (by cases s <;> decide))] at hbefore
  rw [hfooter, ← hbefore] at hchars
  exact ⟨.char '\n' :: (blocks ++ before), s, by rw [hchars, List.cons_append, List.append_assoc],
    hcount⟩

/-- **A report ends in a line about errors exactly when there are errors**, whatever stands in front
of it. -/
theorem countsErrors_lastLine (full : Text) (h : (Totals.ofResults results).total ≠ 0) :
    CountsErrors (full ++ Screen.shown (render results)).lastLine ↔
      0 < (Totals.ofResults results).errors := by
  obtain ⟨front, s, hchars, hcount, hs⟩ := exists_last_render h
  have hplain : ∀ c ∈ counted ((Totals.ofResults results).count s) s.text,
      Text.isPlain c = true := isPlain_counted _ (by cases s <;> decide)
  obtain ⟨before, hshown⟩ := Screen.shown_of_last_isPlain hchars hplain
  rw [hshown, ← List.append_assoc, ← List.append_assoc,
    Text.lastLine_append fun hmem => absurd (hplain _ hmem) (by decide)]
  constructor
  · intro herrors
    have hletter := herrors.lastLetter
    rw [lastLetter_counted] at hletter
    cases s with
    | error => exact hcount
    | _ => cases hletter
  · intro herrors
    obtain rfl := hs herrors
    exact ⟨_, herrors, rfl⟩

end Report

end ApiLint
