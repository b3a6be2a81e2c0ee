import ApiLint.Proofs.Lint.Texts
import ApiLint.Proofs.Report.Footer
import ApiLint.Proofs.Report.Order
import Mathlib.Algebra.BigOperators.Group.List.Basic
import Mathlib.Algebra.GroupWithZero.Nat

/-! What a report says. Where there are no messages there is no report. Otherwise it has a block for
each file, whether anything was found in it or not, and in the block a line for each message of the
file; below the blocks these lines are counted (`make_lists_all`). A report is put together from
styled pieces, so it is held here against the plain text that it should be. -/
namespace ApiLint

/-- A text without the characters that have no place in a report. -/
def Text.kept (t : Text) : Text :=
  t.filter (!·.isA Styled.isStripped)

namespace Text

theorem isPlain_spaces (n : Nat) : ∀ c ∈ spaces n, isPlain c = true := by
  intro c hc
  rw [List.eq_of_mem_replicate hc]
  decide

theorem isPlain_int (i : Int) : ∀ c ∈ ofString (toString i), isPlain c = true := by
  cases i with
  | ofNat n => exact isPlain_nat n
  | negSucc n =>
    show ∀ c ∈ (("-" ++ toString (n + 1)).toList.map CodePoint.char), isPlain c = true
    rw [String.toList_append, List.map_append, List.forall_mem_append]
    exact ⟨by decide, isPlain_nat (n + 1)⟩

end Text

theorem Styled.chars_joinLines (ts : List Styled) :
    (joinLines ts).chars = Text.joined "\n" (ts.map chars) := by
  match ts with
  | [] => rfl
  | [t] =>
    rw [joinLines, chars_concat, List.intersperse_singleton, List.flatMap_singleton, List.map_singleton,
      Text.joined, List.intercalate_singleton]
  | t :: u :: ts =>
    rw [chars_joinLines_cons_cons, chars_joinLines (u :: ts), List.map_cons, List.map_cons,
      List.map_cons, Text.joined, Text.joined, List.intercalate_cons_cons, List.append_assoc]
    rfl

namespace Report

/-! ### The plain text of a report -/

/-- The severities in the order of a report, the least first. -/
def rising : List Severity := [.hint, .info, .warning, .error]

/-- The sign in front of the messages of a severity; hints share theirs with infos. -/
def signOf : Severity → Sign
  | .error => .error
  | .warning => .warning
  | .info | .hint => .info

def plainLine (widths : Widths) (sign : Sign) (m : Message) : Text :=
  sign.text ++ " " ++ padding widths.line (lineNumber m) ++ lineNumber m ++ " " ++
    (words m).kept ++ padding widths.message (words m) ++ " " ++ m.rule.kept

def plainRow (widths : Widths) (r : Diagnosis) (s : Severity) : List Text :=
  (r.bucket s).map (plainLine widths (signOf s))

def plainLines (widths : Widths) (r : Diagnosis) : List Text :=
  rising.flatMap (plainRow widths r)

/-- The characters of the block for a file. -/
def plainBlock (widths : Widths) (entry : Text × Diagnosis) : Text :=
  entry.1.kept ++ "\n" ++ Text.joined "\n" (plainLines widths entry.2) ++ "\n"

def plainFooter (number : Severity → Nat) : List Text :=
  (rising.filter fun s => 0 < number s).map fun s => counted (number s) s.text

/-- A file of a run with its messages in the order of their lines. -/
def sorted (entry : Text × Diagnosis) : Text × Diagnosis :=
  (entry.1, entry.2.inLineOrder)

theorem isPlain_sign (sign : Sign) : ∀ c ∈ sign.text, Text.isPlain c = true := by
  cases sign <;> decide

theorem chars_line (widths : Widths) (sign : Sign) (m : Message) :
    (line widths sign m).chars = plainLine widths sign m := by
  have hspace : ∀ c ∈ (" " : Text), Text.isPlain c = true := by decide
  simp only [line, Styled.chars_assemble, List.flatMap_cons, List.flatMap_nil, List.append_nil,
    Styled.chars_ofText (isPlain_sign sign), Styled.chars_ofText hspace,
    Styled.chars_ofText (Text.isPlain_int m.line), Styled.chars_ofText (Text.isPlain_spaces _),
    padding, lineNumber, plainLine, List.append_assoc]
  rfl

theorem chars_lines (widths : Widths) (r : Diagnosis) :
    (lines widths r).map Styled.chars = plainLines widths r := by
  simp only [lines, plainLines, plainRow, rising, List.map_append, List.map_map, Function.comp_def,
    chars_line, List.flatMap_cons, List.flatMap_nil, List.append_nil, List.append_assoc]
  rfl

theorem chars_block (widths : Widths) (entry : Text × Diagnosis) :
    (block widths entry.1 entry.2).chars = plainBlock widths entry := by
  simp only [block, Styled.chars_append, Styled.chars_joinLines, chars_lines]
  rfl

def footerStyle : Severity → Style
  | .error => .red
  | .warning => .yellow
  | .info | .hint => .cyan

/-- The footer by severities, from the least one up. -/
theorem footer_eq (t : Totals) :
    footer t = (rising.filter fun s => 0 < t.count s).map fun s =>
      .ofText (counted (t.count s) s.text) (some (footerStyle s)) := by
  let word : Severity → String
    | .error => "error"
    | .warning => "warning"
    | .info => "info"
    | .hint => "hint"
  have hword : ∀ s, Text.ofString (word s) = s.text := by
    intro s
    cases s <;> rfl
  show ((rising.map fun s => (t.count s, word s, footerStyle s)).filter (0 < ·.1)).map _ = _
  rw [List.filter_map, List.map_map]
  exact List.map_congr_left fun s _ => by rw [Function.comp_apply, hword]

theorem chars_footer (t : Totals) : (footer t).map Styled.chars = plainFooter t.count := by
  rw [footer_eq, List.map_map]
  exact List.map_congr_left fun s _ =>
    Styled.chars_ofText (isPlain_counted _ (by cases s <;> decide)) _

variable {results : List (Text × Diagnosis)}

theorem chars_render (h : (Totals.ofResults results).total ≠ 0) :
    (render results).chars =
      ("\n" : Text) ++ Text.joined "\n" ((worstFirst (results.map sorted)).map
          (plainBlock (widthsOf ((results.map sorted).map (·.2))))) ++ "\n" ++
        Text.joined "\n" (plainFooter (Totals.ofResults results).count) := by
  rw [render]
  simp only [Totals.ofResults_inLineOrder, if_neg h, Styled.chars_followedBy, Styled.chars_append,
    Styled.chars_joinLines, chars_footer, List.map_map, Function.comp_def, chars_block, sorted]
  rfl

/-! ### The report -/

/-- A block stands for a file: it has the messages of the file, each once and those of each severity
in the order of their lines. -/
structure Arranges (entry block : Text × Diagnosis) : Prop where
  file : block.1 = entry.1
  once : ∀ s, (block.2.bucket s).Perm (entry.2.bucket s)
  ascending : ∀ s, (block.2.bucket s).Pairwise fun m n => m.line ≤ n.line
  stable : ∀ s (line : Int),
    (block.2.bucket s).filter (·.line = line) = (entry.2.bucket s).filter (·.line = line)

theorem arranges_sorted (entry : Text × Diagnosis) : Arranges entry (sorted entry) where
  file := rfl
  once s := by
    rw [sorted, Diagnosis.bucket_inLineOrder]
    exact Diagnosis.messagesInLineOrder_perm _
  ascending s := by
    rw [sorted, Diagnosis.bucket_inLineOrder]
    exact (Diagnosis.messagesInLineOrder_isStableSort _).inOrder
  stable s line := by
    rw [sorted, Diagnosis.bucket_inLineOrder]
    exact (Diagnosis.messagesInLineOrder_isStableSort _).stable line

/-- The total of a run is the sum of those of its files. -/
theorem total_ofResults (results : List (Text × Diagnosis)) :
    (Totals.ofResults results).total = (results.map (·.2.total)).sum := by
  have htotal : ∀ r : Diagnosis, r.total = (rising.map fun s => (r.bucket s).length).sum := by
    intro r
    simp only [Diagnosis.total, rising, Diagnosis.bucket, List.map_cons, List.map_nil, List.sum_cons,
      List.sum_nil]
    omega
  have hcounts : (Totals.ofResults results).total =
      (rising.map fun s => (results.flatMap fun entry => entry.2.bucket s).length).sum := by
    simp only [← Totals.count_ofResults, Totals.total, rising, Totals.count, List.map_cons, List.map_nil,
      List.sum_cons, List.sum_nil]
    omega
  rw [hcounts]
  simp only [htotal, List.length_flatMap, rising, List.map_cons, List.map_nil, List.sum_cons,
    List.sum_nil, List.sum_map_add, Nat.add_zero]

/-- What the characters of a report owe the files of a run: they are those of its blocks, one for each
file, and behind them of the numbers of lines in all blocks. -/
structure Shows (results arranged blocks : List (Text × Diagnosis)) (chars : Text) : Prop where
  eachArranged : List.Forall₂ Arranges results arranged
  oneBlockEach : blocks.Perm arranged
  text : chars =
    ("\n" : Text) ++
      Text.joined "\n" (blocks.map (plainBlock (widthsOf (arranged.map (·.2))))) ++ "\n" ++
      Text.joined "\n" (plainFooter fun s =>
        (blocks.flatMap fun block => plainRow (widthsOf (arranged.map (·.2))) block.2 s).length)
  /-- No message is left out, and none stands in two lines. -/
  once : ∀ s, (blocks.flatMap fun block => block.2.bucket s).Perm
    (results.flatMap fun entry => entry.2.bucket s)

/-- **A report lists all that was found.** Of messages that are texts a report can be made, and it is
empty exactly when there are none. Otherwise it has one block for each file and under its name one line
for each message, the least severity first, and at the end the numbers of these lines that are not
zero. -/
theorem make_lists_all
    (h : ∀ entry ∈ results, ∀ s, ∀ m ∈ entry.2.bucket s, m.message.IsText) :
    ∃ t, make results = .ok t ∧
      (t.chars = [] ↔ (results.map (·.2.total)).sum = 0) ∧
      ((results.map (·.2.total)).sum ≠ 0 →
        ∃ arranged blocks, Shows results arranged blocks t.chars) := by
  refine ⟨render results, make_of_isText h, ?_, fun hsome => ?_⟩
  · rw [chars_render_eq_nil, total_ofResults]
  have hblocks : (worstFirst (results.map sorted)).Perm (results.map sorted) := worstFirst_perm _
  have honce : ∀ s, ((worstFirst (results.map sorted)).flatMap fun block => block.2.bucket s).Perm
      (results.flatMap fun entry => entry.2.bucket s) := by
    intro s
    refine (hblocks.flatMap_right _).trans ?_
    rw [List.flatMap_map]
    exact List.Perm.flatMap_left results fun entry _ => (arranges_sorted entry).once s
  refine ⟨results.map sorted, worstFirst (results.map sorted), ?_, hblocks, ?_, honce⟩
  · rw [List.forall₂_map_right_iff, List.forall₂_same]
    exact fun entry _ => arranges_sorted entry
  · rw [← total_ofResults] at hsome
    have hnumbers : (Totals.ofResults results).count = fun s =>
        ((worstFirst (results.map sorted)).flatMap fun block =>
          plainRow (widthsOf ((results.map sorted).map (·.2))) block.2 s).length := by
      funext s
      rw [Totals.count_ofResults, ← (honce s).length_eq]
      simp only [plainRow, List.length_flatMap, List.length_map]
    rw [chars_render hsome, hnumbers]

/-- A file with an error behind a hint, and one in which nothing was found. -/
def sampleResults : List (Text × Diagnosis) :=
  [("clean.yaml", { version := "3.0.0" }),
   ("odd.yaml", {
      version := "2.0"
      errors := [⟨[], .str "odd", "rule", 7⟩]
      hints := [⟨[], .str "strange", "other", 2⟩] })]

theorem isText_sampleResults :
    ∀ entry ∈ sampleResults, ∀ s, ∀ m ∈ entry.2.bucket s, m.message.IsText := by
  intro entry hentry s m hm
  simp only [sampleResults, List.mem_cons, List.not_mem_nil, or_false] at hentry
  rcases hentry with rfl | rfl <;> cases s <;> simp [Diagnosis.bucket] at hm <;> subst hm
  · exact ⟨_, rfl⟩
  · exact ⟨_, rfl⟩

theorem make_lists_all_sample :
    (∀ entry ∈ sampleResults, ∀ s, ∀ m ∈ entry.2.bucket s, m.message.IsText) ∧
      ∃ t, make sampleResults = .ok t ∧ t.chars ≠ [] := by
  obtain ⟨t, ht, hempty, -⟩ := make_lists_all isText_sampleResults
  exact ⟨isText_sampleResults, t, ht, fun hnil => absurd (hempty.mp hnil) (by decide)⟩

end Report

end ApiLint
