import ApiLint.Proofs.Report.Completeness
import Mathlib.Data.Set.Insert
import Mathlib.Order.Bounds.Defs
import Mathlib.Order.MinMax

/-! The columns of a report. Numbers of lines end in one column over the whole report, and behind the
messages of errors and warnings the rules start in one column: each line is filled up to the widest of
its kind (`make_aligns`). An info or a hint that is wider than that moves its own rule and no other. -/
namespace ApiLint

/-! ### Widths of texts -/

namespace Text

theorem columnsAfter_cons {c : CodePoint} (last : Option CodePoint) (t : Text)
    (hjoiner : c ≠ .char joiner) (hselector : c ≠ .char emojiSelector) :
    columnsAfter last (c :: t) =
      columnsAfter (if columns c = 0 then last else some c) t + columns c := by
  rw [columnsAfter.eq_def]
  simp only [if_neg hjoiner, if_neg hselector]

theorem columnsAfter_spaces (n : Nat) (last : Option CodePoint) : columnsAfter last (spaces n) = n := by
  induction n generalizing last with
  | zero => rfl
  | succ n ih =>
    have hone : columns (.char ' ') = 1 := by decide
    rw [spaces, List.replicate_succ, columnsAfter_cons _ _ (by decide) (by decide), hone]
    exact congrArg (· + 1) (ih _)

/-- A row of spaces is as wide as it is long. -/
theorem cellWidth_spaces (n : Nat) : cellWidth (spaces n) = n :=
  columnsAfter_spaces n none

theorem of_isStripped {c : CodePoint} (h : c.isA Styled.isStripped = true) :
    columns c = 0 ∧ c ≠ .char emojiSelector := by
  cases c with
  | half offset => cases h
  | char d =>
    simp only [CodePoint.isA, Styled.isStripped, Bool.or_eq_true, decide_eq_true_eq] at h
    obtain (((rfl | rfl) | rfl) | rfl) | rfl := h <;> decide

/-- Characters that have no place in a report take up no column either. -/
theorem columnsAfter_kept {t : Text} (h : .char joiner ∉ t) (last : Option CodePoint) :
    columnsAfter last t.kept = columnsAfter last t := by
  induction t generalizing last with
  | nil => rfl
  | cons c t ih =>
    obtain ⟨hjoiner, ht⟩ := List.ne_and_not_mem_of_not_mem_cons h
    by_cases hstripped : c.isA Styled.isStripped = true
    · obtain ⟨hzero, hselector⟩ := of_isStripped hstripped
      rw [kept, List.filter_cons_of_neg (by simp [hstripped]),
        columnsAfter_cons last t hjoiner.symm hselector, hzero, if_pos rfl]
      exact ih ht last
    · rw [kept, List.filter_cons_of_pos (by simpa using hstripped)]
      by_cases hselector : c = .char emojiSelector
      · subst hselector
        rw [columnsAfter.eq_def, columnsAfter.eq_def last (_ :: t)]
        simp only [if_neg hjoiner.symm, if_true]
        exact congrArg (· + _) (ih ht none)
      · rw [columnsAfter_cons last _ hjoiner.symm hselector,
          columnsAfter_cons last t hjoiner.symm hselector]
        exact congrArg (· + _) (ih ht _)

/-- Where no joiner hides the next character, what has no place in a report has no width. -/
theorem cellWidth_kept {t : Text} (h : .char joiner ∉ t) : cellWidth t.kept = cellWidth t :=
  columnsAfter_kept h none

end Text

/-- A running maximum is the greatest of all numbers that it has met. -/
theorem isGreatest_foldl_max (ns : List Nat) (n : Nat) :
    IsGreatest {k | k = n ∨ k ∈ ns} (ns.foldl max n) := by
  induction ns generalizing n with
  | nil => exact ⟨.inl rfl, fun k hk => le_of_eq (hk.resolve_right List.not_mem_nil)⟩
  | cons m ns ih =>
    obtain ⟨hmem, hupper⟩ := ih (max n m)
    have hboth : n ≤ ns.foldl max (max n m) ∧ m ≤ ns.foldl max (max n m) :=
      max_le_iff.mp (hupper (.inl rfl))
    refine ⟨?_, ?_⟩
    · obtain heq | hns := hmem
      · rw [List.foldl_cons, heq]
        obtain hmax | hmax := max_choice n m
        · exact .inl hmax
        · exact .inr (List.mem_cons.mpr (.inl hmax))
      · exact .inr (List.mem_cons_of_mem m hns)
    · rintro k (rfl | hk)
      · exact hboth.1
      · obtain rfl | hk := List.mem_cons.mp hk
        · exact hboth.2
        · exact hupper (.inr hk)

namespace Report

theorem isGreatest_widest (texts : List Text) :
    IsGreatest (insert 0 {n | ∃ t ∈ texts, Text.cellWidth t = n}) (widest texts) := by
  have hset : (insert 0 {n | ∃ t ∈ texts, Text.cellWidth t = n} : Set Nat) =
      {k | k = 0 ∨ k ∈ texts.map Text.cellWidth} := by
    ext k
    simp only [Set.mem_insert_iff, Set.mem_ofPred_eq, List.mem_map]
  rw [hset]
  exact isGreatest_foldl_max _ 0

/-! ### The widest of their kind -/

/-- Whether the messages of a severity widen the column of messages. -/
def widens : Severity → Bool
  | .error | .warning => true
  | .info | .hint => false

/-- The widths of a text for each message of some severities. -/
def widthsIn (results : List (Text × Diagnosis)) (among : Severity → Bool) (text : Message → Text) :
    Set Nat :=
  {n | ∃ entry ∈ results, ∃ s, among s = true ∧ ∃ m ∈ entry.2.bucket s,
    Text.cellWidth (text m) = n}

/-- The widths of the numbers of lines, in all messages. -/
def numberWidths (results : List (Text × Diagnosis)) : Set Nat :=
  widthsIn results (fun _ => true) lineNumber

/-- The widths of the messages of errors and warnings. -/
def wordWidths (results : List (Text × Diagnosis)) : Set Nat :=
  widthsIn results widens words

variable {results : List (Text × Diagnosis)}

theorem mem_bucket_sorted {entry : Text × Diagnosis} {s : Severity} {m : Message} :
    m ∈ (sorted entry).2.bucket s ↔ m ∈ entry.2.bucket s :=
  ((arranges_sorted entry).once s).mem_iff

/-- The widest text of some messages is as wide as the widest for the severities that they have. -/
theorem isGreatest_widest_sorted {pick : Diagnosis → List Message} {among : Severity → Bool}
    (hpick : ∀ r m, m ∈ pick r ↔ ∃ s, among s = true ∧ m ∈ r.bucket s) (text : Message → Text) :
    IsGreatest (insert 0 (widthsIn results among text))
      (widest (((results.map sorted).map (·.2)).flatMap fun r => (pick r).map text)) := by
  have hset : widthsIn results among text =
      {n | ∃ t ∈ ((results.map sorted).map (·.2)).flatMap fun r => (pick r).map text,
        Text.cellWidth t = n} := by
    ext n
    simp only [widthsIn, Set.mem_ofPred_eq, List.mem_flatMap, List.mem_map]
    constructor
    · rintro ⟨entry, hentry, s, hs, m, hm, rfl⟩
      exact ⟨_, ⟨_, ⟨_, ⟨entry, hentry, rfl⟩, rfl⟩, m,
        (hpick _ m).mpr ⟨s, hs, mem_bucket_sorted.mpr hm⟩, rfl⟩, rfl⟩
    · rintro ⟨_, ⟨_, ⟨_, ⟨entry, hentry, rfl⟩, rfl⟩, m, hm, rfl⟩, rfl⟩
      obtain ⟨s, hs, hm⟩ := (hpick _ m).mp hm
      exact ⟨entry, hentry, s, hs, m, mem_bucket_sorted.mp hm, rfl⟩
  rw [hset]
  exact isGreatest_widest _

/-- The column of numbers is as wide as the widest of them, and no wider. -/
theorem isGreatest_line :
    IsGreatest (insert 0 (numberWidths results))
      (widthsOf ((results.map sorted).map (·.2))).line := by
  refine isGreatest_widest_sorted (fun r m => ?_) lineNumber
  simp only [List.mem_append, true_and]
  constructor
  · rintro (((h | h) | h) | h)
    exacts [⟨.error, h⟩, ⟨.warning, h⟩, ⟨.info, h⟩, ⟨.hint, h⟩]
  · rintro ⟨s, h⟩
    cases s with
    | error => exact .inl (.inl (.inl h))
    | warning => exact .inl (.inl (.inr h))
    | info => exact .inl (.inr h)
    | hint => exact .inr h

/-- The column of messages is as wide as the widest error or warning, and no wider. -/
theorem isGreatest_message :
    IsGreatest (insert 0 (wordWidths results))
      (widthsOf ((results.map sorted).map (·.2))).message := by
  refine isGreatest_widest_sorted (fun r m => ?_) words
  rw [List.mem_append]
  constructor
  · rintro (h | h)
    exacts [⟨.error, rfl, h⟩, ⟨.warning, rfl, h⟩]
  · rintro ⟨s, hs, h⟩
    cases s with
    | error => exact .inl h
    | warning => exact .inr h
    | _ => cases hs

theorem exists_message (hsome : (results.map (·.2.total)).sum ≠ 0) :
    ∃ entry ∈ results, ∃ s, ∃ m, m ∈ entry.2.bucket s := by
  rw [← total_ofResults, Ne, Totals.total_eq_zero, not_forall] at hsome
  obtain ⟨s, hs⟩ := hsome
  rw [Totals.count_eq_zero] at hs
  push Not at hs
  obtain ⟨entry, hentry, hbucket⟩ := hs
  exact ⟨entry, hentry, s, List.exists_mem_of_ne_nil _ hbucket⟩

/-- Where there are messages, the widest number is that of one of them. -/
theorem isGreatest_numberWidths {n : Nat} (hsome : (results.map (·.2.total)).sum ≠ 0)
    (h : IsGreatest (insert 0 (numberWidths results)) n) : IsGreatest (numberWidths results) n := by
  refine ⟨?_, fun k hk => h.2 (Set.mem_insert_of_mem 0 hk)⟩
  obtain rfl | hmem := h.1
  · obtain ⟨entry, hentry, s, m, hm⟩ := exists_message hsome
    have hwidth : Text.cellWidth (lineNumber m) ∈ numberWidths results :=
      ⟨entry, hentry, s, rfl, m, hm, rfl⟩
    rwa [Nat.le_zero.mp (h.2 (Set.mem_insert_of_mem 0 hwidth))] at hwidth
  · exact hmem

/-! ### Lines -/

/-- What stands in the line for a message in front of the rule: `left` spaces fill up the number of the
line, and `right` spaces the message. -/
def front (s : Severity) (m : Message) (left right : Nat) : List Text :=
  [(signOf s).text, " ", Text.spaces left, lineNumber m, " ", words m, Text.spaces right, " "]

def filledLine (s : Severity) (m : Message) (left right : Nat) : Text :=
  (front s m left right ++ [m.rule]).flatMap Text.kept

/-- The text of a report whose lines are given for each message. -/
def textOf (line : Severity → Message → Text) (blocks : List (Text × Diagnosis))
    (number : Severity → Nat) : Text :=
  ("\n" : Text) ++ Text.joined "\n" (blocks.map fun entry => entry.1.kept ++ ("\n" : Text) ++
      Text.joined "\n" (rising.flatMap fun s => (entry.2.bucket s).map (line s)) ++ ("\n" : Text)) ++
    ("\n" : Text) ++ Text.joined "\n" (plainFooter number)

/-- The line for a message is filled up to columns of the widths `L` and `M`. -/
structure Aligned (L M : Nat) (s : Severity) (m : Message) (left right : Nat) : Prop where
  number : (left : Int) = L - Text.cellWidth (lineNumber m)
  message : (right : Int) = if widens s then (M : Int) - Text.cellWidth (words m)
    else max 0 ((M : Int) - Text.cellWidth (words m))
  /-- What stands in front of the rule is as wide in each line for an error or a warning. -/
  column : ((front s m left right).map Text.cellWidth).sum =
    L + (if widens s then M else max M (Text.cellWidth (words m))) + 4
  /-- Unless a joiner hides the next character, what is left out of a message has no width. -/
  shown : .char Text.joiner ∉ words m →
    ((front s m left right).map fun t => Text.cellWidth t.kept) =
      (front s m left right).map Text.cellWidth

theorem kept_of_isPlain {t : Text} (h : ∀ c ∈ t, Text.isPlain c = true) : t.kept = t :=
  Styled.chars_ofText h none

theorem plainLine_eq (L M : Nat) (s : Severity) (m : Message) :
    plainLine ⟨L, M⟩ (signOf s) m =
      filledLine s m (L - Text.cellWidth (lineNumber m)) (M - Text.cellWidth (words m)) := by
  have hspace : ∀ c ∈ (" " : Text), Text.isPlain c = true := by decide
  simp only [plainLine, filledLine, front, padding, lineNumber, List.cons_append, List.nil_append,
    List.flatMap_cons, List.flatMap_nil, List.append_nil, List.append_assoc,
    kept_of_isPlain (isPlain_sign _), kept_of_isPlain hspace, kept_of_isPlain (Text.isPlain_spaces _),
    kept_of_isPlain (Text.isPlain_int m.line)]

set_option maxRecDepth 4000 in
theorem cellWidth_sign (s : Severity) : Text.cellWidth (signOf s).text = 1 := by
  cases s <;> decide

/-- Padding up to a column that is wide enough ends the texts in that column. -/
theorem aligned {L M : Nat} {s : Severity} {m : Message}
    (hL : Text.cellWidth (lineNumber m) ≤ L)
    (hM : widens s = true → Text.cellWidth (words m) ≤ M) :
    Aligned L M s m (L - Text.cellWidth (lineNumber m)) (M - Text.cellWidth (words m)) where
  number := by omega
  message := by
    split
    · next hs =>
      have := hM hs
      omega
    · omega
  column := by
    have hspace : Text.cellWidth " " = 1 := by decide
    simp only [front, List.map_cons, List.map_nil, List.sum_cons, List.sum_nil, cellWidth_sign, hspace,
      Text.cellWidth_spaces]
    split
    · next hs =>
      have := hM hs
      omega
    · omega
  shown hjoiner := by
    have hspace : ∀ c ∈ (" " : Text), Text.isPlain c = true := by decide
    simp only [front, List.map_cons, List.map_nil, lineNumber, Text.cellWidth_kept hjoiner,
      kept_of_isPlain (isPlain_sign _), kept_of_isPlain hspace,
      kept_of_isPlain (Text.isPlain_spaces _), kept_of_isPlain (Text.isPlain_int m.line)]

/-! ### Infos and hints -/

/-- A result with other messages for its infos and hints. -/
def reworded (f : Message → Value) (entry : Text × Diagnosis) : Text × Diagnosis :=
  (entry.1, { entry.2 with
    infos := entry.2.infos.map fun m => { m with message := f m }
    hints := entry.2.hints.map fun m => { m with message := f m } })

theorem bucket_reworded (f : Message → Value) (entry : Text × Diagnosis) (s : Severity) :
    (reworded f entry).2.bucket s = (entry.2.bucket s).map fun m =>
      if widens s = true then m else { m with message := f m } := by
  cases s <;> simp [reworded, Diagnosis.bucket, widens]

/-- Texts that are kept have their widths among those of the reworded results. -/
theorem widthsIn_reworded {among : Severity → Bool} {text : Message → Text} {f : Message → Value}
    (h : ∀ s m, among s = true →
      text (if widens s = true then m else { m with message := f m }) = text m) :
    widthsIn (results.map (reworded f)) among text = widthsIn results among text := by
  ext n
  simp only [widthsIn, Set.mem_ofPred_eq]
  constructor
  · rintro ⟨_, hreworded, s, hs, _, hm, rfl⟩
    obtain ⟨entry, hentry, rfl⟩ := List.mem_map.mp hreworded
    rw [bucket_reworded] at hm
    obtain ⟨m, hkept, rfl⟩ := List.mem_map.mp hm
    exact ⟨entry, hentry, s, hs, m, hkept, by rw [h s m hs]⟩
  · rintro ⟨entry, hentry, s, hs, m, hm, rfl⟩
    refine ⟨_, List.mem_map_of_mem hentry, s, hs, _, ?_, by rw [h s m hs]⟩
    rw [bucket_reworded]
    exact List.mem_map_of_mem hm

/-- **The columns of a report.** A report of messages that are texts is filled up to the widest number
of a line, `L`, and to the widest message of an error or a warning, `M`. Nothing is wider than its column
but the message of an info or a hint, so the rules of errors and warnings all start in one column. Other
messages for infos and hints leave both widths as they are. -/
theorem make_aligns (h : ∀ entry ∈ results, ∀ s, ∀ m ∈ entry.2.bucket s, m.message.IsText)
    (hsome : (results.map (·.2.total)).sum ≠ 0) :
    ∃ (t : Styled) (L M : Nat) (left right : Message → Nat), make results = .ok t ∧
      IsGreatest (numberWidths results) L ∧ IsGreatest (insert 0 (wordWidths results)) M ∧
      t.chars = textOf (fun s m => filledLine s m (left m) (right m))
        (worstFirst (results.map sorted)) (Totals.ofResults results).count ∧
      (∀ entry ∈ results, ∀ s, ∀ m ∈ entry.2.bucket s, Aligned L M s m (left m) (right m)) ∧
      ∀ f, numberWidths (results.map (reworded f)) = numberWidths results ∧
        wordWidths (results.map (reworded f)) = wordWidths results := by
  have hL : IsGreatest (insert 0 (numberWidths results))
      (widthsOf ((results.map sorted).map (·.2))).line := isGreatest_line
  have hM : IsGreatest (insert 0 (wordWidths results))
      (widthsOf ((results.map sorted).map (·.2))).message := isGreatest_message
  generalize hwidths : widthsOf ((results.map sorted).map (·.2)) = widths at hL hM
  refine ⟨render results, widths.line, widths.message,
    fun m => widths.line - Text.cellWidth (lineNumber m),
    fun m => widths.message - Text.cellWidth (words m), make_of_isText h,
    isGreatest_numberWidths hsome hL, hM, ?_, fun entry hentry s m hm => ?_, fun f => ⟨?_, ?_⟩⟩
  · rw [← total_ofResults] at hsome
    simp only [← plainLine_eq]
    rw [chars_render hsome, hwidths]
    rfl
  · refine aligned (hL.2 (.inr ⟨entry, hentry, s, rfl, m, hm, rfl⟩)) fun hs => ?_
    exact hM.2 (.inr ⟨entry, hentry, s, hs, m, hm, rfl⟩)
  · refine widthsIn_reworded fun s m _ => ?_
    split <;> rfl
  · refine widthsIn_reworded fun s m hs => ?_
    rw [if_pos hs]

theorem make_aligns_sample :
    (∀ entry ∈ sampleResults, ∀ s, ∀ m ∈ entry.2.bucket s, m.message.IsText) ∧
      (sampleResults.map (·.2.total)).sum ≠ 0 ∧
      ∃ (t : Styled) (L M : Nat), make sampleResults = .ok t ∧
        IsGreatest (numberWidths sampleResults) L ∧
        IsGreatest (insert 0 (wordWidths sampleResults)) M := by
  have hsome : (sampleResults.map (·.2.total)).sum ≠ 0 := by decide
  obtain ⟨t, L, M, left, right, ht, hL, hM, -⟩ := make_aligns isText_sampleResults hsome
  exact ⟨isText_sampleResults, hsome, t, L, M, ht, hL, hM⟩

end Report

end ApiLint
