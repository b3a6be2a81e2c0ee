import ApiLint.Proofs.Report.Completeness

/-! Where a report has which style. A report is held against its parts, one behind the other, and the
style that each part is to have. All styles but one cover exactly the parts that are to have them: signs,
numbers of lines, rules and the lines below the blocks. The one is that of the names of files: since a
block is put together by appending to the name, the style of the name is that of the whole block, and is
underlined from the name up to the line break that ends the block (`make_styles`). -/
namespace ApiLint

/-! ### Pieces of a text -/

/-- A piece of a text, with the style that its characters are to have. -/
structure Piece where
  text : Text
  style : Option Style := none

namespace Piece

/-- A piece with the characters of a text that have a place in a report. -/
def of (t : Text) (style : Option Style := none) : Piece :=
  ⟨t.kept, style⟩

/-- A piece as it is added to others; an empty text is added without its style. -/
def added (t : Text) (style : Option Style := none) : Piece :=
  .of t (if t = [] then none else style)

/-- Rows of pieces with line breaks between them. -/
def joined (rows : List (List Piece)) : List Piece :=
  List.intercalate [of "\n"] rows

def chars (ps : List Piece) : Text :=
  ps.flatMap text

/-- The stretches of the pieces that have a style, from a place on. -/
def stretches (start : Nat) : List Piece → List Span
  | [] => []
  | p :: ps =>
    (p.style.map (Span.mk start (start + p.text.length))).toList ++
      stretches (start + p.text.length) ps

theorem added_none (t : Text) : added t = of t := by
  rw [added, ite_self]

theorem added_of_ne_nil {t : Text} (style : Option Style) (h : t ≠ []) : added t style = of t style := by
  rw [added, if_neg h]

/-- A piece of joined rows belongs to one of them, or is a line break between two. -/
theorem mem_joined {p : Piece} {rows : List (List Piece)} (h : p ∈ joined rows) :
    p = of "\n" ∨ ∃ row ∈ rows, p ∈ row := by
  rw [joined] at h
  match rows with
  | [] => cases h
  | [row] =>
    rw [List.intercalate_singleton] at h
    exact .inr ⟨row, List.mem_singleton_self row, h⟩
  | row :: next :: rows =>
    rw [List.intercalate_cons_cons, List.mem_append, List.mem_append, List.mem_singleton] at h
    obtain (hrow | hbreak) | hrest := h
    · exact .inr ⟨row, List.mem_cons_self, hrow⟩
    · exact .inl hbreak
    · refine (mem_joined hrest).imp_right ?_
      rintro ⟨other, hother, hp⟩
      exact ⟨other, List.mem_cons_of_mem row hother, hp⟩

theorem chars_append (ps qs : List Piece) : chars (ps ++ qs) = chars ps ++ chars qs :=
  List.flatMap_append

theorem stretches_append (start : Nat) (ps qs : List Piece) :
    stretches start (ps ++ qs) = stretches start ps ++ stretches (start + (chars ps).length) qs := by
  induction ps generalizing start with
  | nil => rfl
  | cons p ps ih =>
    simp only [List.cons_append, stretches, ih, chars, List.flatMap_cons, List.length_append,
      List.append_assoc, Nat.add_assoc]

theorem map_shift_stretches (n start : Nat) (ps : List Piece) :
    (stretches start ps).map (Span.shift n) = stretches (start + n) ps := by
  induction ps generalizing start with
  | nil => rfl
  | cons p ps ih =>
    rw [stretches, stretches, List.map_append, ih, Nat.add_right_comm]
    cases p.style with
    | none => rfl
    | some style =>
      simp only [Option.map_some, Option.toList_some, List.map_cons, List.map_nil, Span.shift,
        Nat.add_right_comm]

/-- A stretch has the style of one of the pieces. -/
theorem exists_of_mem_stretches {start : Nat} {ps : List Piece} {span : Span}
    (h : span ∈ stretches start ps) : ∃ p ∈ ps, p.style = some span.style := by
  induction ps generalizing start with
  | nil => cases h
  | cons p ps ih =>
    obtain hp | hps := List.mem_append.mp h
    · obtain ⟨style, hstyle, rfl⟩ := Option.map_eq_some_iff.mp (Option.mem_toList.mp hp)
      exact ⟨p, List.mem_cons_self, hstyle⟩
    · obtain ⟨q, hq, hstyle⟩ := ih hps
      exact ⟨q, List.mem_cons_of_mem p hq, hstyle⟩

end Piece

namespace Styled

variable {keep : Style → Bool} {t u : Styled} {ps qs : List Piece} {ts : List Styled}
  {pss : List (List Piece)}

theorem followedBy_empty (hchars : u.chars = []) (hspans : u.innerSpans = []) : t.followedBy u = t := by
  rw [followedBy, hchars, hspans, List.append_nil, List.map_nil, List.append_nil]

/-- What has no stretches while it is empty is added like anything else. -/
theorem append_eq_followedBy (h : u.chars = [] → u.innerSpans = []) : t ++ u = t.followedBy u := by
  by_cases hnil : u.chars = []
  · rw [append_of_chars_eq_nil hnil, followedBy_empty hnil (h hnil)]
  · exact append_of_chars_ne_nil hnil

/-- Lines that are not empty have no stretches when they are joined to nothing, as there are none. -/
theorem append_joinLines (h : ∀ u ∈ ts, u.chars ≠ []) :
    t ++ joinLines ts = t.followedBy (joinLines ts) := by
  refine append_eq_followedBy fun hnil => ?_
  cases ts with
  | nil => rfl
  | cons u us =>
    have hu := h u List.mem_cons_self
    rw [chars_joinLines, List.map_cons, Text.joined] at hnil
    cases us with
    | nil => exact absurd (List.intercalate_singleton.symm.trans hnil) hu
    | cons v us =>
      rw [List.map_cons, List.intercalate_cons_cons] at hnil
      exact absurd (List.append_eq_nil_iff.mp (List.append_eq_nil_iff.mp hnil).1).1 hu

theorem append_newline : t ++ ofText "\n" = t.followedBy (ofText "\n") :=
  append_of_chars_ne_nil (List.cons_ne_nil _ _)

/-- A text with styles consists of pieces, as far as some of the styles go. -/
structure Consists (keep : Style → Bool) (t : Styled) (ps : List Piece) : Prop where
  chars : t.chars = Piece.chars ps
  spans : t.innerSpans.filter (keep ·.style) = (Piece.stretches 0 ps).filter (keep ·.style)

namespace Consists

theorem empty : Consists keep {} [] :=
  ⟨rfl, rfl⟩

theorem ofText (s : Text) (style : Option Style := none) :
    Consists keep (ofText s style) [.of s style] where
  chars := (List.append_nil _).symm
  spans := by
    rw [innerSpans, Piece.stretches, Nat.zero_add]
    rfl

/-- The stretches of what is added move behind the text. -/
theorem followedBy (ht : Consists keep t ps) (hu : Consists keep u qs) (hwhole : t.whole = none) :
    Consists keep (t.followedBy u) (ps ++ qs) where
  chars := by rw [chars_followedBy, ht.chars, hu.chars, Piece.chars_append]
  spans := by
    have hinner : (t.followedBy u).innerSpans =
        t.innerSpans ++ u.innerSpans.map (Span.shift t.chars.length) := by
      simp only [innerSpans, whole_followedBy, spans_followedBy, hwhole, Option.map_none,
        Option.toList_none, List.nil_append]
    have hshift : (u.innerSpans.map (Span.shift t.chars.length)).filter (keep ·.style) =
        (Piece.stretches (0 + (Piece.chars ps).length) qs).filter (keep ·.style) := by
      rw [← Piece.map_shift_stretches, List.filter_map, List.filter_map, ← ht.chars]
      exact congrArg _ hu.spans
    rw [hinner, Piece.stretches_append, List.filter_append, List.filter_append, ht.spans, hshift]

theorem appendPlain (ht : Consists keep t ps) (hwhole : t.whole = none) (part : Text × Option Style) :
    Consists keep (t.appendPlain part) (ps ++ [.added part.1 part.2]) := by
  by_cases hnil : part.1 = []
  · have hskipped : t.appendPlain part = t.followedBy (.ofText part.1) := by
      rw [Styled.appendPlain, if_pos (List.isEmpty_iff.mpr hnil), hnil]
      exact (followedBy_empty rfl rfl).symm
    rw [hskipped, Piece.added, if_pos hnil]
    exact ht.followedBy (ofText part.1) hwhole
  · rw [Styled.appendPlain, if_neg (mt List.isEmpty_iff.mp hnil), Piece.added_of_ne_nil _ hnil]
    exact ht.followedBy (ofText part.1 part.2) hwhole

/-- A text put together consists of its parts, those without a character without their style. -/
theorem assemble (parts : List (Text × Option Style)) :
    Consists keep (assemble parts) (parts.map fun part => .added part.1 part.2) := by
  have hfold : ∀ {t : Styled} {ps : List Piece}, Consists keep t ps → t.whole = none →
      Consists keep (parts.foldl Styled.appendPlain t)
        (ps ++ parts.map fun part => .added part.1 part.2) := by
    induction parts with
    | nil =>
      intro t ps ht _
      rwa [List.map_nil, List.append_nil]
    | cons part parts ih =>
      intro t ps ht hwhole
      have hkept : (t.appendPlain part).whole = none := by
        rw [Styled.appendPlain]
        split <;> exact hwhole
      have h := ih (ht.appendPlain hwhole part) hkept
      rwa [List.append_assoc] at h
  exact hfold empty rfl

theorem foldl_followedBy (h : List.Forall₂ (Consists keep) ts pss) (ht : Consists keep t ps)
    (hwhole : t.whole = none) : Consists keep (ts.foldl Styled.followedBy t) (ps ++ pss.flatten) := by
  induction h generalizing t ps with
  | nil => rwa [List.flatten_nil, List.append_nil]
  | cons hu _ ih =>
    rw [List.foldl_cons, List.flatten_cons, ← List.append_assoc]
    exact ih (ht.followedBy hu hwhole) hwhole

theorem concat (h : List.Forall₂ (Consists keep) ts pss) :
    Consists keep (concat ts) pss.flatten :=
  foldl_followedBy h empty rfl

/-- Joined texts consist of the pieces of each, with line breaks between them. -/
theorem joinLines (h : List.Forall₂ (Consists keep) ts pss) :
    Consists keep (joinLines ts) (Piece.joined pss) := by
  refine concat ?_
  induction h with
  | nil => exact .nil
  | cons ht h ih =>
    cases h with
    | nil => exact .cons ht .nil
    | cons hu h => exact .cons ht (.cons (ofText "\n") ih)

/-- Pieces that have none of the styles in question are one piece without a style. -/
theorem plain (h : Consists keep t ps)
    (hps : ∀ p ∈ ps, ∀ style, p.style = some style → keep style = false) :
    Consists keep t [⟨Piece.chars ps, none⟩] where
  chars := h.chars.trans (List.append_nil _).symm
  spans := by
    rw [h.spans, List.filter_eq_nil_iff.mpr fun span hspan => ?_]
    · rfl
    · obtain ⟨p, hp, hstyle⟩ := Piece.exists_of_mem_stretches hspan
      rw [hps p hp _ hstyle]
      exact Bool.false_ne_true

end Consists

end Styled

namespace Report

/-! ### The pieces of a report -/

def namePiece (file : Text) : Piece :=
  .of file (some .underline)

def signPiece (s : Severity) : Piece :=
  .of (signOf s).text (some (signOf s).style)

def numberPiece (m : Message) : Piece :=
  .of (lineNumber m) (some .grey)

/-- The rule of a message. One without a name has no style. -/
def rulePiece (m : Message) : Piece :=
  .added m.rule (some .grey)

def countPiece (n : Nat) (s : Severity) : Piece :=
  .of (counted n s.text) (some (footerStyle s))

def linePieces (widths : Widths) (s : Severity) (m : Message) : List Piece :=
  [signPiece s, .of " ", .of (padding widths.line (lineNumber m)), numberPiece m, .of " ",
    .of (words m), .of (padding widths.message (words m)), .of " ", rulePiece m]

/-- The pieces below the name of a file: its lines, and an empty one. -/
def bodyPieces (widths : Widths) (r : Diagnosis) : List Piece :=
  .of "\n" :: (Piece.joined (rising.flatMap fun s => (r.bucket s).map (linePieces widths s)) ++
    [.of "\n"])

def blockPieces (widths : Widths) (entry : Text × Diagnosis) : List Piece :=
  namePiece entry.1 :: bodyPieces widths entry.2

def footerPieces (number : Severity → Nat) : List Piece :=
  Piece.joined ((rising.filter fun s => 0 < number s).map fun s => [countPiece (number s) s])

/-- A report around its blocks. -/
def around (blocks : List (List Piece)) (number : Severity → Nat) : List Piece :=
  .of "\n" :: (Piece.joined blocks ++ .of "\n" :: footerPieces number)

/-- The block for a file as one piece, underlined from end to end. -/
def blockOutline (widths : Widths) (entry : Text × Diagnosis) : List Piece :=
  [⟨Piece.chars (blockPieces widths entry), some .underline⟩]

/-- The pieces of a report, where `pieces` are those of a block. -/
def reportPieces (pieces : Widths → Text × Diagnosis → List Piece)
    (results : List (Text × Diagnosis)) : List Piece :=
  around ((worstFirst (results.map sorted)).map
      (pieces (widthsOf ((results.map sorted).map (·.2)))))
    (Totals.ofResults results).count

variable {keep : Style → Bool} {widths : Widths}

/-! ### What the parts of a report consist of -/

theorem sign_text_ne_nil (sign : Sign) : sign.text ≠ [] := by
  cases sign <;> decide

theorem lineNumber_ne_nil (m : Message) : lineNumber m ≠ [] := by
  have hdigits : ∀ n : Nat, (toString n).toList ≠ [] := fun n => by
    rw [Nat.toString_eq_repr, Nat.toList_repr]
    exact Nat.toDigits_ne_nil
  refine mt List.map_eq_nil_iff.mp ?_
  cases m.line with
  | ofNat n => exact hdigits n
  | negSucc n =>
    show ("-" ++ toString (n + 1)).toList ≠ []
    rw [String.toList_append]
    exact List.append_ne_nil_of_right_ne_nil _ (hdigits (n + 1))

theorem consists_line (widths : Widths) (s : Severity) (m : Message) :
    Styled.Consists keep (line widths (signOf s) m) (linePieces widths s m) := by
  have hpieces : linePieces widths s m =
      [.added (signOf s).text (some (signOf s).style), .added " ",
        .added (padding widths.line (lineNumber m)), .added (lineNumber m) (some .grey), .added " ",
        .added (words m), .added (padding widths.message (words m)), .added " ",
        .added m.rule (some .grey)] := by
    simp only [linePieces, signPiece, numberPiece, rulePiece, Piece.added_none,
      Piece.added_of_ne_nil _ (sign_text_ne_nil _), Piece.added_of_ne_nil _ (lineNumber_ne_nil m)]
  rw [hpieces]
  exact .assemble _

theorem lines_eq (widths : Widths) (r : Diagnosis) :
    lines widths r = rising.flatMap fun s => (r.bucket s).map (line widths (signOf s)) := by
  simp only [lines, rising, List.flatMap_cons, List.flatMap_nil, List.append_nil, List.append_assoc]
  rfl

theorem consists_lines (widths : Widths) (r : Diagnosis) :
    List.Forall₂ (Styled.Consists keep) (lines widths r)
      (rising.flatMap fun s => (r.bucket s).map (linePieces widths s)) := by
  rw [lines_eq]
  refine List.rel_flatMap (List.forall₂_same.mpr fun s _ => rfl) ?_
  rintro s _ rfl
  rw [List.forall₂_map_left_iff, List.forall₂_map_right_iff, List.forall₂_same]
  exact fun m _ => consists_line widths s m

/-- The block below the name of a file. -/
def underName (widths : Widths) (r : Diagnosis) (name : Styled) : Styled :=
  ((name.followedBy (.ofText "\n")).followedBy (.joinLines (lines widths r))).followedBy (.ofText "\n")

theorem block_eq (widths : Widths) (file : Text) (r : Diagnosis) :
    block widths file r = underName widths r (.ofText file (some .underline)) := by
  have hlines : ∀ u ∈ lines widths r, u.chars ≠ [] := by
    intro u hu
    rw [lines_eq] at hu
    obtain ⟨s, -, hu⟩ := List.mem_flatMap.mp hu
    obtain ⟨m, -, rfl⟩ := List.mem_map.mp hu
    rw [chars_line, plainLine]
    simp [sign_text_ne_nil]
  rw [block, Styled.append_newline, Styled.append_newline, Styled.append_joinLines hlines, underName]

theorem consists_underName (widths : Widths) (entry : Text × Diagnosis) :
    Styled.Consists keep (underName widths entry.2 (.ofText entry.1))
      (.of entry.1 :: bodyPieces widths entry.2) :=
  (((Styled.Consists.ofText entry.1).followedBy (.ofText "\n") rfl).followedBy
    (.joinLines (consists_lines widths entry.2)) rfl).followedBy (.ofText "\n") rfl

theorem chars_eq_blockPieces (widths : Widths) (entry : Text × Diagnosis) :
    (block widths entry.1 entry.2).chars = Piece.chars (blockPieces widths entry) := by
  rw [block_eq]
  exact (consists_underName widths entry : Styled.Consists (fun _ => true) _ _).chars

/-- The style of the name reaches over the whole block. -/
theorem innerSpans_block (widths : Widths) (entry : Text × Diagnosis) :
    (block widths entry.1 entry.2).innerSpans =
      Span.mk 0 (Piece.chars (blockPieces widths entry)).length .underline ::
        (underName widths entry.2 (.ofText entry.1)).innerSpans := by
  rw [← chars_eq_blockPieces, block_eq]
  rfl

/-- Below the name of a file nothing is underlined. -/
theorem style_ne_underline (widths : Widths) (r : Diagnosis) :
    ∀ p ∈ bodyPieces widths r, p.style ≠ some .underline := by
  have hline : ∀ s m, ∀ p ∈ linePieces widths s m, p.style ≠ some .underline := by
    intro s m
    have hrule : (rulePiece m).style ≠ some .underline := by
      rw [rulePiece, Piece.added]
      split <;> exact nofun
    cases s <;> simp [linePieces, signPiece, numberPiece, Piece.of, signOf, Sign.style, hrule]
  intro p hp
  rw [bodyPieces, List.mem_cons, List.mem_append, List.mem_singleton] at hp
  obtain rfl | hjoined | rfl := hp
  · exact nofun
  · obtain rfl | ⟨row, hrow, hp⟩ := Piece.mem_joined hjoined
    · exact nofun
    · obtain ⟨s, -, hrow⟩ := List.mem_flatMap.mp hrow
      obtain ⟨m, -, rfl⟩ := List.mem_map.mp hrow
      exact hline s m p hp
  · exact nofun

/-- In all styles but that of its name, a block has its pieces. -/
theorem consists_block (hkeep : keep .underline = false) (widths : Widths)
    (entry : Text × Diagnosis) :
    Styled.Consists keep (block widths entry.1 entry.2) (blockPieces widths entry) where
  chars := chars_eq_blockPieces widths entry
  spans := by
    have hdrop : ∀ start stop spans,
        (Span.mk start stop .underline :: spans).filter (keep ·.style) =
          spans.filter (keep ·.style) :=
      fun start stop spans => List.filter_cons_of_neg (by simp [hkeep])
    rw [innerSpans_block, hdrop, (consists_underName widths entry).spans]
    exact (hdrop _ _ _).symm

/-- In the style of its name, a block is one piece. -/
theorem consists_blockOutline (hkeep : ∀ style, keep style = true ↔ style = .underline)
    (widths : Widths) (entry : Text × Diagnosis) :
    Styled.Consists keep (block widths entry.1 entry.2) (blockOutline widths entry) where
  chars := (chars_eq_blockPieces widths entry).trans (List.append_nil _).symm
  spans := by
    have hnone : ∀ p ∈ Piece.of entry.1 :: bodyPieces widths entry.2, ∀ style,
        p.style = some style → keep style = false := by
      intro p hp style hstyle
      rw [Bool.eq_false_iff, Ne, hkeep]
      rintro rfl
      obtain rfl | hbody := List.mem_cons.mp hp
      · cases hstyle
      · exact style_ne_underline widths entry.2 p hbody hstyle
    have hkept : ∀ start stop spans,
        (Span.mk start stop .underline :: spans).filter (keep ·.style) =
          Span.mk start stop .underline :: spans.filter (keep ·.style) :=
      fun start stop spans => List.filter_cons_of_pos ((hkeep _).mpr rfl)
    have hrest : (underName widths entry.2 (.ofText entry.1)).innerSpans.filter (keep ·.style) = [] :=
      ((consists_underName widths entry).plain hnone).spans
    rw [innerSpans_block, hkept, hrest]
    show _ = (Span.mk 0 (0 + _) .underline :: []).filter (keep ·.style)
    rw [hkept, Nat.zero_add]
    rfl

theorem consists_footer (number : Severity → Nat) :
    List.Forall₂ (Styled.Consists keep)
      ((rising.filter fun s => 0 < number s).map fun s =>
        .ofText (counted (number s) s.text) (some (footerStyle s)))
      ((rising.filter fun s => 0 < number s).map fun s => [countPiece (number s) s]) := by
  rw [List.forall₂_map_left_iff, List.forall₂_map_right_iff, List.forall₂_same]
  exact fun s _ => .ofText _ _

variable {results : List (Text × Diagnosis)}

/-- How a report is put together. None of its parts is empty that has a style. -/
theorem render_eq (hsome : (Totals.ofResults results).total ≠ 0) : render results =
    (((Styled.ofText "\n").followedBy (.joinLines ((worstFirst (results.map sorted)).map fun entry =>
      block (widthsOf ((results.map sorted).map (·.2))) entry.1 entry.2))).followedBy
        (.ofText "\n")).followedBy (.joinLines (footer (Totals.ofResults results))) := by
  have hblock : ∀ widths (entries : List (Text × Diagnosis)),
      ∀ u ∈ entries.map fun entry => block widths entry.1 entry.2, u.chars ≠ [] := by
    intro widths entries u hu
    obtain ⟨entry, -, rfl⟩ := List.mem_map.mp hu
    rw [chars_block, plainBlock]
    exact List.append_ne_nil_of_right_ne_nil _ (List.cons_ne_nil _ _)
  rw [render]
  simp only [Totals.ofResults_inLineOrder, if_neg hsome]
  rw [Styled.append_newline, Styled.append_joinLines (hblock _ _)]
  rfl

/-- A report consists of the pieces of its blocks and of what stands around them. -/
theorem consists_render {pieces : Widths → Text × Diagnosis → List Piece}
    (h : ∀ widths entry, Styled.Consists keep (block widths entry.1 entry.2) (pieces widths entry))
    (hsome : (Totals.ofResults results).total ≠ 0) :
    Styled.Consists keep (render results) (reportPieces pieces results) := by
  have hblocks : ∀ widths (entries : List (Text × Diagnosis)),
      Styled.Consists keep (.joinLines (entries.map fun entry => block widths entry.1 entry.2))
        (Piece.joined (entries.map (pieces widths))) := by
    intro widths entries
    refine .joinLines ?_
    rw [List.forall₂_map_left_iff, List.forall₂_map_right_iff, List.forall₂_same]
    exact fun entry _ => h widths entry
  have hrender := (((Styled.Consists.ofText "\n").followedBy
    (hblocks (widthsOf ((results.map sorted).map (·.2))) (worstFirst (results.map sorted)))
      rfl).followedBy (.ofText "\n") rfl).followedBy
    (.joinLines (consists_footer (Totals.ofResults results).count)) rfl
  rw [render_eq hsome, footer_eq]
  rw [List.append_assoc] at hrender
  exact hrender

/-- **What a report has in which style.** A report consists of its pieces. In every style but one, its
stretches are exactly those of the pieces that are to have the style: one for each sign, each number of a
line, each rule that has a name and each line below the blocks, and no others. What is underlined are the
blocks, one stretch for each from the start of the file's name to the line break at its end, and not the
names alone. -/
theorem make_styles (h : ∀ entry ∈ results, ∀ s, ∀ m ∈ entry.2.bucket s, m.message.IsText)
    (hsome : (results.map (·.2.total)).sum ≠ 0) :
    ∃ t, make results = .ok t ∧ t.whole = none ∧
      t.chars = Piece.chars (reportPieces blockPieces results) ∧
      t.chars = Piece.chars (reportPieces blockOutline results) ∧
      t.spans.filter (·.style ≠ .underline) =
        (Piece.stretches 0 (reportPieces blockPieces results)).filter (·.style ≠ .underline) ∧
      t.spans.filter (·.style = .underline) =
        (Piece.stretches 0 (reportPieces blockOutline results)).filter (·.style = .underline) := by
  rw [← total_ofResults] at hsome
  have hwhole : (render results).whole = none := by
    rw [render_eq hsome]
    rfl
  have hinner : (render results).innerSpans = (render results).spans := by
    rw [Styled.innerSpans, hwhole]
    rfl
  have hpieces : Styled.Consists (· ≠ .underline) (render results)
      (reportPieces blockPieces results) := consists_render (consists_block (by decide)) hsome
  have houtline : Styled.Consists (· = .underline) (render results)
      (reportPieces blockOutline results) :=
    consists_render (consists_blockOutline fun _ => decide_eq_true_iff) hsome
  refine ⟨render results, make_of_isText h, hwhole, hpieces.chars, houtline.chars, ?_, ?_⟩
  · rw [← hinner]
    exact hpieces.spans
  · rw [← hinner]
    exact houtline.spans

theorem make_styles_sample :
    (sampleResults.map (·.2.total)).sum ≠ 0 ∧
      ∃ t, make sampleResults = .ok t ∧ t.spans.filter (·.style = .underline) =
        (Piece.stretches 0 (reportPieces blockOutline sampleResults)).filter
          (·.style = .underline) := by
  have hsome : (sampleResults.map (·.2.total)).sum ≠ 0 := by decide
  obtain ⟨t, ht, -, -, -, -, hunderline⟩ := make_styles isText_sampleResults hsome
  exact ⟨hsome, t, ht, hunderline⟩

/-- Whether a place of a text lies in a stretch of a style. -/
def Covers (spans : List Span) (style : Style) (place : Nat) : Prop :=
  ∃ span ∈ spans, span.style = style ∧ span.start ≤ place ∧ place < span.stop

/-- A file in which one hint was found. -/
def lonelyHint : List (Text × Diagnosis) :=
  [("a.yaml", { version := "3.0.0", hints := [⟨[], .str "m", "r", 1⟩] })]

/-- **Not only names are underlined**, but also what stands below them. -/
theorem make_underlines_more :
    ∃ t, make lonelyHint = .ok t ∧ ¬∀ place, Covers t.spans .underline place ↔
      Covers (Piece.stretches 0 (reportPieces blockPieces lonelyHint)) .underline place := by
  have htexts : ∀ entry ∈ lonelyHint, ∀ s, ∀ m ∈ entry.2.bucket s, m.message.IsText := by
    intro entry hentry s m hm
    obtain rfl := List.mem_singleton.mp hentry
    cases s <;> simp [Diagnosis.bucket] at hm
    subst hm
    exact ⟨_, rfl⟩
  have hname : (Piece.stretches 0 (reportPieces blockPieces lonelyHint)).filter
      (·.style = .underline) = [⟨1, 7, .underline⟩] := by
    decide +kernel
  have hblock : (render lonelyHint).spans.filter (·.style = .underline) =
      [⟨1, 16, .underline⟩] := by
    decide +kernel
  refine ⟨render lonelyHint, make_of_isText htexts, fun hclaim => ?_⟩
  -- The place in question is that of the line break behind the name.
  have hmem : Span.mk 1 16 .underline ∈ (render lonelyHint).spans :=
    List.mem_of_mem_filter (hblock ▸ List.mem_singleton_self _)
  obtain ⟨span, hspan, hstyle, -, hstop⟩ :=
    (hclaim 7).mp ⟨_, hmem, rfl, by decide, by decide⟩
  have honly : span ∈ [Span.mk 1 7 .underline] := by
    rw [← hname]
    exact List.mem_filter.mpr ⟨hspan, decide_eq_true hstyle⟩
  obtain rfl := List.mem_singleton.mp honly
  exact absurd hstop (by decide)

end Report

end ApiLint
