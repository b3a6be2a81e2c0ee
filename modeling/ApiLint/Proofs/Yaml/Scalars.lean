import ApiLint.Proofs.Json.Spelling
import ApiLint.Proofs.Yaml.Cursor
import ApiLint.Yaml.Token.Plain
import ApiLint.Yaml.Token.Quoted

/-! The scalars of JSON as YAML scans them. A string is scanned to the code points that it writes one
by one: every escape of JSON is one of YAML with the same meaning, but halves stay apart
(`scanQuoted_body`). A name or a number between brackets is scanned to itself, and the blanks behind it
are passed with it (`scanPlain_word`). -/
namespace ApiLint

/-! ### The bodies of strings -/

namespace Json.Body

/-- No string runs over the end of a line. -/
theorem newline_not_mem {body : List Char} {units : Text} (h : Body body units) : '\n' ∉ body := by
  induction h with
  | nil => exact List.not_mem_nil
  | plain _ _ hcontrol _ ih =>
    rw [List.mem_cons, not_or]
    refine ⟨?_, ih⟩
    rintro rfl
    exact absurd hcontrol (by decide)
  | escape hescaped _ ih =>
    simp only [List.mem_cons, not_or]
    refine ⟨by decide, ?_, ih⟩
    rintro rfl
    cases hescaped
  | code _ hdigits _ ih =>
    simp only [List.mem_cons, List.mem_append, not_or]
    refine ⟨by decide, by decide, fun hmem => ?_, ih⟩
    cases (Text.hexNumber?_behind hdigits).1 _ hmem

/-- A row of characters without a backslash stands for itself. -/
theorem exists_plain {run cs : List Char} {units : Text} (h : Body (run ++ cs) units)
    (hrun : '\\' ∉ run) : ∃ more, units = Text.ofChars run ++ more ∧ Body cs more := by
  induction run generalizing units with
  | nil => exact ⟨units, rfl, h⟩
  | cons c run ih =>
    rw [List.mem_cons, not_or] at hrun
    rw [List.cons_append] at h
    generalize hbody : run ++ cs = body at h
    cases h with
    | plain _ _ _ h =>
      obtain ⟨more, rfl, hmore⟩ := ih (hbody ▸ h) hrun.2
      exact ⟨more, rfl, hmore⟩
    | escape => exact absurd rfl hrun.1
    | code => exact absurd rfl hrun.1

end Json.Body

namespace Yaml

open Json (Body IsWord isWordChar)

variable {front rest : List Char} {c : Cursor}

theorem escaped?_of_json {ch d : Char} (h : Json.escaped? ch = some d) : escaped? ch = some d := by
  unfold Json.escaped? at h
  split at h <;> cases h <;> rfl

/-! ### Strings -/

/-- What a part of a quoted text and the rest of it are together. -/
def behind (t : Text) (r : Scanned Text) : Scanned Text :=
  r.map fun (rest, c) => (t ++ rest, c)

theorem quotedEscape_letter {e d : Char} (fuel : Nat) (h : c.At front ('\\' :: e :: rest))
    (hd : Json.escaped? e = some d) :
    quotedEscape fuel c = .ok ([.char d], c.advance.advance) := by
  have hpeek : c.advance.peek = some e := h.advance.peek
  rw [quotedEscape]
  simp only [hpeek, escaped?_of_json hd]

/-- An escape by code, of four digits. -/
theorem quotedEscape_code {digits : List Char} {code : Nat} (fuel : Nat)
    (h : c.At front ('\\' :: 'u' :: (digits ++ rest))) (hlength : digits.length = 4)
    (hdigits : Text.hexNumber? digits = some code) :
    quotedEscape fuel c = .ok ([.ofCode code], c.advance.advance.advanceBy 4) := by
  have hpeek : c.advance.peek = some 'u' := h.advance.peek
  have htake : c.advance.advance.rest.take 4 = digits := by
    rw [h.advance.advance.left, ← hlength, List.take_left]
  have hcode := Text.hexNumber?_lt hdigits
  rw [hlength] at hcode
  have hpoint : pointOf code = .ok (.ofCode code) := if_neg (by omega)
  rw [quotedEscape]
  simp only [hpeek]
  show (if _ then _ else _) = _
  rw [htake, hlength, if_neg (Nat.lt_irrefl 4), hdigits]
  show (pointOf code).map _ = _
  rw [hpoint]
  rfl

/-- Blanks inside a string that no line end follows. -/
theorem quotedGap_blanks {blanks : List Char} (fuel : Nat) (h : c.At front (blanks ++ rest))
    (hblanks : ∀ x ∈ blanks, isBlank x = true) (hend : rest ≠ [])
    (hrest : ∀ x ∈ rest.head?, isBlank x = false ∧ isBreak x = false) :
    ∃ next, quotedGap fuel c = .ok (Text.ofChars blanks, next) ∧ next.At (front ++ blanks) rest := by
  obtain ⟨htake, hnext⟩ := h.takeWhile hblanks fun x hx => (hrest x hx).1
  refine ⟨_, ?_, hnext⟩
  rw [quotedGap]
  simp only [hnext.peek, htake]
  cases rest with
  | nil => exact absurd rfl hend
  | cons x rest => exact if_neg (Bool.eq_false_iff.mp (hrest x rfl).2)

section

variable (fuel : Nat)

theorem quotedText_end (h : c.At front ('"' :: rest)) :
    quotedText true (fuel + 1) c = .ok ([], c.advance) := by
  rw [quotedText, h.left]
  rfl

theorem quotedText_escape {t : Text} {next : Cursor} (h : c.At front ('\\' :: rest))
    (hread : quotedEscape fuel c = .ok (t, next)) :
    quotedText true (fuel + 1) c = behind t (quotedText true fuel next) := by
  rw [quotedText, h.left]
  simp only [hread]
  rfl

theorem quotedText_apostrophe (h : c.At front ('\'' :: rest)) :
    quotedText true (fuel + 1) c = behind ['\''] (quotedText true fuel c.advance) := by
  rw [quotedText, h.left]
  rfl

/-- Characters that stand for themselves are read in one run. -/
theorem quotedText_run {x : Char} (h : c.At front (x :: rest)) (hx : isQuotedChar x = true) :
    quotedText true (fuel + 1) c =
      behind (Text.ofChars (c.takeWhile isQuotedChar).1)
        (quotedText true fuel (c.takeWhile isQuotedChar).2) := by
  rw [quotedText, h.left]
  split
  · next heq => cases heq
  iterate 3
    · next heq =>
      cases heq
      exact absurd hx (by decide)
  · next heq =>
    cases heq
    exact if_pos hx

/-- Blanks inside the quotes are read as they are. -/
theorem quotedText_blanks {x : Char} {t : Text} {next : Cursor} (h : c.At front (x :: rest))
    (hx : isBlank x = true) (hread : quotedGap fuel c = .ok (t, next)) :
    quotedText true (fuel + 1) c = behind t (quotedText true fuel next) := by
  have hnot : isQuotedChar x = false := by simp [isQuotedChar, hx]
  rw [quotedText, h.left]
  split
  · next heq => cases heq
  iterate 3
    · next heq =>
      cases heq
      exact absurd hx (by decide)
  · next heq =>
    cases heq
    simp only [hnot, Bool.false_eq_true, if_false, hread]
    rfl

end

/-- The longest run of characters of a kind that a body starts with, in front of a quote. -/
theorem exists_run {p : Char → Bool} {x : Char} {cs : List Char} {units : Text}
    (hbody : Body (x :: cs) units) (hx : p x = true) (hslash : p '\\' = false)
    (hquote : p '"' = false) (rest : List Char) :
    ∃ run more units', x :: cs = run ++ more ∧ run ≠ [] ∧ (∀ y ∈ run, p y = true) ∧
      (∀ y ∈ (more ++ '"' :: rest).head?, p y = false) ∧ units = Text.ofChars run ++ units' ∧
      Body more units' := by
  have hsplit : x :: cs = (x :: cs).takeWhile p ++ (x :: cs).dropWhile p :=
    List.takeWhile_append_dropWhile.symm
  have hrun : ∀ y ∈ (x :: cs).takeWhile p, p y = true := fun y hy => List.mem_takeWhile_imp hy
  obtain ⟨units', hunits, hmore⟩ := (hsplit ▸ hbody).exists_plain fun hmem => by
    rw [hrun _ hmem] at hslash
    cases hslash
  refine ⟨_, _, units', hsplit, by simp [hx], hrun, fun y hy => ?_, hunits, hmore⟩
  cases hdrop : (x :: cs).dropWhile p with
  | nil =>
    rw [hdrop] at hy
    obtain rfl := Option.some.inj hy
    exact hquote
  | cons z more =>
    have hhead := List.head?_dropWhile_not p (x :: cs)
    rw [hdrop] at hy hhead
    obtain rfl := Option.some.inj hy
    simpa using hhead

/-- One round of reading a quoted text: a part of its body is read, and the rest with less fuel. -/
structure Round (fuel : Nat) (front body rest : List Char) (units : Text) (c : Cursor)
    (run more : List Char) (t units' : Text) (next : Cursor) : Prop where
  split : body = run ++ more
  nonempty : run ≠ []
  body : Body more units'
  cursor : next.At (front ++ run) (more ++ '"' :: rest)
  read : quotedText true (fuel + 1) c = behind t (quotedText true fuel next)
  units : units = t ++ units'

section

variable {body : List Char} {units : Text} {x : Char} {cs : List Char}

/-- A row of characters that stand for themselves. -/
theorem exists_round_run (fuel : Nat) (hbody : Body (x :: cs) units)
    (h : c.At front ((x :: cs) ++ '"' :: rest)) (hx : isQuotedChar x = true) :
    ∃ run more t units' next, Round fuel front (x :: cs) rest units c run more t units' next := by
  obtain ⟨run, more, units', heq, hne, hrun, hend, hunits, hunits'⟩ :=
    exists_run hbody hx rfl rfl rest
  have hat := h
  rw [heq, List.append_assoc] at hat
  obtain ⟨htake, hnext⟩ := hat.takeWhile hrun hend
  have hread := quotedText_run fuel h hx
  rw [htake] at hread
  exact ⟨run, more, _, units', _, heq, hne, hunits', hnext, hread, hunits⟩

/-- A row of blanks. No line ends behind it, since no line ends inside a string. -/
theorem exists_round_blanks (fuel : Nat) (hbody : Body (x :: cs) units)
    (h : c.At front ((x :: cs) ++ '"' :: rest)) (hx : isBlank x = true) :
    ∃ run more t units' next, Round fuel front (x :: cs) rest units c run more t units' next := by
  obtain ⟨run, more, units', heq, hne, hrun, hend, hunits, hunits'⟩ :=
    exists_run hbody hx rfl rfl rest
  have hat := h
  rw [heq, List.append_assoc] at hat
  have hbreak : ∀ y ∈ (more ++ '"' :: rest).head?, isBreak y = false := by
    intro y hy
    cases more with
    | nil =>
      obtain rfl := Option.some.inj hy
      rfl
    | cons z more =>
      obtain rfl := Option.some.inj hy
      have hmem : z ∈ x :: cs := by simp [heq]
      refine Bool.eq_false_iff.mpr fun hbreak => hbody.newline_not_mem ?_
      rw [← (h.clear z (List.mem_append_left _ hmem)).2 hbreak]
      exact hmem
  obtain ⟨next, hgap, hnext⟩ := quotedGap_blanks fuel hat hrun (by simp) fun y hy =>
    ⟨hend y hy, hbreak y hy⟩
  exact ⟨run, more, _, units', next, heq, hne, hunits', hnext,
    quotedText_blanks fuel h hx hgap, hunits⟩

/-- Each round of the scanner takes something off the body of a string. -/
theorem exists_round (fuel : Nat) (hbody : Body body units) (hne : body ≠ [])
    (h : c.At front (body ++ '"' :: rest)) :
    ∃ run more t units' next, Round fuel front body rest units c run more t units' next := by
  cases hcases : hbody with
  | nil => exact absurd rfl hne
  | @escape e d cs t hescaped hcs =>
    exact ⟨['\\', e], cs, [.char d], t, _, rfl, List.cons_ne_nil _ _, hcs,
      by simpa using h.advance.advance,
      quotedText_escape fuel h (quotedEscape_letter fuel h hescaped), rfl⟩
  | @code digits cs code t hlength hdigits hcs =>
    simp only [List.cons_append, List.append_assoc] at h
    have hafter := h.advance.advance.advanceBy
    rw [hlength] at hafter
    exact ⟨'\\' :: 'u' :: digits, cs, [.ofCode code], t, _, rfl, List.cons_ne_nil _ _, hcs,
      by simpa using hafter,
      quotedText_escape fuel h (quotedEscape_code fuel h hlength hdigits), rfl⟩
  | @plain x cs t hquote hslash hcontrol hcs =>
    obtain rfl | hapostrophe := eq_or_ne x '\''
    · exact ⟨['\''], cs, ['\''], t, _, rfl, List.cons_ne_nil _ _, hcs, h.advance,
        quotedText_apostrophe fuel h, rfl⟩
    · cases hx : isQuotedChar x with
      | true => exact exists_round_run fuel hbody h hx
      | false =>
        -- what is neither a sign nor a line end is a blank
        have hbreak : isBreak x = false := by
          refine Bool.eq_false_iff.mpr fun hbreak => hbody.newline_not_mem ?_
          rw [← (h.clear x List.mem_cons_self).2 hbreak]
          exact List.mem_cons_self
        have hblank : isBlank x = true := by
          simpa [isQuotedChar, hapostrophe, hquote, hslash, hbreak] using hx
        exact exists_round_blanks fuel hbody h hblank

/-- The scanner reads the body of a string up to its closing quote, by induction on its length. -/
theorem quotedText_body {fuel : Nat} (hfuel : body.length < fuel) (hbody : Body body units)
    (h : c.At front (body ++ '"' :: rest)) :
    ∃ after, quotedText true fuel c = .ok (units, after) ∧
      after.At (front ++ (body ++ ['"'])) rest := by
  induction fuel generalizing body units front c with
  | zero => exact absurd hfuel (Nat.not_lt_zero _)
  | succ fuel ih =>
    obtain rfl | hne := eq_or_ne body []
    · cases hbody
      exact ⟨_, quotedText_end fuel h, h.advance⟩
    · obtain ⟨run, more, t, units', next, hround⟩ := exists_round fuel hbody hne h
      obtain ⟨rfl, hrun, hmore, hnext, hread, rfl⟩ := hround
      have hlength : more.length < fuel := by
        have hpos := List.length_pos_iff.mpr hrun
        rw [List.length_append] at hfuel
        omega
      obtain ⟨after, hrest, hafter⟩ := ih hlength hmore hnext
      refine ⟨after, by rw [hread, hrest]; rfl, ?_⟩
      simpa using hafter

end

/-- A string of JSON is scanned to the code points that it writes. -/
theorem scanQuoted_body {body : List Char} {units : Text} (hbody : Body body units)
    (h : c.At front (Json.Label.quoted body ++ rest)) :
    ∃ after, scanQuoted c = .ok (units, after) ∧
      after.At (front ++ Json.Label.quoted body) rest := by
  simp only [Json.Label.quoted, List.cons_append, List.append_assoc] at h
  have hlength : body.length < c.steps := by
    have := h.length_lt_steps
    simp only [List.length_cons, List.length_append] at this
    omega
  obtain ⟨after, hread, hafter⟩ := quotedText_body hlength hbody h.advance
  refine ⟨after, ?_, by simpa [Json.Label.quoted] using hafter⟩
  rw [scanQuoted, h.peek]
  exact hread

/-! ### Words -/

/-- What may come behind a value between brackets, when its blanks are passed. -/
def IsFlowEnd (ch : Char) : Prop :=
  ch = ',' ∨ ch = ']' ∨ ch = '}'

/-- What a word consists of ends no plain scalar. -/
theorem isWordChar_plain {ch : Char} (h : isWordChar ch = true) :
    isBlank ch = false ∧ isBreak ch = false ∧ ch ≠ ':' ∧ isFlowSign ch = false ∧ ch ≠ '#' := by
  have hspecial : [' ', '\t', '\n', '\r', '\u0085', '\u2028', '\u2029', ':', ',', '?', '[', ']',
      '{', '}', '#'].all (fun d => !isWordChar d) = true := by decide
  have hne : ∀ d ∈ [' ', '\t', '\n', '\r', '\u0085', '\u2028', '\u2029', ':', ',', '?', '[',
      ']', '{', '}', '#'], ch ≠ d := by
    rintro d hd rfl
    have hnot := List.all_eq_true.mp hspecial _ hd
    simp [h] at hnot
  simp only [List.forall_mem_cons] at hne
  obtain ⟨h1, h2, h3, h4, h5, h6, h7, h8, h9, h10, h11, h12, h13, h14, h15, -⟩ := hne
  simp_all [isBlank, isBreak, isFlowSign]

theorem plainWord_append {w : List Char} (hw : ∀ ch ∈ w, isWordChar ch = true) :
    plainWord true (w ++ rest) = w ++ plainWord true rest := by
  induction w with
  | nil => rfl
  | cons ch w ih =>
    obtain ⟨hch, hw⟩ := List.forall_mem_cons.mp hw
    obtain ⟨hblank, hbreak, hcolon, hsign, -⟩ := isWordChar_plain hch
    rw [List.cons_append, plainWord, ih hw]
    simp [hblank, hbreak, hcolon, hsign]

variable {gap : List Char} {sign : Char}

theorem plainWord_of_gap (hgap : IsSpacing gap) (hsign : IsFlowEnd sign) :
    plainWord true (gap ++ sign :: rest) = [] := by
  cases gap with
  | nil => obtain rfl | rfl | rfl := hsign <;> rfl
  | cons x gap => obtain rfl | rfl := (List.forall_mem_cons.mp hgap).1 <;> rfl

theorem IsFlowEnd.head_ne_space (h : IsFlowEnd sign) : ∀ x ∈ (sign :: rest).head?, x ≠ ' ' := by
  rintro x ⟨⟩
  obtain rfl | rfl | rfl := h <;> decide

theorem IsFlowEnd.isBreak (h : IsFlowEnd sign) : isBreak sign = false := by
  obtain rfl | rfl | rfl := h <;> rfl

/-- No document marker stands where blanks or the end of a value come next. -/
theorem atMarker_of_gap (hgap : IsSpacing gap) (hsign : IsFlowEnd sign)
    (h : c.At front (gap ++ sign :: rest)) : c.atMarker = false := by
  rw [Cursor.atMarker, h.left]
  cases gap with
  | nil => obtain rfl | rfl | rfl := hsign <;> rfl
  | cons x gap => obtain rfl | rfl := (List.forall_mem_cons.mp hgap).1 <;> rfl

theorem plainBreaks_gap {fuel : Nat} (hfuel : gap.length < fuel) (hgap : IsSpacing gap)
    (hsign : IsFlowEnd sign) (h : c.At front (gap ++ sign :: rest)) :
    (plainBreaks fuel c).2.2.At (front ++ gap) (sign :: rest) := by
  induction fuel generalizing gap front c with
  | zero => exact absurd hfuel (Nat.not_lt_zero _)
  | succ fuel ih =>
    rw [plainBreaks, atMarker_of_gap hgap hsign h, Bool.false_and, if_neg Bool.false_ne_true]
    obtain hnext | ⟨spaces, more, rfl, hmore, hnext⟩ :=
      h.exists_skipSpaces hgap hsign.head_ne_space
    · have hpeek : c.skipSpaces.peek = some sign := hnext.peek
      simp only [hpeek, Option.any_some, hsign.isBreak, Bool.false_eq_true, if_false]
      exact hnext
    · have hpeek : c.skipSpaces.peek = some '\n' := hnext.peek
      have hlength : more.length < fuel := by
        rw [List.length_append, List.length_cons] at hfuel
        omega
      have hrest := ih hlength hmore hnext.lineBreak.2
      have hbreak : isBreak '\n' = true := rfl
      rw [List.append_assoc, List.append_assoc] at hrest
      simp only [hpeek, Option.any_some, hbreak, if_true]
      exact hrest

theorem plainGap_gap (hgap : IsSpacing gap) (hsign : IsFlowEnd sign)
    (h : c.At front (gap ++ sign :: rest)) :
    (plainGap c).after.At (front ++ gap) (sign :: rest) := by
  rw [plainGap]
  obtain hnext | ⟨spaces, more, rfl, hmore, hnext⟩ :=
    h.exists_skipSpaces hgap hsign.head_ne_space
  · have hpeek : (c.takeWhile (· = ' ')).2.peek = some sign := hnext.peek
    simp only [hpeek, Option.any_some, hsign.isBreak, Bool.false_eq_true, if_false]
    exact hnext
  · have hbreak : isBreak '\n' = true := rfl
    have hafter := hnext.lineBreak.2
    have hlength : more.length < (c.takeWhile (· = ' ')).2.lineBreak.2.steps :=
      Nat.lt_of_le_of_lt (by simp) hafter.length_lt_steps
    have hrest := plainBreaks_gap hlength hmore hsign hafter
    have hpeek : (c.takeWhile (· = ' ')).2.peek = some '\n' := hnext.peek
    rw [List.append_assoc, List.append_assoc] at hrest
    simp only [hpeek, Option.any_some, hbreak, if_true]
    exact hrest

/-- A scalar ends in front of a sign of the brackets. -/
theorem plainWords_of_sign {fuel : Nat} {text : List Char} {passed : Bool} {indent : Int}
    (hsign : IsFlowEnd sign) (h : c.At front (sign :: rest)) :
    plainWords true indent fuel text passed c = ⟨[], passed, c⟩ := by
  cases fuel with
  | zero => rfl
  | succ fuel =>
    have hword : plainWord true c.rest = [] := by
      rw [h.left]
      show plainWord true ([] ++ sign :: rest) = []
      exact plainWord_of_gap (by nofun) hsign
    rw [plainWords]
    simp [hword]

/-- A word between brackets is scanned to itself, and the blanks behind it are passed. -/
theorem scanPlain_word {w : List Char} (parent : Int) (hword : IsWord w) (hgap : IsSpacing gap)
    (hsign : IsFlowEnd sign) (h : c.At front (w ++ (gap ++ sign :: rest))) :
    (scanPlain true parent c).text = w ∧
      (scanPlain true parent c).after.At (front ++ (w ++ gap)) (sign :: rest) := by
  have htaken : plainWord true c.rest = w := by
    rw [h.left, plainWord_append hword.chars, plainWord_of_gap hgap hsign, List.append_nil]
  have hnext := plainGap_gap hgap hsign h.advanceBy
  rw [List.append_assoc] at hnext
  obtain ⟨x, more, hcons⟩ : ∃ x more, w = x :: more := by
    obtain ⟨ch, more, -, rfl | rfl⟩ := hword.start
    · exact ⟨_, _, rfl⟩
    · exact ⟨_, _, rfl⟩
  have hhash : c.peek ≠ some '#' := by
    rw [h.peek, hcons]
    have := (isWordChar_plain (hword.chars x (hcons ▸ List.mem_cons_self))).2.2.2.2
    simpa using this
  have hempty : w.isEmpty = false := by rw [hcons]; rfl
  rw [scanPlain, Cursor.steps, plainWords]
  simp only [if_neg hhash, htaken, hempty, Bool.false_eq_true, if_false]
  split
  · exact ⟨rfl, hnext⟩
  · rw [plainWords_of_sign hsign hnext]
    exact ⟨by simp, hnext⟩

end Yaml

end ApiLint
