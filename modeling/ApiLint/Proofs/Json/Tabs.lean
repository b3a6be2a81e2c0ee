import ApiLint.Document
import ApiLint.Proofs.Json.Numbers
import ApiLint.Proofs.Json.Strings
import Mathlib.Data.List.Find

/-! Tabs in JSON. A tab is never inside a string, a name or a number that is read; it is a blank between
them, and spaces are as good. So each reader that succeeds in front of a text gives the same in front of
the text without tabs, and leaves the same rest without tabs (`readers_expandTabs`). Whether a reader
fails does not carry over: a tab between quotes is refused, and spaces there are not. -/
namespace ApiLint.Document

/-! ### Texts without tabs -/

theorem expandTabs_tab (t : Text) :
    expandTabs (.char '\t' :: t) = .char ' ' :: .char ' ' :: expandTabs t := rfl

theorem expandTabs_cons {p : CodePoint} (hp : p ≠ .char '\t') (t : Text) :
    expandTabs (p :: t) = p :: expandTabs t := by
  rw [expandTabs, List.flatMap_cons, if_neg hp]
  rfl

/-- What a text does not begin with it does not begin with without tabs, a space apart. -/
theorem expandTabs_ne_cons {p : CodePoint} {t : Text} (hp : p ≠ .char ' ')
    (h : ∀ rest, t ≠ p :: rest) (rest : Text) : expandTabs t ≠ p :: rest := by
  intro heq
  cases t with
  | nil => cases heq
  | cons q t =>
    by_cases hq : q = .char '\t'
    · subst hq
      rw [expandTabs_tab] at heq
      exact hp (List.cons.inj heq).1.symm
    · rw [expandTabs_cons hq] at heq
      obtain ⟨rfl, -⟩ := List.cons.inj heq
      exact h t rfl

theorem length_le_expandTabs (t : Text) : t.length ≤ (expandTabs t).length := by
  induction t with
  | nil => exact Nat.le_refl _
  | cons p t ih =>
    by_cases hp : p = .char '\t'
    · subst hp
      rw [expandTabs_tab]
      simp only [List.length_cons]
      omega
    · rw [expandTabs_cons hp]
      exact Nat.succ_le_succ ih

end Document

namespace Json

open Document (expandTabs expandTabs_tab expandTabs_cons expandTabs_ne_cons length_le_expandTabs)

def expanded (cs : List Char) : List Char :=
  cs.flatMap fun c => if c = '\t' then [' ', ' '] else [c]

theorem expanded_tab (cs : List Char) : expanded ('\t' :: cs) = ' ' :: ' ' :: expanded cs := rfl

theorem expanded_cons {c : Char} (hc : c ≠ '\t') (cs : List Char) :
    expanded (c :: cs) = c :: expanded cs := by
  rw [expanded, List.flatMap_cons, if_neg hc]
  rfl

theorem expanded_append_of_not_mem {w : List Char} (hw : '\t' ∉ w) (cs : List Char) :
    expanded (w ++ cs) = w ++ expanded cs := by
  induction w with
  | nil => rfl
  | cons c w ih =>
    obtain ⟨hc, hw⟩ := List.ne_and_not_mem_of_not_mem_cons hw
    rw [List.cons_append, expanded_cons (Ne.symm hc), ih hw, List.cons_append]

/-- Tabs can be expanded before the leading characters are taken, or after. -/
theorem leadingChars_expandTabs (t : Text) :
    (expandTabs t).leadingChars = expanded t.leadingChars := by
  induction t with
  | nil => rfl
  | cons p t ih =>
    by_cases hp : p = .char '\t'
    · subst hp
      rw [expandTabs_tab]
      exact congrArg (' ' :: ' ' :: ·) ih
    · rw [expandTabs_cons hp]
      cases p with
      | half offset => rfl
      | char c =>
        have hc : c ≠ '\t' := fun heq => hp (heq ▸ rfl)
        rw [Text.leadingChars, Text.leadingChars, expanded_cons hc, ih]

/-! ### Blanks -/

/-- Blanks are skipped whether they are tabs or spaces. -/
theorem skipSpace_expandTabs (t : Text) : skipSpace (expandTabs t) = expandTabs (skipSpace t) := by
  induction t with
  | nil => rfl
  | cons p t ih =>
    by_cases hp : p = .char '\t'
    · subst hp
      rw [expandTabs_tab]
      exact ih
    · rw [expandTabs_cons hp, skipSpace, skipSpace, List.dropWhile_cons, List.dropWhile_cons]
      split
      · exact ih
      · exact (expandTabs_cons hp t).symm

/-! ### Numbers and names -/

section Words
variable {p : Char → Bool} (htab : p '\t' = false) (hspace : p ' ' = false)
include htab hspace

theorem takeWhile_expanded (cs : List Char) : (expanded cs).takeWhile p = cs.takeWhile p := by
  induction cs with
  | nil => rfl
  | cons c cs ih =>
    by_cases hc : c = '\t'
    · subst hc
      simp [expanded_tab, htab, hspace]
    · rw [expanded_cons hc, List.takeWhile_cons, List.takeWhile_cons, ih]

/-- Where a test holds of neither tabs nor spaces, the same is dropped from the front of both texts. -/
theorem dropWhile_expanded (cs : List Char) :
    (expanded cs).dropWhile p = expanded (cs.dropWhile p) := by
  induction cs with
  | nil => rfl
  | cons c cs ih =>
    by_cases hc : c = '\t'
    · subst hc
      simp [expanded_tab, htab, hspace]
    · rw [expanded_cons hc, List.dropWhile_cons, List.dropWhile_cons, ih]
      split
      · rfl
      · exact (expanded_cons hc cs).symm

end Words

theorem takeWhile_isDigit_expanded (cs : List Char) :
    (expanded cs).takeWhile isDigit = cs.takeWhile isDigit :=
  takeWhile_expanded rfl rfl cs

theorem dropWhile_isDigit_expanded (cs : List Char) :
    (expanded cs).dropWhile isDigit = expanded (cs.dropWhile isDigit) :=
  dropWhile_expanded rfl rfl cs

/-- What a part of a number is read to, and the rest without tabs. -/
def restExpanded {α : Type} (r : α × List Char) : α × List Char :=
  (r.1, expanded r.2)

/-- No fraction holds a tab. -/
theorem readFraction_expanded (cs : List Char) :
    readFraction (expanded cs) = restExpanded (readFraction cs) := by
  cases cs with
  | nil => rfl
  | cons c cs =>
    by_cases hc : c = '\t'
    · subst hc
      rfl
    · rw [expanded_cons hc]
      by_cases hpoint : c = '.'
      · subst hpoint
        simp only [readFraction, takeWhile_isDigit_expanded, dropWhile_isDigit_expanded]
        split
        · exact congrArg (Prod.mk []) (expanded_cons hc cs).symm
        · rfl
      · rw [readFraction.eq_2 _ (by simpa using hpoint), readFraction.eq_2 _ (by simpa using hpoint)]
        exact congrArg (Prod.mk []) (expanded_cons hc cs).symm

theorem splitSign_expanded (cs : List Char) :
    Numeral.splitSign (expanded cs) = restExpanded (Numeral.splitSign cs) := by
  cases cs with
  | nil => rfl
  | cons c cs =>
    by_cases hc : c = '\t'
    · subst hc
      rfl
    · rw [expanded_cons hc]
      unfold Numeral.splitSign restExpanded
      split <;> simp_all [expanded_cons]

/-- No exponent holds a tab. -/
theorem readExponent_expanded (cs : List Char) :
    readExponent (expanded cs) = restExpanded (readExponent cs) := by
  cases cs with
  | nil => rfl
  | cons c cs =>
    by_cases hc : c = '\t'
    · subst hc
      rfl
    · rw [expanded_cons hc, readExponent, readExponent, splitSign_expanded]
      simp only [restExpanded, takeWhile_isDigit_expanded, dropWhile_isDigit_expanded]
      split
      · split
        · exact congrArg (Prod.mk none) (expanded_cons hc cs).symm
        · rfl
      · exact congrArg (Prod.mk none) (expanded_cons hc cs).symm

/-- No whole part holds a tab. -/
theorem wholePart_expanded (cs : List Char) : wholePart (expanded cs) = wholePart cs := by
  cases cs with
  | nil => rfl
  | cons c cs =>
    by_cases hc : c = '\t'
    · subst hc
      rfl
    · rw [expanded_cons hc]
      unfold wholePart
      split
      · simp_all
      · rw [← expanded_cons hc, takeWhile_isDigit_expanded]
        split
        · simp_all
        · rfl

theorem drop_wholePart_expanded (cs : List Char) :
    (expanded cs).drop (wholePart cs).length = expanded (cs.drop (wholePart cs).length) := by
  obtain ⟨rest, hrest⟩ : wholePart cs <+: cs := wholePart_prefix cs
  have htab : '\t' ∉ wholePart cs := fun h => absurd (isDigit_of_mem_wholePart h) (by decide)
  have hexp : expanded cs = wholePart cs ++ expanded rest := by
    rw [← expanded_append_of_not_mem htab, hrest]
  have hdrop : cs.drop (wholePart cs).length = rest := by
    nth_rewrite 2 [← hrest]
    exact List.drop_left
  rw [hexp, hdrop, List.drop_left]

theorem readNumber?_expanded (negative : Bool) (cs : List Char) :
    readNumber? negative (expanded cs) = (readNumber? negative cs).map restExpanded := by
  rw [readNumber?_eq, readNumber?_eq, wholePart_expanded, drop_wholePart_expanded,
    readFraction_expanded]
  simp only [restExpanded, readExponent_expanded]
  split <;> rfl

/-- A word without tabs is in front of both texts or of neither. -/
theorem isPrefixOf_expanded {w : List Char} (htab : '\t' ∉ w) (hspace : ' ' ∉ w)
    (cs : List Char) : w.isPrefixOf (expanded cs) = w.isPrefixOf cs := by
  induction w generalizing cs with
  | nil => rfl
  | cons d w ih =>
    obtain ⟨htab, htabs⟩ := List.ne_and_not_mem_of_not_mem_cons htab
    obtain ⟨hspace, hspaces⟩ := List.ne_and_not_mem_of_not_mem_cons hspace
    cases cs with
    | nil => rfl
    | cons c cs =>
      by_cases hc : c = '\t'
      · subst hc
        simp [expanded_tab, List.isPrefixOf, beq_false_of_ne (Ne.symm htab),
          beq_false_of_ne (Ne.symm hspace)]
      · rw [expanded_cons hc, List.isPrefixOf, List.isPrefixOf, ih htabs hspaces]

theorem find?_names_expanded (cs : List Char) :
    names.find? (fun name => name.1.isPrefixOf (expanded cs)) =
      names.find? fun name => name.1.isPrefixOf cs := by
  have hnames : ∀ name ∈ names, '\t' ∉ name.1 ∧ ' ' ∉ name.1 := by decide +kernel
  exact List.find?_congr fun name hname =>
    isPrefixOf_expanded (hnames name hname).1 (hnames name hname).2 cs

/-- A word that is read in front of some characters is read in front of them without tabs. -/
theorem readScalar?_expanded (cs : List Char) :
    readScalar? (expanded cs) = (readScalar? cs).map restExpanded := by
  unfold readScalar?
  rw [find?_names_expanded]
  split
  · next name v hfind =>
    have hname := List.mem_of_find?_eq_some hfind
    have htab : '\t' ∉ name := fun hmem =>
      absurd ((isWord_of_mem_names _ hname).2 _ hmem) (by decide)
    have hprefix := List.find?_some hfind
    obtain ⟨rest, rfl⟩ := List.isPrefixOf_iff_prefix.1 hprefix
    rw [expanded_append_of_not_mem htab]
    simp [restExpanded]
  · cases cs with
    | nil => rfl
    | cons c cs =>
      by_cases hc : c = '\t'
      · subst hc
        rfl
      · by_cases hminus : c = '-'
        · subst hminus
          exact readNumber?_expanded true cs
        · have hnot : ∀ ds rest : List Char, c :: ds = '-' :: rest → False :=
            fun _ _ heq => hminus (List.cons.inj heq).1
          rw [expanded_cons hc]
          split
          · next heq => exact (hnot _ _ heq).elim
          · rw [← expanded_cons hc, readNumber?_expanded]
            split
            · next heq => exact (hnot _ _ heq).elim
            · rfl

/-- The characters in front of a text are in front of the text without tabs. -/
theorem drop_expandTabs {t : Text} {w cs : List Char} (hw : '\t' ∉ w)
    (ht : t.leadingChars = w ++ cs) : (expandTabs t).drop w.length = expandTabs (t.drop w.length) := by
  induction w generalizing t with
  | nil => rfl
  | cons c w ih =>
    obtain ⟨hc, hrest⟩ := List.ne_and_not_mem_of_not_mem_cons hw
    match t, ht with
    | .char d :: t, ht =>
      have hleading : d :: Text.leadingChars t = c :: (w ++ cs) := ht
      obtain ⟨rfl, hmore⟩ := List.cons.inj hleading
      rw [expandTabs_cons (fun heq => hc (CodePoint.char.inj heq).symm)]
      exact ih hrest hmore

/-- A value without parts is read the same when tabs behind it become spaces. -/
theorem readScalar_expandTabs {t rest : Text} {v : Value} (h : readScalar t = .ok (v, rest)) :
    readScalar (expandTabs t) = .ok (v, expandTabs rest) := by
  unfold readScalar at h ⊢
  rw [leadingChars_expandTabs]
  simp only [readScalar?_expanded] at h ⊢
  split at h
  · cases h
  · cases h
  · next cs hread =>
    cases h
    obtain ⟨w, hw, hword⟩ := exists_readScalar? hread
    have htab : '\t' ∉ w := fun hmem => absurd (hword.2 _ hmem) (by decide)
    have hlength : t.leadingChars.length - cs.length = w.length := by simp [hw]
    have hexpanded : (expanded t.leadingChars).length - (expanded cs).length = w.length := by
      simp [hw, expanded_append_of_not_mem htab]
    simp only [hread, Option.map_some, restExpanded, hlength, hexpanded, drop_expandTabs htab hw]

/-! ### Strings -/

theorem eq_ofChars_of_chars? {t : Text} {cs : List Char} (h : t.chars? = some cs) :
    t = Text.ofChars cs := by
  induction t generalizing cs with
  | nil =>
    cases h
    rfl
  | cons p t ih =>
    rw [Text.chars?, List.mapM_cons] at h
    obtain ⟨c, hc, h⟩ := Option.bind_eq_some_iff.1 h
    obtain ⟨cs, hcs, h⟩ := Option.bind_eq_some_iff.1 h
    cases h
    cases p with
    | half offset => cases hc
    | char d =>
      cases hc
      exact congrArg (.char c :: ·) (ih hcs)

/-- The digits of an escape are no tabs, so an escape is left as it is. -/
theorem exists_expandTabs_escape {a b c d : CodePoint} {code : Nat}
    (hcode : (Text.chars? [a, b, c, d]).bind Text.hexNumber? = some code) (e : CodePoint)
    (t : Text) : ∃ e' t', expandTabs (e :: t) = e' :: t' ∧
      expandTabs (.char '\\' :: .char 'u' :: a :: b :: c :: d :: e :: t) =
        .char '\\' :: .char 'u' :: a :: b :: c :: d :: e' :: t' := by
  have hdigit : ∀ p ∈ [a, b, c, d], p ≠ .char '\t' := by
    rintro p hp rfl
    obtain ⟨cs, hcs, hnumber⟩ := Option.bind_eq_some_iff.1 hcode
    rw [eq_ofChars_of_chars? hcs] at hp
    obtain ⟨x, hx, htab⟩ := List.mem_map.1 hp
    cases htab
    exact absurd ((Text.hexNumber?_behind hnumber).1 _ hx) (by decide)
  obtain ⟨e', t', htail⟩ : ∃ e' t', expandTabs (e :: t) = e' :: t' := by
    by_cases he : e = .char '\t'
    · subst he
      exact ⟨_, _, rfl⟩
    · exact ⟨e, _, expandTabs_cons he t⟩
  refine ⟨e', t', htail, ?_⟩
  rw [expandTabs_cons (by decide), expandTabs_cons (by decide),
    expandTabs_cons (hdigit a (by simp)), expandTabs_cons (hdigit b (by simp)),
    expandTabs_cons (hdigit c (by simp)), expandTabs_cons (hdigit d (by simp)), htail]

/-- No tab is inside a string that is read: it would be a control character. -/
theorem readsString_expandTabs {t s rest : Text} {half : Option Nat}
    (h : ReadsString half t s rest) : ReadsString half (expandTabs t) s (expandTabs rest) := by
  induction h with
  | close => exact .close
  | code hcode hstep _ ih =>
    obtain ⟨e', t', htail, hescape⟩ := exists_expandTabs_escape hcode _ _
    rw [htail] at ih
    rw [hescape]
    exact .code hcode hstep ih
  | @escape half c d t s rest hd _ ih =>
    have htab : CodePoint.char c ≠ .char '\t' := by
      rintro ⟨⟩
      cases hd
    rw [expandTabs_cons (by decide), expandTabs_cons htab]
    exact .escape hd ih
  | @plain half p t s rest hquote hslash hvisible _ ih =>
    have htab : p ≠ .char '\t' := by
      rintro rfl
      exact absurd hvisible (by decide)
    rw [expandTabs_cons htab]
    exact .plain hquote hslash hvisible ih

theorem readString_expandTabs {start start' t s rest : Text} {half : Option Nat}
    (h : readString start half t = .ok (s, rest)) :
    readString start' half (expandTabs t) = .ok (s, expandTabs rest) :=
  readString_iff.mpr (readsString_expandTabs (readString_iff.mp h))

/-! ### Collections -/

/-- Names cannot hold a tab, and so they are read the same. -/
theorem readName_expandTabs {t name rest : Text} (h : readName t = .ok (name, rest)) :
    readName (expandTabs t) = .ok (name, expandTabs rest) := by
  unfold readName at h
  split at h
  · split at h
    · cases h
    · next name' rest' hread =>
      rw [expandTabs_cons (by decide), readName, readString_expandTabs hread]
      simp only [skipSpace_expandTabs]
      split at h
      · next hcolon =>
        cases h
        rw [hcolon, expandTabs_cons (by decide), ← skipSpace_expandTabs]
        rfl
      · cases h
  · cases h

/-- What a reader reads in front of a text, the other reads in front of the text without tabs. -/
def ReadsExpanded {α : Type} (reader reader' : Text → Read α) : Prop :=
  ∀ {t : Text} {a : α} {rest : Text}, reader t = .ok (a, rest) →
    reader' (expandTabs t) = .ok (a, expandTabs rest)

/-- The readers read what they read in front of a text, and with more fuel as well, which they need:
a text is longer without tabs. -/
structure ReadersExpand (fuel fuel' : Nat) : Prop where
  value : ReadsExpanded (readValue fuel) (readValue fuel')
  items (before : List Value) : ReadsExpanded (readItems fuel before) (readItems fuel' before)
  entries (before : List (Value × Value)) :
    ReadsExpanded (readEntries fuel before) (readEntries fuel' before)

section Step
variable {fuel fuel' : Nat} (ih : ReadersExpand fuel fuel')
include ih

/-- One step of the induction: a value. -/
theorem readValue_expandTabs : ReadsExpanded (readValue (fuel + 1)) (readValue (fuel' + 1)) := by
  intro t v rest h
  unfold readValue at h ⊢
  split at h
  · obtain ⟨⟨s, rest'⟩, hread, heq⟩ := Except.map_eq_ok.mp h
    cases heq
    rw [expandTabs_cons (by decide)]
    simp only [readString_expandTabs hread]
    rfl
  · rw [expandTabs_cons (by decide)]
    simp only [skipSpace_expandTabs]
    split at h
    · next hclose =>
      cases h
      rw [hclose, expandTabs_cons (by decide)]
      rfl
    · next hopen =>
      split
      · next hclose =>
        exact absurd hclose (expandTabs_ne_cons (by decide) hopen _)
      · exact ih.entries _ h
  · rw [expandTabs_cons (by decide)]
    simp only [skipSpace_expandTabs]
    split at h
    · next hclose =>
      cases h
      rw [hclose, expandTabs_cons (by decide)]
      rfl
    · next hopen =>
      split
      · next hclose =>
        exact absurd hclose (expandTabs_ne_cons (by decide) hopen _)
      · exact ih.items _ h
  · next hquote hbrace hbracket =>
    split
    · next hopen =>
      exact absurd hopen (expandTabs_ne_cons (by decide) hquote _)
    · next hopen =>
      exact absurd hopen (expandTabs_ne_cons (by decide) hbrace _)
    · next hopen =>
      exact absurd hopen (expandTabs_ne_cons (by decide) hbracket _)
    · exact readScalar_expandTabs h

/-- One step of the induction: the items of a list. -/
theorem readItems_expandTabs (before : List Value) :
    ReadsExpanded (readItems (fuel + 1) before) (readItems (fuel' + 1) before) := by
  intro t v rest h
  unfold readItems at h ⊢
  split at h
  · cases h
  · next v' rest' hread =>
    rw [ih.value hread]
    simp only [skipSpace_expandTabs]
    split at h
    · next hclose =>
      cases h
      rw [hclose, expandTabs_cons (by decide)]
      rfl
    · next hcomma =>
      rw [hcomma, expandTabs_cons (by decide)]
      simp only [skipSpace_expandTabs]
      exact ih.items _ h
    · cases h

/-- One step of the induction: the members of an object. -/
theorem readEntries_expandTabs (before : List (Value × Value)) :
    ReadsExpanded (readEntries (fuel + 1) before) (readEntries (fuel' + 1) before) := by
  intro t v rest h
  unfold readEntries at h ⊢
  split at h
  · cases h
  · next hname =>
    rw [readName_expandTabs hname]
    dsimp only
    split at h
    · cases h
    · next v' rest' hread =>
      rw [ih.value hread]
      simp only [skipSpace_expandTabs]
      split at h
      · next hclose =>
        cases h
        rw [hclose, expandTabs_cons (by decide)]
        rfl
      · next hcomma =>
        rw [hcomma, expandTabs_cons (by decide)]
        simp only [skipSpace_expandTabs]
        exact ih.entries _ h
      · cases h

end Step

theorem readers_expandTabs {fuel fuel' : Nat} (h : fuel ≤ fuel') : ReadersExpand fuel fuel' := by
  induction fuel generalizing fuel' with
  | zero => exact ⟨nofun, nofun, nofun⟩
  | succ fuel ih =>
    cases fuel' with
    | zero => exact absurd h (Nat.not_succ_le_zero fuel)
    | succ fuel' =>
      have hless := ih (Nat.le_of_succ_le_succ h)
      exact ⟨readValue_expandTabs hless, readItems_expandTabs hless, readEntries_expandTabs hless⟩

/-- **A text that has a value has the same one without tabs.** -/
theorem read_expandTabs {t : Text} {v : Value} (h : read t = .ok v) :
    read (expandTabs t) = .ok v := by
  refine Except.mapError_ok_iff.mpr ?_
  have hall : readAll t = .ok v := Except.mapError_ok_iff.mp h
  unfold readAll at hall ⊢
  split at hall
  · cases hall
  · next hmark =>
    split
    · next hstart =>
      exact absurd hstart (expandTabs_ne_cons (by decide) hmark _)
    · split at hall
      · cases hall
      · next hread =>
        have hfuel : 2 * t.length + 2 ≤ 2 * (expandTabs t).length + 2 := by
          have := length_le_expandTabs t
          omega
        rw [skipSpace_expandTabs, (readers_expandTabs hfuel).value hread]
        simp only [skipSpace_expandTabs]
        split at hall
        · next hend =>
          rw [hend]
          exact hall
        · cases hall

end Json

end ApiLint
