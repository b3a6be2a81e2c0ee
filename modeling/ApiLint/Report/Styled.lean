import ApiLint.Text

/-! Text with styles. A style holds for a stretch of characters; besides, a whole text can have one,
which becomes the style of its stretch when the text is put into another one. Characters that would
move the cursor or ring a bell are left out. -/
namespace ApiLint

/-- The styles of a report. -/
inductive Style
  | red
  | yellow
  | blue
  | cyan
  | grey
  | underline
  deriving DecidableEq, Repr

/-- The name of a style. -/
def Style.name : Style → String
  | red => "red"
  | yellow => "yellow"
  | blue => "blue"
  | cyan => "cyan"
  | grey => "grey50"
  | underline => "underline"

/-- A stretch of characters, from a place up to another one, with its style. -/
structure Span where
  start : Nat
  stop : Nat
  style : Style
  deriving DecidableEq, Repr

def Span.shift (n : Nat) (s : Span) : Span :=
  { s with start := s.start + n, stop := s.stop + n }

/-- A text with styles: its characters, the style of the whole and those of stretches. -/
structure Styled where
  chars : Text := []
  whole : Option Style := none
  spans : List Span := []
  deriving DecidableEq, Repr

namespace Styled

/-- Whether a character has no place in a text: bell, backspace, vertical tab, form feed and
carriage return. -/
def isStripped (c : Char) : Bool :=
  c = '\x07' || c = '\x08' || c = '\x0b' || c = '\x0c' || c = '\r'

/-- A plain text, all in one style if one is given. -/
def ofText (s : Text) (whole : Option Style := none) : Styled :=
  { chars := s.filter (!·.isA isStripped), whole }

/-- The stretches of a text inside another one: that of the whole, if it has a style, and its
own. -/
def innerSpans (t : Styled) : List Span :=
  (t.whole.map fun style => Span.mk 0 t.chars.length style).toList ++ t.spans

/-- A text with another one behind it. -/
def followedBy (t u : Styled) : Styled :=
  { t with
    chars := t.chars ++ u.chars
    spans := t.spans ++ u.innerSpans.map (Span.shift t.chars.length) }

/-- A text with another one added to it. An empty one adds nothing, not even its style. -/
def append (t u : Styled) : Styled :=
  if u.chars.isEmpty then t else t.followedBy u

instance : Append Styled := ⟨append⟩

/-- A text with a plain one added to it. Whether that is empty is asked before characters are left
out. -/
def appendPlain (t : Styled) (part : Text × Option Style) : Styled :=
  if part.1.isEmpty then t else t.followedBy (ofText part.1 part.2)

@[simp] theorem chars_followedBy (t u : Styled) : (t.followedBy u).chars = t.chars ++ u.chars := rfl

@[simp] theorem whole_followedBy (t u : Styled) : (t.followedBy u).whole = t.whole := rfl

@[simp] theorem spans_followedBy (t u : Styled) :
    (t.followedBy u).spans = t.spans ++ u.innerSpans.map (Span.shift t.chars.length) := rfl

theorem append_of_chars_eq_nil {t u : Styled} (h : u.chars = []) : t ++ u = t :=
  if_pos (List.isEmpty_iff.mpr h)

theorem append_of_chars_ne_nil {t u : Styled} (h : u.chars ≠ []) : t ++ u = t.followedBy u :=
  if_neg (mt List.isEmpty_iff.mp h)

@[simp] theorem chars_append (t u : Styled) : (t ++ u).chars = t.chars ++ u.chars := by
  by_cases h : u.chars = []
  · rw [append_of_chars_eq_nil h, h, List.append_nil]
  · rw [append_of_chars_ne_nil h, chars_followedBy]

/-- Plain texts put together, each with its style. -/
def assemble (parts : List (Text × Option Style)) : Styled :=
  parts.foldl appendPlain {}

def concat (ts : List Styled) : Styled :=
  ts.foldl followedBy {}

/-- Texts with line breaks between them. -/
def joinLines (ts : List Styled) : Styled :=
  concat (ts.intersperse (ofText "\n"))

end Styled

end ApiLint
