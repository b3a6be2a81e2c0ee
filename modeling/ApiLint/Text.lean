/-! Texts. A text is a row of code points. Nearly all of them are characters; half of a pair of code
units is none, but a text that was written by its codes can hold one that stands alone. -/
namespace ApiLint

/-- What stands at one place of a text. -/
inductive CodePoint
  | char (c : Char)
  /-- Half of a pair of code units, so far above the first of them. -/
  | half (offset : Fin 0x800)
  deriving DecidableEq, Repr, Inhabited

namespace CodePoint

instance : Coe Char CodePoint := ⟨char⟩

/-- The code of the first half of a pair. -/
def firstHalf : Nat := 0xD800

def code : CodePoint → Nat
  | char c => c.toNat
  | half offset => firstHalf + offset

/-- The code point with a number below 0x110000. -/
def ofCode (code : Nat) : CodePoint :=
  if h : firstHalf ≤ code ∧ code - firstHalf < 0x800 then half ⟨code - firstHalf, h.2⟩
  else char (Char.ofNat code)

def char? : CodePoint → Option Char
  | char c => some c
  | half _ => none

def isA (p : Char → Bool) : CodePoint → Bool
  | char c => p c
  | half _ => false

end CodePoint

/-- A row of code points. -/
abbrev Text := List CodePoint

namespace Text

def ofChars (cs : List Char) : Text :=
  cs.map .char

def ofString (s : String) : Text :=
  ofChars s.toList

instance : Coe String Text := ⟨ofString⟩

/-- The characters of a text, if it has no others. -/
def chars? (t : Text) : Option (List Char) :=
  t.mapM CodePoint.char?

def leadingChars : Text → List Char
  | .char c :: t => c :: leadingChars t
  | _ => []

/-- The characters of a text as a string. -/
def string (t : Text) : String :=
  String.ofList (t.filterMap CodePoint.char?)

/-- Texts one behind the other, with a separator between them. -/
def joined (separator : Text) (texts : List Text) : Text :=
  separator.intercalate texts

def spaces (n : Nat) : Text :=
  List.replicate n ' '

@[simp] theorem chars?_ofChars (cs : List Char) : chars? (ofChars cs) = some cs := by
  induction cs with
  | nil => rfl
  | cons c cs ih => simp_all [chars?, ofChars, CodePoint.char?]

theorem ofChars_inj {cs ds : List Char} : ofChars cs = ofChars ds ↔ cs = ds :=
  ⟨fun h => by simpa using congrArg chars? h, congrArg ofChars⟩

@[simp] theorem ofString_inj {s t : String} : ofString s = ofString t ↔ s = t := by
  rw [ofString, ofString, ofChars_inj, String.toList_inj]

end Text

end ApiLint
