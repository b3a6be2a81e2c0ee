import ApiLint.Json.Reader
import ApiLint.Proofs.Except

/-! JSON as it is written. A phrase is a value together with its spelling: the escapes of its strings,
the blanks between its signs, and every member of an object, also one whose name comes up again. What
it is read to forgets all this (`value`), and its characters are what stands in a text (`chars`). -/
namespace ApiLint.Json

/-! ### Strings -/

/-- The text of code points that were written one by one: two halves of a pair that stand next to each
other are one character. -/
def joinHalves : Text → Text
  | a :: b :: t =>
    if isHighHalf a.code && isLowHalf b.code then .char (pairChar a.code b.code) :: joinHalves t
    else a :: joinHalves (b :: t)
  | t => t

/-- What stands between the quotes of a string, and the code points that it writes one by one. -/
inductive Body : List Char → Text → Prop
  | nil : Body [] []
  | plain {c : Char} {cs : List Char} {t : Text} : c ≠ '"' → c ≠ '\\' → 0x20 ≤ c.toNat →
      Body cs t → Body (c :: cs) (.char c :: t)
  | escape {c d : Char} {cs : List Char} {t : Text} : escaped? c = some d →
      Body cs t → Body ('\\' :: c :: cs) (.char d :: t)
  | code {digits cs : List Char} {code : Nat} {t : Text} : digits.length = 4 →
      Text.hexNumber? digits = some code → Body cs t →
      Body ('\\' :: 'u' :: (digits ++ cs)) (.ofCode code :: t)

/-- Whether characters stand for themselves between quotes. -/
def IsUnescaped (cs : List Char) : Prop :=
  ∀ c ∈ cs, c ≠ '"' ∧ c ≠ '\\' ∧ 0x20 ≤ c.toNat

instance (cs : List Char) : Decidable (IsUnescaped cs) :=
  List.decidableBAll _ cs

theorem IsUnescaped.body {cs : List Char} (h : IsUnescaped cs) : Body cs (Text.ofChars cs) := by
  induction cs with
  | nil => exact .nil
  | cons c cs ih =>
    obtain ⟨⟨hquote, hescape, hvisible⟩, hcs⟩ := List.forall_mem_cons.mp h
    exact .plain hquote hescape hvisible (ih hcs)

/-! ### Words -/

/-- Whether a character may stand in a name or a number. -/
def isWordChar (c : Char) : Bool :=
  c.isAlphanum || c = '+' || c = '-' || c = '.'

/-- Whether a row of characters has the form of names and numbers: a letter or a digit comes first, or
after a minus sign. -/
structure IsWord (cs : List Char) : Prop where
  start : ∃ c rest, c.isAlphanum = true ∧ (cs = c :: rest ∨ cs = '-' :: c :: rest)
  chars : ∀ c ∈ cs, isWordChar c = true

/-! ### Phrases -/

/-- The name of a member as it is written, with the blanks around it and the colon. -/
structure Label where
  before : List Char
  /-- The code points that the name writes one by one. -/
  units : Text
  body : List Char
  /-- The blanks in front of the colon. -/
  gap : List Char
  after : List Char

/-- A part of a collection: what leads to it, and the blanks behind it. -/
structure Part (α β : Type) where
  lead : α
  value : β
  after : List Char

/-- A value as it is written. A collection may have blanks behind its opening bracket. -/
inductive Phrase
  /-- A name or a number. -/
  | word (v : Value) (cs : List Char)
  | string (units : Text) (body : List Char)
  | list (gap : List Char) (items : List (Part (List Char) Phrase))
  | object (gap : List Char) (members : List (Part Label Phrase))

/-- An item of a list, with the blanks in front of it. -/
abbrev Item := Part (List Char) Phrase

/-- A member of an object. -/
abbrev Member := Part Label Phrase

namespace Label

def quoted (body : List Char) : List Char :=
  '"' :: (body ++ ['"'])

def chars (l : Label) : List Char :=
  l.before ++ (quoted l.body ++ (l.gap ++ ':' :: l.after))

def name (l : Label) : Text :=
  joinHalves l.units

end Label

/-- Blanks between the signs of JSON. -/
def IsGap (cs : List Char) : Prop :=
  ∀ c ∈ cs, isSpace c = true

instance (cs : List Char) : Decidable (IsGap cs) :=
  List.decidableBAll _ cs

/-- Whether a label is written as the name of a member is. -/
structure Label.IsJson (l : Label) : Prop where
  before : IsGap l.before
  body : Body l.body l.units
  gap : IsGap l.gap
  after : IsGap l.after

/-- The comma in front of every part but the first. -/
def comma (first : Bool) : List Char :=
  if first then [] else [',']

namespace Phrase

open Label (quoted)

mutual

/-- The characters of a phrase. -/
def chars : Phrase → List Char
  | word _ cs => cs
  | string _ body => quoted body
  | list gap items => '[' :: (gap ++ (itemChars true items ++ [']']))
  | object gap members => '{' :: (gap ++ (memberChars true members ++ ['}']))
termination_by structural tree => tree

def itemChars (first : Bool) : List Item → List Char
  | [] => []
  | ⟨before, item, after⟩ :: items =>
    comma first ++ (before ++ (item.chars ++ (after ++ itemChars false items)))

def memberChars (first : Bool) : List Member → List Char
  | [] => []
  | ⟨label, member, after⟩ :: members =>
    comma first ++ (label.chars ++ (member.chars ++ (after ++ memberChars false members)))

end

mutual

/-- The value that a phrase is read to. -/
def value : Phrase → Value
  | word v _ => v
  | string units _ => .str (joinHalves units)
  | list _ items => .list (itemValues items)
  | object _ members => .map (Entries.ofPairs (memberValues members))
termination_by structural tree => tree

def itemValues : List Item → List Value
  | [] => []
  | ⟨_, item, _⟩ :: items => item.value :: itemValues items

def memberValues : List Member → List (Value × Value)
  | [] => []
  | ⟨label, member, _⟩ :: members => (.str label.name, member.value) :: memberValues members

end

/-- Whether a phrase is written as JSON is. -/
inductive IsJson : Phrase → Prop
  | word {v : Value} {cs rest : List Char} : readScalar? (cs ++ rest) = some (.ok v, rest) →
      IsJson (.word v cs)
  | string {units : Text} {body : List Char} : Body body units → IsJson (.string units body)
  | list {gap : List Char} {items : List Item} : IsGap gap →
      (∀ part ∈ items, IsGap part.lead ∧ IsGap part.after) →
      (∀ part ∈ items, IsJson part.value) → IsJson (.list gap items)
  | object {gap : List Char} {members : List Member} : IsGap gap →
      (∀ part ∈ members, part.lead.IsJson ∧ IsGap part.after) →
      (∀ part ∈ members, IsJson part.value) → IsJson (.object gap members)

/-- Whether items are written as those of a list are. -/
def AreItems (items : List Item) : Prop :=
  ∀ part ∈ items, (IsGap part.lead ∧ IsGap part.after) ∧ part.value.IsJson

/-- Whether members are written as those of an object are. -/
def AreMembers (members : List Member) : Prop :=
  ∀ part ∈ members, (part.lead.IsJson ∧ IsGap part.after) ∧ part.value.IsJson

theorem AreItems.list {gap : List Char} {items : List Item} (h : AreItems items)
    (hgap : IsGap gap) : (list gap items).IsJson :=
  .list hgap (fun part hpart => (h part hpart).1) fun part hpart => (h part hpart).2

theorem AreMembers.object {gap : List Char} {members : List Member} (h : AreMembers members)
    (hgap : IsGap gap) : (object gap members).IsJson :=
  .object hgap (fun part hpart => (h part hpart).1) fun part hpart => (h part hpart).2

end Phrase

end ApiLint.Json
