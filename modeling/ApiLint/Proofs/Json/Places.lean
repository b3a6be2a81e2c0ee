import ApiLint.Proofs.Json.Nodes
import ApiLint.Proofs.Json.Sound
import ApiLint.Proofs.Value.Kept

/-! Places in JSON as it is written. A step leads to an item of a list or to a member of an object, and
where several members have one name there is a choice. The value that is read has at a place what stands
there by the last member of each name (`at?_iff`). -/
namespace ApiLint.Json.Phrase

variable {front marker place : List Char} {tree child : Phrase} {s : Step} {p : List Step}
variable {v w : Value}

/-! ### Choices -/

/-- Which members are taken for a name, from what stands in front of a member and behind it. -/
abbrev Choice := List Member → Label → List Member → Text → Prop

/-- The last member with a name. -/
def Kept : Choice := fun _ label later name =>
  label.name = name ∧ ∀ part ∈ later, part.lead.name ≠ name

/-- The first member whose label writes the code points of a name one by one. -/
def Found : Choice := fun earlier label _ name =>
  label.units = name ∧ ∀ part ∈ earlier, part.lead.units ≠ name

/-- The only member with a name, which is written code point by code point. -/
def Sole : Choice := fun earlier label later name =>
  (label.name = name ∧ label.units = name) ∧ ∀ part ∈ earlier ++ later, part.lead.name ≠ name

theorem Sole.kept {earlier later : List Member} {label : Label} {name : Text}
    (h : Sole earlier label later name) : Kept earlier label later name :=
  ⟨h.1.1, (List.forall_mem_append.mp h.2).2⟩

theorem Sole.found {earlier later : List Member} {label : Label} {name : Text}
    (h : Sole earlier label later name) : Found earlier label later name := by
  obtain ⟨⟨hname, hunits⟩, hother⟩ := h
  refine ⟨hunits, fun part hpart hsame => hother part (List.mem_append_left _ hpart) ?_⟩
  rw [Label.name, hsame, ← hunits]
  exact hname.trans hunits.symm

/-! ### Steps -/

/-- The characters in front of an item of a list that starts behind `front`. -/
def itemFront (front gap : List Char) (earlier : List Item) (before : List Char) : List Char :=
  front ++ '[' :: (gap ++ (itemChars true earlier ++ (comma earlier.isEmpty ++ before)))

/-- The characters in front of the label of a member, up to its blanks. -/
def memberFront (front gap : List Char) (earlier : List Member) : List Char :=
  front ++ '{' :: (gap ++ (memberChars true earlier ++ comma earlier.isEmpty))

/-- One step into a phrase behind `front`. The characters in front of the name of the member, or of the
item itself, are `marker`, and those in front of the part that the step leads to are `place`. -/
inductive Enters (choice : Choice) (front : List Char) :
    Phrase → Step → List Char → List Char → Phrase → Prop
  | item (earlier : List Item) {gap before after : List Char} {later : List Item} {child : Phrase} :
      Enters choice front (.list gap (earlier ++ ⟨before, child, after⟩ :: later))
        (.whole earlier.length) (itemFront front gap earlier before)
        (itemFront front gap earlier before) child
  | member (earlier : List Member) {gap after : List Char} {later : List Member} {label : Label}
      {child : Phrase} {name : Text} : choice earlier label later name →
      Enters choice front (.object gap (earlier ++ ⟨label, child, after⟩ :: later)) (.text name)
        (memberFront front gap earlier ++ label.before) (memberFront front gap earlier ++ label.chars)
        child

/-- One step or more into a phrase. The characters in front of what the last one leads to are
`marker`. -/
inductive Reaches (choice : Choice) :
    List Char → Phrase → List Step → List Char → Phrase → Prop
  | last {front marker place : List Char} {tree child : Phrase} {s : Step} :
      tree.Enters choice front s marker place child → Reaches choice front tree [s] marker child
  | step {front marker marker' place : List Char} {tree child child' : Phrase} {s : Step}
      {p : List Step} : tree.Enters choice front s marker' place child' →
      Reaches choice place child' p marker child → Reaches choice front tree (s :: p) marker child

variable {choice choice' : Choice}

theorem Enters.mono
    (hchoice : ∀ earlier label later name, choice earlier label later name →
      choice' earlier label later name) (h : tree.Enters choice front s marker place child) :
    tree.Enters choice' front s marker place child := by
  cases h with
  | item earlier => exact .item earlier
  | member earlier h => exact .member earlier (hchoice _ _ _ _ h)

theorem Reaches.mono
    (hchoice : ∀ earlier label later name, choice earlier label later name →
      choice' earlier label later name) (h : Reaches choice front tree p marker child) :
    Reaches choice' front tree p marker child := by
  induction h with
  | last henter => exact .last (henter.mono hchoice)
  | step henter _ ih => exact .step (henter.mono hchoice) ih

theorem Reaches.ne_nil (h : Reaches choice front tree p marker child) : p ≠ [] := by
  cases h <;> exact List.cons_ne_nil _ _

theorem Enters.isJson (h : tree.IsJson) (henter : tree.Enters choice front s marker place child) :
    child.IsJson := by
  cases henter with
  | item _ =>
    cases h with
    | list _ _ hitems => exact hitems _ (List.mem_append_right _ List.mem_cons_self)
  | member _ _ =>
    cases h with
    | object _ _ hmembers => exact hmembers _ (List.mem_append_right _ List.mem_cons_self)

theorem Enters.everywhere {P : List Member → Prop} (h : tree.Everywhere P)
    (henter : tree.Enters choice front s marker place child) : child.Everywhere P := by
  cases henter with
  | item _ =>
    cases h with
    | list hitems => exact hitems _ (List.mem_append_right _ List.mem_cons_self)
  | member _ _ =>
    cases h with
    | object _ hmembers => exact hmembers _ (List.mem_append_right _ List.mem_cons_self)

/-! ### Names -/

/-- Whether the members of each object have different names. -/
def NamesDiffer : Phrase → Prop :=
  Everywhere fun members => (members.map fun part => part.lead.name).Nodup

/-- Whether a name is written code point by code point wherever a member has it, and no character of it
as the two halves of a pair. -/
def Spells (name : Text) : Phrase → Prop :=
  Everywhere fun members => ∀ part ∈ members, part.lead.name = name → part.lead.units = name

/-- Among different names that are written code point by code point there is no choice. -/
theorem Enters.sole (hdiffer : tree.NamesDiffer) (hspells : ∀ name, s = .text name → tree.Spells name)
    (h : tree.Enters Kept front s marker place child) :
    tree.Enters Sole front s marker place child := by
  cases h with
  | item earlier => exact .item earlier
  | @member earlier gap after later label child name hkept =>
    obtain ⟨hname, -⟩ := hkept
    refine .member earlier ⟨⟨hname, ?_⟩, fun part hpart hsame => ?_⟩
    · cases hspells name rfl with
      | object hunits _ => exact hunits _ (List.mem_append_right _ List.mem_cons_self) hname
    · cases hdiffer with
      | object hnodup _ =>
        rw [List.map_append, List.map_cons, List.nodup_middle, ← List.map_append,
          List.nodup_cons] at hnodup
        exact hnodup.1 (List.mem_map.mpr ⟨part, hpart, hsame.trans hname.symm⟩)

/-- Where names differ, the last member with a name is the only one. -/
theorem Reaches.sole (hdiffer : tree.NamesDiffer)
    (hspells : ∀ name, .text name ∈ p → tree.Spells name)
    (h : Reaches Kept front tree p marker child) : Reaches Sole front tree p marker child := by
  induction h with
  | last henter =>
    refine .last (henter.sole hdiffer fun name hname => hspells name ?_)
    exact List.mem_singleton.mpr hname.symm
  | step henter _ ih =>
    refine .step (henter.sole hdiffer fun name hname => hspells name ?_) ?_
    · exact List.mem_cons.mpr (.inl hname.symm)
    · exact ih (henter.everywhere hdiffer) fun name hname =>
        henter.everywhere (hspells name (List.mem_cons_of_mem _ hname))

/-! ### Characters -/

theorem itemChars_append (first : Bool) (earlier later : List Item) :
    itemChars first (earlier ++ later) =
      itemChars first earlier ++ itemChars (first && earlier.isEmpty) later := by
  induction earlier generalizing first with
  | nil => simp [itemChars]
  | cons part earlier ih => simp [itemChars, ih]

theorem memberChars_append (first : Bool) (earlier later : List Member) :
    memberChars first (earlier ++ later) =
      memberChars first earlier ++ memberChars (first && earlier.isEmpty) later := by
  induction earlier generalizing first with
  | nil => simp [memberChars]
  | cons part earlier ih => simp [memberChars, ih]

/-- What is in front of a place and the part there are a beginning of the whole. -/
theorem Enters.prefix (h : tree.Enters choice front s marker place child) :
    marker <+: place ∧ place ++ child.chars <+: front ++ tree.chars := by
  cases h with
  | @item earlier gap before after later child =>
    refine ⟨List.prefix_rfl, after ++ (itemChars false later ++ [']']), ?_⟩
    simp [itemFront, chars, itemChars_append, itemChars]
  | @member earlier gap after later label child name _ =>
    refine ⟨⟨Label.quoted label.body ++ (label.gap ++ ':' :: label.after), ?_⟩,
      after ++ (memberChars false later ++ ['}']), ?_⟩
    · simp [Label.chars]
    · simp [memberFront, chars, memberChars_append, memberChars]

theorem Reaches.prefix (h : Reaches choice front tree p marker child) :
    marker <+: front ++ tree.chars := by
  induction h with
  | last henter =>
    obtain ⟨hmarker, hplace⟩ := henter.prefix
    exact (hmarker.trans (List.prefix_append _ _)).trans hplace
  | step henter _ ih => exact ih.trans henter.prefix.2

/-! ### Values -/

theorem itemValues_eq_map (items : List Item) :
    itemValues items = items.map fun part => part.value.value := by
  induction items with
  | nil => rfl
  | cons part items ih => rw [itemValues, ih, List.map_cons]

theorem memberValues_eq_map (members : List Member) :
    memberValues members = members.map fun part => (.str part.lead.name, part.value.value) := by
  induction members with
  | nil => rfl
  | cons part members ih => rw [memberValues, ih, List.map_cons]

/-- An item of the list of values is the value of an item of the phrase. -/
theorem getElem?_itemValues {items : List Item} {i : Nat} :
    (itemValues items)[i]? = some w ↔ ∃ earlier part later,
      items = earlier ++ part :: later ∧ earlier.length = i ∧ part.value.value = w := by
  rw [itemValues_eq_map, List.getElem?_map]
  constructor
  · intro h
    obtain ⟨part, hpart, rfl⟩ := Option.map_eq_some_iff.mp h
    obtain ⟨hi, rfl⟩ := List.getElem?_eq_some_iff.mp hpart
    refine ⟨items.take i, items[i], items.drop (i + 1), ?_, List.length_take_of_le hi.le, rfl⟩
    rw [← List.drop_eq_getElem_cons hi, List.take_append_drop]
  · rintro ⟨earlier, part, later, rfl, rfl, rfl⟩
    simp

/-- Of members with one name the last one is kept. -/
theorem find?_memberValues {members : List Member} :
    (Entries.ofPairs (memberValues members)).find? s.value = some w ↔
      ∃ earlier part later, members = earlier ++ part :: later ∧
        (∃ name, s = .text name ∧ Kept earlier part.lead later name) ∧ part.value.value = w := by
  have hsteps : Entries.AreSteps (memberValues members) := by
    rw [memberValues_eq_map]
    intro e he
    obtain ⟨part, -, rfl⟩ := List.mem_map.mp he
    exact ⟨.text part.lead.name, rfl⟩
  rw [Entries.find?_ofPairs_iff hsteps, memberValues_eq_map]
  constructor
  · rintro ⟨before, after, hsplit, hafter⟩
    obtain ⟨earlier, rest, rfl, -, hrest⟩ := List.map_eq_append_iff.mp hsplit
    obtain ⟨part, later, rfl, hpart, rfl⟩ := List.map_eq_cons_iff.mp hrest
    obtain ⟨hname, hvalue⟩ := Prod.mk.inj hpart
    cases s with
    | whole i => cases hname
    | text name =>
      refine ⟨earlier, part, later, rfl, ⟨name, rfl, Value.str.inj hname, ?_⟩, hvalue⟩
      exact fun other hother hsame =>
        hafter _ (List.mem_map_of_mem hother) (congrArg Value.str hsame)
  · rintro ⟨earlier, part, later, rfl, ⟨name, rfl, rfl, hlater⟩, rfl⟩
    refine ⟨_, _, List.map_append, fun e he hsame => ?_⟩
    obtain ⟨other, hother, rfl⟩ := List.mem_map.mp he
    exact hlater other hother (Value.str.inj hsame)

/-- One step into the value. -/
theorem part?_iff (h : tree.IsJson) (front : List Char) :
    tree.value.part? s = some w ↔
      ∃ marker place child, tree.Enters Kept front s marker place child ∧ child.value = w := by
  cases h with
  | @word v cs rest hread =>
    have hscalar := isScalar_of_readScalar? hread
    constructor
    · intro hpart
      cases v <;> cases hscalar <;> cases hpart
    · rintro ⟨marker, place, child, henter, -⟩
      cases henter
  | string hbody =>
    constructor
    · intro hpart
      cases hpart
    · rintro ⟨marker, place, child, henter, -⟩
      cases henter
  | @list gap items _ _ _ =>
    constructor
    · intro hpart
      cases s with
      | text name => cases hpart
      | whole i =>
        obtain ⟨hi, hpart⟩ := Option.ite_none_right_eq_some.mp hpart
        obtain ⟨earlier, ⟨before, child, after⟩, later, rfl, hlength, hvalue⟩ :=
          getElem?_itemValues.mp hpart
        obtain rfl : i = (earlier.length : Int) := by omega
        exact ⟨_, _, child, .item earlier, hvalue⟩
    · rintro ⟨marker, place, child, henter, rfl⟩
      cases henter with
      | @item earlier gap before after later child =>
        refine Option.ite_none_right_eq_some.mpr ⟨Int.natCast_nonneg earlier.length, ?_⟩
        exact getElem?_itemValues.mpr ⟨earlier, _, later, rfl, rfl, rfl⟩
  | @object gap members _ _ _ =>
    constructor
    · intro hpart
      obtain ⟨earlier, ⟨label, child, after⟩, later, rfl, ⟨name, rfl, hkept⟩, hvalue⟩ :=
        find?_memberValues.mp hpart
      exact ⟨_, _, child, .member earlier hkept, hvalue⟩
    · rintro ⟨marker, place, child, henter, rfl⟩
      cases henter with
      | member _ hkept => exact find?_memberValues.mpr ⟨_, _, _, rfl, ⟨_, rfl, hkept⟩, rfl⟩

/-- **Under each name stands the value of the last member with it.** -/
theorem at?_iff (h : tree.IsJson) (front : List Char) (hp : p ≠ []) :
    tree.value.at? p = some w ↔
      ∃ marker child, Reaches Kept front tree p marker child ∧ child.value = w := by
  induction p generalizing tree front with
  | nil => exact absurd rfl hp
  | cons s p ih =>
    show (tree.value.part? s).bind (Value.at? p) = some w ↔ _
    rw [Option.bind_eq_some_iff]
    constructor
    · intro hat
      obtain ⟨part, hpart, hrest⟩ := hat
      obtain ⟨marker, place, child, henter, rfl⟩ := (part?_iff h front).mp hpart
      obtain rfl | hp := eq_or_ne p []
      · exact ⟨marker, child, .last henter, Option.some.inj hrest⟩
      · obtain ⟨marker, last, hreach, hlast⟩ := (ih (henter.isJson h) place hp).mp hrest
        exact ⟨marker, last, .step henter hreach, hlast⟩
    · rintro ⟨marker, child, hreach, rfl⟩
      cases hreach with
      | last henter => exact ⟨_, (part?_iff h front).mpr ⟨_, _, _, henter, rfl⟩, rfl⟩
      | @step _ _ _ place _ child' _ _ _ henter hreach =>
        refine ⟨_, (part?_iff h front).mpr ⟨_, _, _, henter, rfl⟩, ?_⟩
        exact (ih (henter.isJson h) place hreach.ne_nil).mpr ⟨marker, child, hreach, rfl⟩

end ApiLint.Json.Phrase
