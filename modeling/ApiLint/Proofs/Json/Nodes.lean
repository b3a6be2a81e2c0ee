import ApiLint.Proofs.Json.Tokens
import ApiLint.Yaml.Node.Reader

/-! The nodes of JSON. From the tokens of a phrase its node is read, which has the parts of the phrase in
their order, each with the mark of its first character; a word is a plain scalar, and a string or a name
is one that is tagged as a text. One name that is no key spoils the whole (`compose_eq`). -/
namespace ApiLint.Json

open Yaml (Head Node Token TokenKind markAfter readFlowEntries readFlowItems readNode standardTag)

/-! ### Nodes -/

/-- Where a string starts, and that it is one. -/
def stringHead (front : List Char) : Head :=
  { mark := markAfter front, tag := some (standardTag ++ "str") }

def Label.node (front : List Char) (l : Label) : Node :=
  .scalar (stringHead (l.start front)) l.units

namespace Phrase

mutual

/-- The node of a phrase behind `front`. -/
def node (front : List Char) : Phrase → Node
  | word _ cs => .scalar { mark := markAfter front } (Text.ofChars cs)
  | string units _ => .scalar (stringHead front) units
  | list gap items =>
    .sequence { mark := markAfter front } (itemNodes true (front ++ '[' :: gap) items)
  | object gap members =>
    .mapping { mark := markAfter front } (memberNodes true (front ++ '{' :: gap) members)
termination_by structural tree => tree

def itemNodes (first : Bool) (front : List Char) : List Item → List Node
  | [] => []
  | ⟨before, item, after⟩ :: items =>
    item.node (front ++ (comma first ++ before)) ::
      itemNodes false (front ++ (comma first ++ (before ++ (item.chars ++ after)))) items

def memberNodes (first : Bool) (front : List Char) : List Member → List (Node × Node)
  | [] => []
  | ⟨label, member, after⟩ :: members =>
    (label.node (front ++ comma first), member.node (front ++ (comma first ++ label.chars))) ::
      memberNodes false (front ++ (comma first ++ (label.chars ++ (member.chars ++ after)))) members

end

/-- Whether something is true of the members of each object in a phrase. -/
inductive Everywhere (P : List Member → Prop) : Phrase → Prop
  | word (v : Value) (cs : List Char) : Everywhere P (.word v cs)
  | string (units : Text) (body : List Char) : Everywhere P (.string units body)
  | list {gap : List Char} {items : List Item} :
      (∀ part ∈ items, Everywhere P part.value) → Everywhere P (.list gap items)
  | object {gap : List Char} {members : List Member} : P members →
      (∀ part ∈ members, Everywhere P part.value) → Everywhere P (.object gap members)

/-- Whether every name can be a key. -/
def NamesFit : Phrase → Prop :=
  Everywhere fun members => ∀ part ∈ members, part.lead.Fits

/-! ### Reading -/

/-- Whether a node starts with a token of this kind. -/
inductive Begins : TokenKind → Prop
  | scalar (text : Text) (plain : Bool) : Begins (.scalar text plain)
  | sequence : Begins .flowSequenceStart
  | mapping : Begins .flowMappingStart

theorem exists_first (tree : Phrase) (front : List Char) :
    ∃ t ts, tree.tokens front = t :: ts ∧ Begins t.kind := by
  cases tree with
  | word v cs => exact ⟨_, [], rfl, .scalar _ _⟩
  | string units body => exact ⟨_, [], rfl, .scalar _ _⟩
  | list gap items => exact ⟨_, _, rfl, .sequence⟩
  | object gap members => exact ⟨_, _, rfl, .mapping⟩

variable {handles : List (String × String)} {anchors : List String} {more ts : List Token}
variable {t : Token} {fuel : Nat}

theorem readNode_list (place : Yaml.Place) (mark : Yaml.Mark) :
    readNode handles place (fuel + 2) ⟨⟨.flowSequenceStart, mark⟩ :: more, anchors⟩ =
      (readFlowItems handles true fuel ⟨more, anchors⟩).map fun r =>
        (.sequence { mark } r.1, r.2) := rfl

theorem readNode_object (place : Yaml.Place) (mark : Yaml.Mark) :
    readNode handles place (fuel + 2) ⟨⟨.flowMappingStart, mark⟩ :: more, anchors⟩ =
      (readFlowEntries handles true fuel ⟨more, anchors⟩).map fun r =>
        (.mapping { mark } r.1, r.2) := rfl

theorem readFlowItems_begins (first : Bool) (front : List Char) (ht : Begins t.kind) :
    readFlowItems handles first (fuel + 1) ⟨commaTokens first front ++ t :: ts, anchors⟩ =
      (do
        let (item, i) ← readNode handles .flow fuel ⟨t :: ts, anchors⟩
        let (items, i) ← readFlowItems handles false fuel i
        return (item :: items, i)) := by
  obtain ⟨kind, m⟩ := t
  cases first <;> cases ht <;> rfl

/-- A member whose name is a key. -/
theorem readFlowEntries_key (first : Bool) (front : List Char) (text : Text) (m₁ m₂ m₃ : Yaml.Mark)
    (ht : Begins t.kind) :
    readFlowEntries handles first (fuel + 4) ⟨commaTokens first front ++
        ⟨.key, m₁⟩ :: ⟨.scalar text false, m₂⟩ :: ⟨.value, m₃⟩ :: t :: ts, anchors⟩ =
      (do
        let (value, i) ← readNode handles .flow (fuel + 1) ⟨t :: ts, anchors⟩
        let (entries, i) ← readFlowEntries handles false (fuel + 3) i
        return ((.scalar { mark := m₂, tag := some (standardTag ++ "str") } text, value) :: entries,
          i)) := by
  obtain ⟨kind, m⟩ := t
  cases first <;> cases ht <;> rfl

/-- A member whose name is no key: its colon comes where a comma should. -/
theorem readFlowEntries_stale (first : Bool) (front : List Char) (text : Text) (m₂ m₃ : Yaml.Mark) :
    readFlowEntries handles first (fuel + 4) ⟨commaTokens first front ++
        ⟨.scalar text false, m₂⟩ :: ⟨.value, m₃⟩ :: ts, anchors⟩ = .error .malformed := by
  cases first <;> rfl

/-! ### Phrases -/

/-- The node of a phrase is read from its tokens when every name is a key, and no node otherwise. -/
def Parses (tree : Phrase) : Prop :=
  ∀ (handles : List (String × String)) (anchors : List String) (place : Yaml.Place)
    (front : List Char) (more : List Token) (fuel : Nat),
    3 * (tree.tokens front).length ≤ fuel →
      (tree.NamesFit → readNode handles place fuel ⟨tree.tokens front ++ more, anchors⟩ =
        .ok (tree.node front, ⟨more, anchors⟩)) ∧
      (¬tree.NamesFit → readNode handles place fuel ⟨tree.tokens front ++ more, anchors⟩ =
        .error .malformed)

theorem tokens_length_pos (tree : Phrase) (front : List Char) : 0 < (tree.tokens front).length := by
  obtain ⟨t, ts, hfirst, -⟩ := tree.exists_first front
  rw [hfirst]
  exact Nat.succ_pos _

section

variable (handles anchors more)

/-- The nodes of the items of a list, read token by token; induction on the items. -/
theorem readFlowItems_eq {items : List Item} (hparse : ∀ part ∈ items, part.value.Parses)
    (mark : Yaml.Mark) (first : Bool) (front : List Char) (fuel : Nat)
    (hfuel : 3 * (itemTokens first front items).length + 1 ≤ fuel) :
    ((∀ part ∈ items, part.value.NamesFit) →
      readFlowItems handles first fuel
          ⟨itemTokens first front items ++ ⟨.flowSequenceEnd, mark⟩ :: more, anchors⟩ =
        .ok (itemNodes first front items, ⟨more, anchors⟩)) ∧
    ((¬∀ part ∈ items, part.value.NamesFit) →
      readFlowItems handles first fuel
          ⟨itemTokens first front items ++ ⟨.flowSequenceEnd, mark⟩ :: more, anchors⟩ =
        .error .malformed) := by
  obtain ⟨fuel, rfl⟩ : ∃ k, fuel = k + 1 := ⟨fuel - 1, by omega⟩
  induction items generalizing first front fuel with
  | nil => exact ⟨fun _ => rfl, fun hnot => absurd nofun hnot⟩
  | cons part items ih =>
    obtain ⟨before, item, after⟩ := part
    obtain ⟨hitem, hparse⟩ := List.forall_mem_cons.mp hparse
    replace hitem : item.Parses := hitem
    simp only [itemTokens, List.length_append] at hfuel
    simp only [itemTokens, List.append_assoc, itemNodes, List.forall_mem_cons]
    have hpos := item.tokens_length_pos (front ++ (comma first ++ before))
    obtain ⟨t, ts, hfirst, ht⟩ := item.exists_first (front ++ (comma first ++ before))
    have hread := hitem handles anchors .flow (front ++ (comma first ++ before))
      (itemTokens false (front ++ (comma first ++ (before ++ (item.chars ++ after)))) items ++
        ⟨.flowSequenceEnd, mark⟩ :: more) fuel (by omega)
    obtain ⟨fuel, rfl⟩ : ∃ k, fuel = k + 1 := ⟨fuel - 1, by omega⟩
    have hrest := ih hparse false
      (front ++ (comma first ++ (before ++ (item.chars ++ after)))) fuel (by omega)
    rw [hfirst, List.cons_append, readFlowItems_begins first front ht, ← List.cons_append, ← hfirst]
    by_cases hfit : item.NamesFit
    · rw [hread.1 hfit]
      refine ⟨fun hall => ?_, fun hnot => ?_⟩
      · show (readFlowItems _ _ _ _ >>= _) = _
        rw [hrest.1 hall.2]
        rfl
      · show (readFlowItems _ _ _ _ >>= _) = _
        rw [hrest.2 fun hall => hnot ⟨hfit, hall⟩]
        rfl
    · rw [hread.2 hfit]
      exact ⟨fun hall => absurd hall.1 hfit, fun _ => rfl⟩

/-- The nodes of the members of an object, read token by token; induction on the members. -/
theorem readFlowEntries_eq {members : List Member} (hparse : ∀ part ∈ members, part.value.Parses)
    (mark : Yaml.Mark) (first : Bool) (front : List Char) (fuel : Nat)
    (hfuel : 3 * (memberTokens first front members).length + 1 ≤ fuel) :
    ((∀ part ∈ members, part.lead.Fits ∧ part.value.NamesFit) →
      readFlowEntries handles first fuel
          ⟨memberTokens first front members ++ ⟨.flowMappingEnd, mark⟩ :: more, anchors⟩ =
        .ok (memberNodes first front members, ⟨more, anchors⟩)) ∧
    ((¬∀ part ∈ members, part.lead.Fits ∧ part.value.NamesFit) →
      readFlowEntries handles first fuel
          ⟨memberTokens first front members ++ ⟨.flowMappingEnd, mark⟩ :: more, anchors⟩ =
        .error .malformed) := by
  obtain ⟨fuel, rfl⟩ : ∃ k, fuel = k + 1 := ⟨fuel - 1, by omega⟩
  induction members generalizing first front fuel with
  | nil => exact ⟨fun _ => rfl, fun hnot => absurd nofun hnot⟩
  | cons part members ih =>
    obtain ⟨label, member, after⟩ := part
    obtain ⟨hmember, hparse⟩ := List.forall_mem_cons.mp hparse
    replace hmember : member.Parses := hmember
    simp only [memberTokens, List.length_append] at hfuel
    simp only [memberTokens, List.append_assoc, memberNodes, List.forall_mem_cons]
    have hpos := member.tokens_length_pos (front ++ (comma first ++ label.chars))
    obtain ⟨t, ts, hfirst, ht⟩ := member.exists_first (front ++ (comma first ++ label.chars))
    by_cases hlabel : label.Fits
    · have hlength : (label.tokens (front ++ comma first)).length = 3 := by
        rw [Label.tokens, if_pos hlabel]
        rfl
      obtain ⟨fuel, rfl⟩ : ∃ k, fuel = k + 3 := ⟨fuel - 3, by omega⟩
      have hread := hmember handles anchors .flow (front ++ (comma first ++ label.chars))
        (memberTokens false (front ++ (comma first ++ (label.chars ++ (member.chars ++ after))))
          members ++ ⟨.flowMappingEnd, mark⟩ :: more) (fuel + 1) (by omega)
      have hrest := ih hparse false
        (front ++ (comma first ++ (label.chars ++ (member.chars ++ after)))) (fuel + 2) (by omega)
      rw [Label.tokens, if_pos hlabel, hfirst]
      simp only [List.cons_append, List.nil_append]
      rw [readFlowEntries_key first front _ _ _ _ ht, ← List.cons_append, ← hfirst]
      by_cases hfit : member.NamesFit
      · rw [hread.1 hfit]
        refine ⟨fun hall => ?_, fun hnot => ?_⟩
        · show (readFlowEntries _ _ _ _ >>= _) = _
          rw [hrest.1 hall.2]
          rfl
        · show (readFlowEntries _ _ _ _ >>= _) = _
          rw [hrest.2 fun hall => hnot ⟨⟨hlabel, hfit⟩, hall⟩]
          rfl
      · rw [hread.2 hfit]
        exact ⟨fun hall => absurd hall.1.2 hfit, fun _ => rfl⟩
    · obtain ⟨fuel, rfl⟩ : ∃ k, fuel = k + 3 := by
        refine ⟨fuel - 3, ?_⟩
        have hlength : (label.tokens (front ++ comma first)).length = 2 := by
          rw [Label.tokens, if_neg hlabel]
          rfl
        omega
      rw [Label.tokens, if_neg hlabel]
      simp only [List.cons_append, List.nil_append]
      exact ⟨fun hall => absurd hall.1.1 hlabel, fun _ => readFlowEntries_stale first front _ _ _⟩

end

theorem namesFit_list {gap : List Char} {items : List Item} :
    (list gap items).NamesFit ↔ ∀ part ∈ items, part.value.NamesFit := by
  constructor
  · rintro (_ | _ | hitems)
    exact hitems
  · exact .list

theorem namesFit_object {gap : List Char} {members : List Member} :
    (object gap members).NamesFit ↔ ∀ part ∈ members, part.lead.Fits ∧ part.value.NamesFit := by
  constructor
  · rintro (_ | _ | _ | ⟨hnames, hmembers⟩)
    exact fun part hpart => ⟨hnames part hpart, hmembers part hpart⟩
  · exact fun hall => .object (fun part hpart => (hall part hpart).1)
      fun part hpart => (hall part hpart).2

/-- Every JSON phrase is parsed to its node, by induction on the phrase; names that do not fit stop the
parser. -/
theorem IsJson.parses {tree : Phrase} (h : tree.IsJson) : tree.Parses := by
  induction h with
  | @word v cs rest _ =>
    intro handles anchors place front more fuel hfuel
    simp only [tokens, List.length_singleton] at hfuel
    obtain ⟨fuel, rfl⟩ : ∃ k, fuel = k + 2 := ⟨fuel - 2, by omega⟩
    exact ⟨fun _ => rfl, fun hnot => absurd (.word v cs) hnot⟩
  | @string units body _ =>
    intro handles anchors place front more fuel hfuel
    simp only [tokens, List.length_singleton] at hfuel
    obtain ⟨fuel, rfl⟩ : ∃ k, fuel = k + 2 := ⟨fuel - 2, by omega⟩
    exact ⟨fun _ => rfl, fun hnot => absurd (.string units body) hnot⟩
  | @list gap items _ _ _ ih =>
    intro handles anchors place front more fuel hfuel
    simp only [tokens, List.length_cons, List.length_append, List.length_nil] at hfuel
    obtain ⟨fuel, rfl⟩ : ∃ k, fuel = k + 2 := ⟨fuel - 2, by omega⟩
    have hread := readFlowItems_eq handles anchors more ih
      (markAfter (front ++ '[' :: (gap ++ itemChars true items))) true (front ++ '[' :: gap) fuel
      (by omega)
    simp only [tokens, List.cons_append, List.append_assoc, List.nil_append]
    rw [readNode_list, namesFit_list]
    refine ⟨fun hall => ?_, fun hnot => ?_⟩
    · rw [hread.1 hall]
      rfl
    · rw [hread.2 hnot]
      rfl
  | @object gap members _ _ _ ih =>
    intro handles anchors place front more fuel hfuel
    simp only [tokens, List.length_cons, List.length_append, List.length_nil] at hfuel
    obtain ⟨fuel, rfl⟩ : ∃ k, fuel = k + 2 := ⟨fuel - 2, by omega⟩
    have hread := readFlowEntries_eq handles anchors more ih
      (markAfter (front ++ '{' :: (gap ++ memberChars true members))) true (front ++ '{' :: gap) fuel
      (by omega)
    simp only [tokens, List.cons_append, List.append_assoc, List.nil_append]
    rw [readNode_object, namesFit_object]
    refine ⟨fun hall => ?_, fun hnot => ?_⟩
    · rw [hread.1 hall]
      rfl
    · rw [hread.2 hnot]
      rfl

/-- **The document of a text that is an object between blanks**: the node of the object, if every name
can be a key, and none otherwise. -/
theorem compose_eq {gap lead trail : List Char} {members : List Member}
    (hjson : (object gap members).IsJson) (hlead : IsGap lead) (htrail : IsGap trail)
    (hclear : Yaml.IsClear (lead ++ ((object gap members).chars ++ trail))) :
    ((object gap members).NamesFit →
      Yaml.compose ⟨lead ++ ((object gap members).chars ++ trail), none⟩ =
        .ok (.ofRoot ((object gap members).node lead))) ∧
    (¬(object gap members).NamesFit →
      Yaml.compose ⟨lead ++ ((object gap members).chars ++ trail), none⟩ = .error .malformed) := by
  have htokens := tokens_eq hjson hlead htrail hclear
  generalize markAfter (lead ++ ((object gap members).chars ++ trail)) = mark at htokens
  generalize hstop : ([⟨.streamEnd, mark⟩] : List Token) = stop at htokens
  have hend : Yaml.readEnd ⟨stop, []⟩ = .ok () := by rw [← hstop]; rfl
  have hread := hjson.parses Yaml.defaultHandles [] .document lead stop
    (4 * ((object gap members).tokens lead ++ stop).length + 8) (by simp; omega)
  have hcompose : Yaml.compose ⟨lead ++ ((object gap members).chars ++ trail), none⟩ = (do
      let (node, i) ← readNode Yaml.defaultHandles .document
        (4 * ((object gap members).tokens lead ++ stop).length + 8)
        ⟨(object gap members).tokens lead ++ stop, []⟩
      Yaml.readEnd i
      return .ofRoot node) := by
    rw [Yaml.compose, htokens]
    rfl
  rw [hcompose]
  refine ⟨fun hfit => ?_, fun hnot => ?_⟩
  · rw [hread.1 hfit]
    show (Yaml.readEnd ⟨stop, []⟩ >>= _) = _
    rw [hend]
    rfl
  · rw [hread.2 hnot]
    rfl

end Phrase

end ApiLint.Json
