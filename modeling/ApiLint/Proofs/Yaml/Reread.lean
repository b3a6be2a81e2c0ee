import ApiLint.Proofs.Json.Nodes
import ApiLint.Proofs.Yaml.Content
import ApiLint.Proofs.Yaml.Numbers

/-! The values of JSON in YAML. A phrase has nodes for its parts, and so a value that YAML builds from them
(`build_node`). It differs from the value in JSON in two ways only: a word that is no name or number of both
languages is a text, and halves of pairs that a text writes one by one stay apart. -/
namespace ApiLint

open Json (Item Member Phrase isDigit names joinHalves)
open Yaml (Node build scalarValue kindOfText)

/-! ### Words -/

namespace Json

/-- The names of both languages. -/
def commonNames : List (List Char) :=
  [['n', 'u', 'l', 'l'], ['t', 'r', 'u', 'e'], ['f', 'a', 'l', 's', 'e']]

/-- Whether a word of JSON is a name or a number in YAML too: it has no exponent, or it has a point and a
sign in front of the exponent's digits. -/
def isCommonWord (cs : List Char) : Bool :=
  cs ∈ commonNames ||
    match (Yaml.unsigned cs).dropWhile isDigit with
    | [] => true
    | '.' :: rest => Yaml.isExponent (rest.dropWhile isDigit)
    | _ => false

/-- What YAML takes a word of JSON for. -/
def rereadWord (v : Value) (cs : List Char) : Value :=
  if isCommonWord cs then v else .str (Text.ofChars cs)

/-- Which numbers both languages have in common. -/
theorem isCommonWord_number {n : Number} (h : n.IsJson) : isCommonWord n.chars = n.isCommon := by
  have hname : n.chars ∉ commonNames := by
    obtain ⟨c, hc, hdigit⟩ := h.digit_mem_chars
    have hletters : commonNames.all (fun name => name.all (!·.isDigit)) = true := by decide
    intro hmem
    have hnone := List.all_eq_true.mp (List.all_eq_true.mp hletters _ hmem) c hc
    rw [hdigit] at hnone
    cases hnone
  have htail := (h.takeWhile_size (fun _ hc => hc) (by decide)).2
  rw [isCommonWord, decide_eq_false hname, Bool.false_or, Yaml.unsigned_number h, htail,
    Number.isCommon]
  by_cases hfraction : n.fraction = []
  · rw [Number.tail_of_fraction_nil hfraction, Number.exponentChars, hfraction]
    cases hexponent : n.exponent with
    | none => rfl
    | some e =>
      obtain ⟨letter, sign, digits⟩ := e
      obtain hletter | hletter := (h.exponent _ hexponent).letter <;>
        obtain rfl := hletter <;> rfl
  · have hempty : n.fraction.isEmpty = false := by simpa using hfraction
    have hdrop : (n.fraction ++ n.exponentChars).dropWhile isDigit = n.exponentChars :=
      Yaml.dropWhile_fraction h (fun _ hc => hc) (by decide)
    rw [Number.tail_of_fraction_ne hfraction, hempty]
    simp only [hdrop, Yaml.isExponent_chars h, Bool.not_false, Bool.true_and]

end Json

namespace Yaml

theorem scalarValue_word {v : Value} {cs rest : List Char} (origin : Origin)
    (h : Json.readScalar? (cs ++ rest) = some (.ok v, rest)) :
    scalarValue (kindOfText (Text.ofChars cs)) origin (Text.ofChars cs) =
      .ok (Json.rereadWord v cs) := by
  obtain hname | ⟨n, hn, rfl, hvalue⟩ := Json.exists_word h
  · simp only [names, List.mem_cons, List.not_mem_nil, or_false, Prod.mk.injEq] at hname
    obtain ⟨rfl, rfl⟩ | ⟨rfl, rfl⟩ | ⟨rfl, rfl⟩ | ⟨rfl, rfl⟩ | ⟨rfl, rfl⟩ | ⟨rfl, rfl⟩ := hname <;>
      rfl
  · rw [scalarValue_number hn, Json.rereadWord, Json.isCommonWord_number hn, hvalue]
    split <;> rfl

/-- A text with a value is the value of its scalar. -/
theorem build_scalar {document : Nat} {head : Head} {text : Text} {v : Value}
    (h : scalarValue (scalarKind head.tag text) (.scalar document head.mark.index) text = .ok v) :
    build document (.scalar head text) = .ok v := by
  rw [build]
  split
  · next hcollection =>
    simp only [collectionKinds, List.mem_cons, List.not_mem_nil, or_false] at hcollection
    obtain hkind | hkind | hkind | hkind | hkind := hcollection <;> rw [hkind] at h <;> cases h
  · rw [h]
    rfl

end Yaml

namespace Json.Phrase

mutual

/-- The value that a phrase has in YAML. -/
def reread : Phrase → Value
  | word v cs => rereadWord v cs
  | string units _ => .str units
  | list _ items => .list (itemsReread items)
  | object _ members => .map (Entries.ofPairs (membersReread members))
termination_by structural tree => tree

def itemsReread : List Item → List Value
  | [] => []
  | ⟨_, item, _⟩ :: items => item.reread :: itemsReread items

def membersReread : List Member → List (Value × Value)
  | [] => []
  | ⟨label, member, _⟩ :: members => (.str label.units, member.reread) :: membersReread members

end

variable {tree : Phrase} {document : Nat}

theorem build_itemNodes {items : List Item}
    (h : ∀ part ∈ items, ∀ front, build document (part.value.node front) = .ok part.value.reread)
    (first : Bool) (front : List Char) :
    List.Forall₂ (fun item v => build document item = .ok v) (itemNodes first front items)
      (itemsReread items) := by
  induction items generalizing first front with
  | nil => exact .nil
  | cons part items ih =>
    obtain ⟨hpart, hitems⟩ := List.forall_mem_cons.mp h
    exact .cons (hpart _) (ih hitems _ _)

theorem build_memberNodes {members : List Member}
    (h : ∀ part ∈ members, ∀ front, build document (part.value.node front) = .ok part.value.reread)
    (first : Bool) (front : List Char) :
    List.Forall₂ (fun e q => (build document e.1 = .ok q.1 ∧ q.1.isKey = true) ∧
      build document e.2 = .ok q.2) (memberNodes first front members) (membersReread members) := by
  induction members generalizing first front with
  | nil => exact .nil
  | cons part members ih =>
    obtain ⟨hpart, hmembers⟩ := List.forall_mem_cons.mp h
    exact .cons ⟨⟨Yaml.build_scalar rfl, rfl⟩, hpart _⟩ (ih hmembers _ _)

/-- **What YAML builds from the nodes of a phrase.** -/
theorem IsJson.build_node (h : tree.IsJson) (front : List Char) :
    build document (tree.node front) = .ok tree.reread := by
  induction h generalizing front with
  | word hscalar => exact Yaml.build_scalar (Yaml.scalarValue_word _ hscalar)
  | string _ => exact Yaml.build_scalar rfl
  | list _ _ _ ih =>
    exact (Yaml.build_sequence_eq_ok rfl).mpr ⟨_, build_itemNodes ih _ _, rfl⟩
  | object _ _ _ ih =>
    exact (Yaml.build_mapping_eq_ok rfl).mpr ⟨_, build_memberNodes ih _ _, rfl⟩

/-! ### Common phrases -/

/-- Whether a phrase means the same in both languages: its words do, and no text in it writes the two halves
of a pair one by one. -/
inductive IsCommon : Phrase → Prop
  | word {v : Value} {cs : List Char} : isCommonWord cs = true → IsCommon (.word v cs)
  | string {units : Text} {body : List Char} : joinHalves units = units →
      IsCommon (.string units body)
  | list {gap : List Char} {items : List Item} : (∀ part ∈ items, IsCommon part.value) →
      IsCommon (.list gap items)
  | object {gap : List Char} {members : List Member} :
      (∀ part ∈ members, joinHalves part.lead.units = part.lead.units) →
      (∀ part ∈ members, IsCommon part.value) → IsCommon (.object gap members)

theorem itemsReread_eq {items : List Item} (h : ∀ part ∈ items, part.value.reread = part.value.value) :
    itemsReread items = itemValues items := by
  induction items with
  | nil => rfl
  | cons part items ih =>
    obtain ⟨hpart, hitems⟩ := List.forall_mem_cons.mp h
    exact congrArg₂ _ hpart (ih hitems)

theorem membersReread_eq {members : List Member}
    (hnames : ∀ part ∈ members, joinHalves part.lead.units = part.lead.units)
    (h : ∀ part ∈ members, part.value.reread = part.value.value) :
    membersReread members = memberValues members := by
  induction members with
  | nil => rfl
  | cons part members ih =>
    obtain ⟨hname, hnames⟩ := List.forall_mem_cons.mp hnames
    obtain ⟨hpart, hmembers⟩ := List.forall_mem_cons.mp h
    refine congrArg₂ _ (Prod.ext ?_ hpart) (ih hnames hmembers)
    exact congrArg Value.str hname.symm

theorem IsCommon.reread_eq (h : tree.IsCommon) : tree.reread = tree.value := by
  induction h with
  | word hword => exact if_pos hword
  | string hunits => exact congrArg Value.str hunits.symm
  | list _ ih => exact congrArg Value.list (itemsReread_eq ih)
  | object hnames _ ih =>
    exact congrArg (fun pairs => Value.map (Entries.ofPairs pairs)) (membersReread_eq hnames ih)

end Json.Phrase

end ApiLint
