import ApiLint.Proofs.Document.Loading
import ApiLint.Proofs.Document.Named
import ApiLint.Proofs.Engine.Frame
import ApiLint.Proofs.Equality
import ApiLint.Proofs.Json.Places

/-! The lines of JSON. A document in JSON is read by one reader and located by another, one for YAML,
which finds the same parts at the same characters. So the line of a place is one more than the newlines
in front of what its last step leads to (`lineOf_json`). It is so unless the text is one that the two
readers take in different ways: a character that may not stand in YAML or that ends a line there only, a
name that is no key there, or a character of a name that is written as two halves. -/
namespace ApiLint

open Json (Item Member Phrase comma)
open Json.Phrase (Kept Found Sole Reaches)
open Yaml (Node isAllowed isBreak markAfter)

namespace Json.Phrase

variable {front marker place : List Char} {tree child : Phrase} {s : Step} {p : List Step}

/-! ### Nodes -/

theorem line_node (tree : Phrase) (front : List Char) :
    (tree.node front).line = front.count '\n' := by
  cases tree <;> rfl

theorem Label.isName_node (front : List Char) (l : Label) : (l.node front).IsName :=
  .text _ _ rfl

theorem isNamed_itemNodes {items : List Item}
    (h : ∀ part ∈ items, ∀ front, (part.value.node front).IsNamed) (first : Bool)
    (front : List Char) : ∀ node ∈ itemNodes first front items, node.IsNamed := by
  induction items generalizing first front with
  | nil => exact List.forall_mem_nil _
  | cons part items ih =>
    obtain ⟨hpart, hitems⟩ := List.forall_mem_cons.mp h
    exact List.forall_mem_cons.mpr ⟨hpart _, ih hitems _ _⟩

theorem isNamed_memberNodes {members : List Member}
    (h : ∀ part ∈ members, ∀ front, (part.value.node front).IsNamed) (first : Bool)
    (front : List Char) :
    ∀ e ∈ memberNodes first front members, e.1.IsName ∧ e.2.IsNamed := by
  induction members generalizing first front with
  | nil => exact List.forall_mem_nil _
  | cons part members ih =>
    obtain ⟨hpart, hmembers⟩ := List.forall_mem_cons.mp h
    exact List.forall_mem_cons.mpr ⟨⟨Label.isName_node _ _, hpart _⟩, ih hmembers _ _⟩

theorem IsJson.isNamed (h : tree.IsJson) (front : List Char) : (tree.node front).IsNamed := by
  induction h generalizing front with
  | word _ => exact .scalar _ _
  | string _ => exact .scalar _ _
  | list _ _ _ ih => exact .sequence _ _ rfl (isNamed_itemNodes ih _ _)
  | object _ _ _ ih =>
    have hmembers := isNamed_memberNodes ih
    exact .mapping _ _ rfl (fun e he => (hmembers _ _ e he).1) fun e he => (hmembers _ _ e he).2

theorem itemNodes_append (first : Bool) (front : List Char) (earlier later : List Item) :
    itemNodes first front (earlier ++ later) = itemNodes first front earlier ++
      itemNodes (first && earlier.isEmpty) (front ++ itemChars first earlier) later := by
  induction earlier generalizing first front with
  | nil => simp [itemNodes, itemChars]
  | cons part earlier ih => simp [itemNodes, itemChars, ih]

theorem memberNodes_append (first : Bool) (front : List Char) (earlier later : List Member) :
    memberNodes first front (earlier ++ later) = memberNodes first front earlier ++
      memberNodes (first && earlier.isEmpty) (front ++ memberChars first earlier) later := by
  induction earlier generalizing first front with
  | nil => simp [memberNodes, memberChars]
  | cons part earlier ih => simp [memberNodes, memberChars, ih]

theorem length_itemNodes (first : Bool) (front : List Char) (items : List Item) :
    (itemNodes first front items).length = items.length := by
  induction items generalizing first front with
  | nil => rfl
  | cons part items ih => rw [itemNodes, List.length_cons, ih, List.length_cons]

theorem name_memberNodes {members : List Member} {first : Bool} {front : List Char}
    {e : Node × Node} (he : e ∈ memberNodes first front members) :
    ∃ part ∈ members, e.1.name = part.lead.units := by
  induction members generalizing first front with
  | nil => cases he
  | cons part members ih =>
    obtain rfl | he := List.mem_cons.mp he
    · exact ⟨part, List.mem_cons_self, rfl⟩
    · obtain ⟨part, hpart, hname⟩ := ih he
      exact ⟨part, List.mem_cons_of_mem _ hpart, hname⟩

/-! ### Steps -/

/-- A step to a first member is one to a first entry. -/
theorem Enters.node (h : tree.Enters Found front s marker place child) :
    (tree.node front).Enters Node.Found s (marker.count '\n') (child.node place) := by
  cases h with
  | @item earlier gap before after later child =>
    rw [← line_node child]
    refine .item ?_
    rw [itemNodes_append, List.getElem?_append_right (by rw [length_itemNodes]), length_itemNodes,
      Nat.sub_self, itemNodes]
    simp [itemFront]
  | @member earlier gap after later label child name hfound =>
    obtain ⟨hname, hother⟩ := hfound
    have hnodes : memberNodes true (front ++ '{' :: gap) (earlier ++ ⟨label, child, after⟩ :: later) =
        memberNodes true (front ++ '{' :: gap) earlier ++
          (label.node (memberFront front gap earlier),
            child.node (memberFront front gap earlier ++ label.chars)) ::
          memberNodes false (memberFront front gap earlier ++ (label.chars ++ (child.chars ++ after)))
            later := by
      rw [memberNodes_append, memberNodes]
      simp [memberFront]
    rw [Phrase.node, hnodes]
    refine .entry ⟨⟨rfl, hname⟩, fun e he => ?_⟩
    obtain ⟨part, hpart, hsame⟩ := name_memberNodes he
    rw [hsame]
    exact hother part hpart

theorem Reaches.node (h : Reaches Found front tree p marker child) :
    ∃ place, (tree.node front).Reaches Node.Found p (marker.count '\n') (child.node place) := by
  induction h with
  | last henter => exact ⟨_, .last henter.node⟩
  | step henter _ ih =>
    obtain ⟨place, hreach⟩ := ih
    exact ⟨place, .step henter.node hreach⟩

/-- Whether no step leads on: there is no item at the index, or no label that writes the step code point
by code point. -/
def Lacks (s : Step) : Phrase → Prop
  | word _ _ | string _ _ => True
  | list _ items => ∃ i, s = .whole i ∧ ¬(0 ≤ i ∧ i < items.length)
  | object _ members =>
    s.value.hasLongNumeral = false ∧ ∀ part ∈ members, part.lead.units ≠ s.value.text

/-- A step that a phrase has no place for stops the locator at its node. -/
theorem Lacks.stops (h : tree.Lacks s) (front : List Char) : (tree.node front).Stops s.value := by
  cases tree with
  | word v cs => trivial
  | string units body => trivial
  | list gap items =>
    obtain ⟨i, rfl, houtside⟩ := h
    refine ⟨some i, rfl, fun j hj => ?_⟩
    obtain rfl := Option.some.inj hj
    rwa [length_itemNodes]
  | object gap members =>
    obtain ⟨hshort, hother⟩ := h
    refine ⟨fun hlong => ?_, fun e he => ?_⟩
    · rw [hshort] at hlong
      cases hlong
    · obtain ⟨part, hpart, hname⟩ := name_memberNodes he
      rw [hname]
      exact hother part hpart

end Json.Phrase

namespace Document

open Json (IsGap)

variable {disk : Disk} {path : Path} {d : Document} {lead trail marker : List Char}
variable {tree child : Phrase} {p : List Step}

/-! ### Documents -/

/-- A document is written as a phrase between blanks, which is an object. -/
structure IsWritten (d : Document) (lead : List Char) (tree : Phrase) (trail : List Char) : Prop where
  contents : d.contents = .ofChars (lead ++ (tree.chars ++ trail))
  front : IsGap lead
  back : IsGap trail
  isJson : tree.IsJson
  data : tree.value = d.data
  isObject : ∃ gap members, tree = .object gap members
  tab : '\t' ∉ lead ++ (tree.chars ++ trail)

/-- Whether both readers take a text in the same way: its characters may stand in YAML, and only newlines
end lines. -/
def IsShared (cs : List Char) : Prop :=
  ∀ c ∈ cs, isAllowed c = true ∧ (isBreak c = true → c = '\n')

instance (cs : List Char) : Decidable (IsShared cs) :=
  List.decidableBAll _ cs

/-- The line that the locator gives for a place of a document. -/
def HasLine (d : Document) (place : List Value) (line : Nat) : Prop :=
  ∃ l, Locator.ofText d.contents = .ok l ∧ l.lineOf place = .ok line

/-- A JSON document was written in some way: what is read is spelled by a phrase with blanks around it.
-/
theorem exists_isWritten (hload : load disk path = .ok d) (hformat : format? path = some .json) :
    ∃ lead tree trail, d.IsWritten lead tree trail := by
  obtain ⟨rfl, hdecodes, hparse, hversion⟩ := load_eq_ok.mp hload
  obtain ⟨cs, hcs⟩ := hdecodes.exists_ofChars
  rw [parse, hformat] at hparse
  have hread : Json.read d.contents = .ok d.data := Except.mapError_ok_iff.mp hparse
  rw [hcs] at hread
  obtain ⟨lead, trail, tree, rfl, hlead, htrail, hjson, hdata⟩ := Json.read_spells hread
  refine ⟨lead, tree, trail, hcs, hlead, htrail, hjson, hdata, ?_, ?_⟩
  · obtain ⟨hdeclares, -⟩ := versionOf_eq_some.mp hversion
    have hmap : ∃ entries, d.data.opened = .map entries := by
      generalize d.version = version at hdeclares
      cases hdeclares with
      | current hmap _ _ => exact ⟨_, hmap⟩
      | older hmap _ _ => exact ⟨_, hmap⟩
    obtain ⟨entries, hmap⟩ := hmap
    rw [← hdata] at hmap
    cases hjson with
    | @word v cs rest hscalar =>
      have hv := Json.isScalar_of_readScalar? hscalar
      cases v <;> cases hv <;> cases hmap
    | string _ => cases hmap
    | list _ _ _ => cases hmap
    | object _ _ _ => exact ⟨_, _, rfl⟩
  · intro htab
    obtain ⟨bytes, cs, -, -, hprepare⟩ := hdecodes
    refine tab_not_mem_expandTabs (stripMark (Text.ofChars (Text.plainNewlines cs))) ?_
    rw [show expandTabs _ = d.contents from hprepare.symm, hcs]
    exact List.mem_map_of_mem htab

/-! ### Lines -/

theorem hasLine_of_malformed (h : Yaml.compose (.ofText d.contents) = .error .malformed)
    (place : List Value) : d.HasLine place 0 := by
  exact ⟨⟨.empty⟩, Locator.ofText_of_malformed h, Locator.lineOf_empty place⟩

namespace IsWritten

theorem isClear (h : d.IsWritten lead tree trail)
    (hshared : IsShared (lead ++ (tree.chars ++ trail))) :
    Yaml.IsClear (lead ++ (tree.chars ++ trail)) :=
  fun c hc => ⟨fun htab => h.tab (htab ▸ hc), (hshared c hc).2⟩

/-- A character that may not stand in YAML takes the lines away. -/
theorem hasLine_of_not_allowed (h : d.IsWritten lead tree trail)
    (hnot : ∃ c ∈ lead ++ (tree.chars ++ trail), isAllowed c = false) (place : List Value) :
    d.HasLine place 0 := by
  have hall : (lead ++ (tree.chars ++ trail)).all isAllowed = false :=
    List.all_eq_false.mpr (by simpa using hnot)
  refine hasLine_of_malformed ?_ place
  rw [h.contents, Yaml.Source.ofText, Text.chars?_ofChars]
  simp only [hall]
  rfl

theorem ofText (h : d.IsWritten lead tree trail)
    (hshared : IsShared (lead ++ (tree.chars ++ trail))) :
    Yaml.Source.ofText d.contents = ⟨lead ++ (tree.chars ++ trail), none⟩ := by
  have hall : (lead ++ (tree.chars ++ trail)).all isAllowed = true :=
    List.all_eq_true.mpr fun c hc => (hshared c hc).1
  rw [h.contents, Yaml.Source.ofText, Text.chars?_ofChars]
  simp only [hall]
  rfl

/-- A name that is no key takes the lines away. -/
theorem hasLine_of_not_namesFit (h : d.IsWritten lead tree trail)
    (hshared : IsShared (lead ++ (tree.chars ++ trail))) (hnot : ¬tree.NamesFit)
    (place : List Value) : d.HasLine place 0 := by
  refine hasLine_of_malformed ?_ place
  rw [h.ofText hshared]
  have hclear := h.isClear hshared
  obtain ⟨gap, members, rfl⟩ := h.isObject
  exact (Phrase.compose_eq h.isJson h.front h.back hclear).2 hnot

/-- Where all names are keys, steps from first member to first member are followed. -/
theorem hasLine_of_reaches (h : d.IsWritten lead tree trail)
    (hshared : IsShared (lead ++ (tree.chars ++ trail))) (hfit : tree.NamesFit)
    (hreach : Reaches Found lead tree p marker child) :
    d.HasLine (p.map Step.value) (marker.count '\n' + 1) ∧ ∀ s rest, child.Lacks s →
      d.HasLine (p.map Step.value ++ s.value :: rest) (marker.count '\n' + 1) := by
  have hlocator : Locator.ofText d.contents = .ok ⟨.ofRoot (tree.node lead)⟩ := by
    apply Locator.ofText_of_composed
    rw [h.ofText hshared]
    have hclear := h.isClear hshared
    obtain ⟨gap, members, rfl⟩ := h.isObject
    exact (Phrase.compose_eq h.isJson h.front h.back hclear).1 hfit
  obtain ⟨place, hnodes⟩ := hreach.node
  obtain ⟨hline, hstop⟩ := Locator.lineOf_of_reaches (l := ⟨.ofRoot (tree.node lead)⟩) rfl
    (h.isJson.isNamed lead) hnodes
  refine ⟨⟨_, hlocator, hline⟩, fun s rest hlacks => ⟨_, hlocator, ?_⟩⟩
  exact hstop s.value rest (hlacks.stops place)

end IsWritten

/-- **The lines of a document in JSON.** In a text that both readers take in the same way and whose names
are keys and differ, each place of the data has the line of what its last step leads to, if the names on
the way are written code point by code point; a step whose name is not ends the way. A character that may
not stand in YAML, or a name that is no key, takes all lines away. -/
theorem lineOf_json (hload : load disk path = .ok d) (hformat : format? path = some .json) :
    (∃ lead tree trail, d.IsWritten lead tree trail) ∧
      ∀ lead tree trail, d.IsWritten lead tree trail →
        ((∃ c ∈ lead ++ (tree.chars ++ trail), isAllowed c = false) →
          ∀ place, d.HasLine place 0) ∧
        (IsShared (lead ++ (tree.chars ++ trail)) →
          (¬tree.NamesFit → ∀ place, d.HasLine place 0) ∧
          (tree.NamesFit → ∀ p marker child, Reaches Found lead tree p marker child →
            ∀ s rest, child.Lacks s →
              d.HasLine (p.map Step.value ++ s.value :: rest) (marker.count '\n' + 1)) ∧
          (tree.NamesFit → tree.NamesDiffer → ∀ p w, p ≠ [] → d.data.at? p = some w →
            ∃ marker child, Reaches Kept lead tree p marker child ∧ child.value = w ∧
              marker <+: lead ++ (tree.chars ++ trail) ∧
              ((∀ name, .text name ∈ p → tree.Spells name) →
                d.HasLine (p.map Step.value) (marker.count '\n' + 1)))) := by
  refine ⟨exists_isWritten hload hformat, fun lead tree trail hwritten => ?_⟩
  refine ⟨hwritten.hasLine_of_not_allowed, fun hshared => ?_⟩
  refine ⟨hwritten.hasLine_of_not_namesFit hshared, fun hfit p marker child hreach => ?_,
    fun hfit hdiffer p w hp hat => ?_⟩
  · exact (hwritten.hasLine_of_reaches hshared hfit hreach).2
  · rw [← hwritten.data] at hat
    obtain ⟨marker, child, hreach, hvalue⟩ := (Phrase.at?_iff hwritten.isJson lead hp).mp hat
    refine ⟨marker, child, hreach, hvalue, ?_, fun hspells => ?_⟩
    · rw [← List.append_assoc]
      exact hreach.prefix.trans (List.prefix_append _ _)
    · have hsole := hreach.sole hdiffer hspells
      have hfound := hsole.mono fun _ _ _ _ htaken => htaken.found
      exact (hwritten.hasLine_of_reaches hshared hfit hfound).1

/-! ### Samples -/

/-- Two files in JSON. The second one has a character in it that may not stand in YAML. -/
def lineDisk : Disk :=
  ⟨.directory
    [("a.json", .file (Text.bytes "\x7b\"openapi\": \"3.0.0\",\n\"tags\": [\"x\",\n\"y\"]\x7d\n")),
     ("b.json", .file (Text.bytes "\x7b\"openapi\": \"3.0.0\",\n\"x\": \"\u007f\"\x7d\n"))], ⟨1, []⟩⟩

/-- A member with a space in front of its value. -/
def plainMember (before name : String) (value : Phrase) : Member :=
  ⟨⟨before.toList, name, name.toList, [], [' ']⟩, value, []⟩

def plainString (content : String) : Phrase :=
  .string content content.toList

theorem isJson_plainString {content : String} (h : Json.IsUnescaped content.toList) :
    (plainString content).IsJson :=
  .string h.body

theorem isJson_plainMember (before name : String) (value : Phrase)
    (hbefore : IsGap before.toList)
    (hname : Json.IsUnescaped name.toList) :
    (plainMember before name value).lead.IsJson ∧ IsGap (plainMember before name value).after :=
  ⟨⟨hbefore, hname.body, List.forall_mem_nil _, show IsGap [' '] by decide⟩, List.forall_mem_nil _⟩

def plainMembers : List Member :=
  [plainMember "" "openapi" (plainString "3.0.0"),
    plainMember "\n" "tags" (.list [] [⟨[], plainString "x", []⟩, ⟨['\n'], plainString "y", []⟩])]

def plainTree : Phrase :=
  .object [] plainMembers

theorem plainTree_isJson : plainTree.IsJson := by
  have hopenapi := isJson_plainMember "" "openapi" (plainString "3.0.0")
    (by decide) (by decide +kernel)
  have htags := isJson_plainMember "\n" "tags"
    (.list [] [⟨[], plainString "x", []⟩, ⟨['\n'], plainString "y", []⟩]) (by decide)
    (by decide +kernel)
  refine .object (List.forall_mem_nil _) (by simp [plainMembers, hopenapi, htags]) ?_
  refine List.forall_mem_cons.mpr ⟨isJson_plainString (by decide +kernel), ?_⟩
  refine List.forall_mem_singleton.mpr (.list (List.forall_mem_nil _) ?_ ?_)
  · exact List.forall_mem_cons.mpr ⟨⟨List.forall_mem_nil _, List.forall_mem_nil _⟩,
      List.forall_mem_singleton.mpr ⟨show IsGap ['\n'] by decide, List.forall_mem_nil _⟩⟩
  · exact List.forall_mem_cons.mpr ⟨isJson_plainString (by decide +kernel),
      List.forall_mem_singleton.mpr (isJson_plainString (by decide +kernel))⟩

theorem plainTree_everywhere {P : List Member → Prop} (h : P plainMembers) :
    plainTree.Everywhere P := by
  refine .object h (List.forall_mem_cons.mpr ⟨.string _ _, List.forall_mem_singleton.mpr ?_⟩)
  exact .list (List.forall_mem_cons.mpr ⟨.string _ _, List.forall_mem_singleton.mpr (.string _ _)⟩)

theorem lineDisk_plain : ∃ d, load lineDisk ⟨0, ["a.json"]⟩ = .ok d ∧
    d.IsWritten [] plainTree ['\n'] := by
  refine ⟨⟨⟨0, ["a.json"]⟩, "\x7b\"openapi\": \"3.0.0\",\n\"tags\": [\"x\",\n\"y\"]\x7d\n",
    plainTree.value, "3.0.0"⟩, Except.eq_ok_of_holds (by decide +kernel), ?_⟩
  exact ⟨by decide +kernel, List.forall_mem_nil _, by decide, plainTree_isJson, rfl, ⟨_, _, rfl⟩,
    by decide +kernel⟩

/-- The second item of the tags is on the third line, and what is no part of it is too. -/
theorem lineOf_json_sample : ∃ d, load lineDisk ⟨0, ["a.json"]⟩ = .ok d ∧
    d.HasLine [.str "tags", .int 1, .str "z"] 3 ∧
    ∃ marker child, Reaches Kept [] plainTree [.text "tags", .whole 1] marker child ∧
      child.value = .str "y" ∧ d.HasLine [.str "tags", .int 1] (marker.count '\n' + 1) := by
  obtain ⟨d, hload, hwritten⟩ := lineDisk_plain
  obtain ⟨-, hlines⟩ := lineOf_json hload (by decide +kernel)
  obtain ⟨-, hlines⟩ := hlines _ _ _ hwritten
  obtain ⟨-, hends, hplaces⟩ := hlines (by decide +kernel)
  have hfit : plainTree.NamesFit := plainTree_everywhere (by decide +kernel)
  have hdiffer : plainTree.NamesDiffer := plainTree_everywhere (by decide +kernel)
  have hreach : Reaches Found [] plainTree [.text "tags", .whole 1]
      "\x7b\"openapi\": \"3.0.0\",\n\"tags\": [\"x\",\n".toList (plainString "y") :=
    .step (.member [plainMember "" "openapi" (plainString "3.0.0")]
      ⟨rfl, by decide +kernel⟩) (.last (.item [⟨[], plainString "x", []⟩]))
  have hspells : ∀ name, Step.text name ∈ [Step.text "tags", Step.whole 1] →
      plainTree.Spells name := by
    intro name hname
    obtain rfl : name = "tags" := by simpa using hname
    exact plainTree_everywhere (by decide +kernel)
  obtain ⟨marker, child, hkept, hvalue, -, hline⟩ :=
    hplaces hfit hdiffer [.text "tags", .whole 1] (.str "y") (List.cons_ne_nil _ _)
      (by rw [← hwritten.data]; rfl)
  exact ⟨d, hload, hends hfit _ _ _ hreach (.text "z") [] trivial, marker, child, hkept, hvalue,
    hline hspells⟩

def strayMembers : List Member :=
  [plainMember "" "openapi" (plainString "3.0.0"), plainMember "\n" "x" (plainString "\u007f")]

theorem strayMembers_isJson : (Phrase.object [] strayMembers).IsJson := by
  have hopenapi := isJson_plainMember "" "openapi" (plainString "3.0.0")
    (by decide) (by decide +kernel)
  have hx := isJson_plainMember "\n" "x" (plainString "\u007f") (by decide)
    (by decide +kernel)
  refine .object (List.forall_mem_nil _) (by simp [strayMembers, hopenapi, hx]) ?_
  exact List.forall_mem_cons.mpr ⟨isJson_plainString (by decide +kernel),
    List.forall_mem_singleton.mpr (isJson_plainString (by decide +kernel))⟩

/-- **A document in JSON that has no lines**, although the place exists and no name comes up again. -/
theorem lineOf_json_lost : ∃ d, load lineDisk ⟨0, ["b.json"]⟩ = .ok d ∧
    d.IsWritten [] (.object [] strayMembers) ['\n'] ∧
    (Phrase.object [] strayMembers).NamesDiffer ∧
    d.data.at? [.text "x"] = some (.str "\u007f") ∧ d.HasLine [.str "x"] 0 := by
  let d : Document := ⟨⟨0, ["b.json"]⟩,
    "\x7b\"openapi\": \"3.0.0\",\n\"x\": \"\u007f\"\x7d\n",
    (Phrase.object [] strayMembers).value, "3.0.0"⟩
  have hwritten : d.IsWritten [] (.object [] strayMembers) ['\n'] :=
    ⟨by decide +kernel, List.forall_mem_nil _, by decide, strayMembers_isJson, rfl, ⟨_, _, rfl⟩,
      by decide +kernel⟩
  have hdelete : ∃ c ∈ [] ++ ((Phrase.object [] strayMembers).chars ++ ['\n']), isAllowed c = false :=
    ⟨'\u007f', by decide +kernel, by decide +kernel⟩
  refine ⟨d, Except.eq_ok_of_holds (by decide +kernel), hwritten, ?_, rfl,
    hwritten.hasLine_of_not_allowed hdelete _⟩
  exact .object (by decide +kernel) (List.forall_mem_cons.mpr ⟨.string _ _,
    List.forall_mem_singleton.mpr (.string _ _)⟩)

end Document

end ApiLint
