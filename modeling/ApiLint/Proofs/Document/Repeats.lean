import ApiLint.Proofs.Document.Lines

/-! Keys that come up again in a document. The data keeps the last value of a key, in JSON as in YAML,
and the locator goes through the first key with the text of a step. Along keys that stand alone both take
the same way (`lineOf_repeats`); where a key comes up again the line is that of a value that is not in
the data, and a place of the data may be cut short there (`lineOf_repeats_cut`). -/
namespace ApiLint.Document

open Json (Member Phrase)
open Yaml (Node build)

variable {disk : Disk} {path : Path} {d : Document} {lead trail marker : List Char}
variable {tree child : Phrase} {p : List Step} {w : Value}

/-! ### JSON -/

namespace IsWritten

theorem at?_iff (h : d.IsWritten lead tree trail) (hp : p ≠ []) :
    d.data.at? p = some w ↔
      ∃ marker child, Phrase.Reaches Phrase.Kept lead tree p marker child ∧ child.value = w := by
  rw [← h.data]
  exact Phrase.at?_iff h.isJson lead hp

theorem agrees (h : d.IsWritten lead tree trail)
    (hshared : IsShared (lead ++ (tree.chars ++ trail))) (hfit : tree.NamesFit)
    (hreach : Phrase.Reaches Phrase.Sole lead tree p marker child) :
    d.data.at? p = some child.value ∧ d.HasLine (p.map Step.value) (marker.count '\n' + 1) := by
  have hkept := hreach.mono fun _ _ _ _ htaken => htaken.kept
  have hfound := hreach.mono fun _ _ _ _ htaken => htaken.found
  exact ⟨(h.at?_iff hreach.ne_nil).mpr ⟨marker, child, hkept, rfl⟩,
    (h.hasLine_of_reaches hshared hfit hfound).1⟩

end IsWritten

/-! ### YAML -/

/-- A document is composed to a tree whose keys are names. -/
structure IsComposed (d : Document) (root : Node) : Prop where
  composed : ∃ document, Yaml.compose (.ofText d.contents) = .ok document ∧
    document.root? = some root
  isNamed : root.IsNamed

namespace IsComposed

variable {root node : Node} {below : Nat}

/-- The data is built from the nodes. -/
theorem build_eq (h : d.IsComposed root) (hload : load disk path = .ok d)
    (hformat : format? path = some .yaml) : build 0 root = .ok d.data := by
  obtain ⟨rfl, -, hparse, -⟩ := load_eq_ok.mp hload
  obtain ⟨⟨document, hcompose, hroot⟩, hnamed⟩ := h
  rw [parse, hformat] at hparse
  have hread : Yaml.read d.contents = .ok d.data := Except.mapError_ok_iff.mp hparse
  obtain ⟨document', hcompose', hvalue⟩ := Except.bind_eq_ok.mp hread
  obtain rfl := Except.ok.inj (hcompose.symm.trans hcompose')
  rw [Yaml.Document.value, hroot] at hvalue
  simp only [hnamed.isTree, if_true] at hvalue
  exact Except.mapError_ok_iff.mp hvalue

theorem hasLine_of_reaches (h : d.IsComposed root) (hreach : root.Reaches Node.Found p below node) :
    d.HasLine (p.map Step.value) (below + 1) ∧ ∀ s rest, node.Stops s →
      d.HasLine (p.map Step.value ++ s :: rest) (below + 1) := by
  obtain ⟨⟨document, hcompose, hroot⟩, hnamed⟩ := h
  have hlocator := Locator.ofText_of_composed hcompose
  obtain ⟨hline, hstop⟩ := Locator.lineOf_of_reaches (l := ⟨document⟩) hroot hnamed hreach
  exact ⟨⟨_, hlocator, hline⟩, fun s rest hstops => ⟨_, hlocator, hstop s rest hstops⟩⟩

theorem agrees (h : d.IsComposed root) (hbuild : build 0 root = .ok d.data)
    (hreach : root.Reaches (Node.Sole 0) p below node) :
    (∃ w, d.data.at? p = some w ∧ build 0 node = .ok w) ∧
      d.HasLine (p.map Step.value) (below + 1) := by
  have hkept := hreach.kept_of_sole h.isNamed
  obtain ⟨w, hw⟩ := hkept.exists_build h.isNamed hbuild
  refine ⟨⟨w, ?_, hw⟩, (h.hasLine_of_reaches (hreach.found_of_sole h.isNamed)).1⟩
  exact (Node.at?_iff h.isNamed hbuild hreach.ne_nil).mpr ⟨below, node, hkept, hw⟩

end IsComposed

/-- **The lines of keys that come up again.** In the data stands the value of the last of the members
with one name, or of the entries with one key, and the line is that of the first one whose name has the
text of the step, also where the rest of a place cannot be followed from there. Along names that no other
member or entry of their collection has, the line is that of the value in the data. -/
theorem lineOf_repeats (hload : load disk path = .ok d) :
    (format? path = some .json → (∃ lead tree trail, d.IsWritten lead tree trail) ∧
      ∀ lead tree trail, d.IsWritten lead tree trail →
        IsShared (lead ++ (tree.chars ++ trail)) → tree.NamesFit →
        (∀ p w, p ≠ [] → (d.data.at? p = some w ↔
          ∃ marker child, Phrase.Reaches Phrase.Kept lead tree p marker child ∧ child.value = w)) ∧
        (∀ p marker child, Phrase.Reaches Phrase.Found lead tree p marker child →
          d.HasLine (p.map Step.value) (marker.count '\n' + 1) ∧ ∀ s rest, child.Lacks s →
            d.HasLine (p.map Step.value ++ s.value :: rest) (marker.count '\n' + 1)) ∧
        ∀ p marker child, Phrase.Reaches Phrase.Sole lead tree p marker child →
          d.data.at? p = some child.value ∧
            d.HasLine (p.map Step.value) (marker.count '\n' + 1)) ∧
    (format? path = some .yaml → ∀ root, d.IsComposed root →
      (∀ p w, p ≠ [] → (d.data.at? p = some w ↔
        ∃ below node, root.Reaches (Node.Kept 0) p below node ∧ build 0 node = .ok w)) ∧
      (∀ p below node, root.Reaches Node.Found p below node →
        d.HasLine (p.map Step.value) (below + 1) ∧ ∀ s rest, node.Stops s →
          d.HasLine (p.map Step.value ++ s :: rest) (below + 1)) ∧
      ∀ p below node, root.Reaches (Node.Sole 0) p below node →
        (∃ w, d.data.at? p = some w ∧ build 0 node = .ok w) ∧
          d.HasLine (p.map Step.value) (below + 1)) := by
  refine ⟨fun hformat => ⟨exists_isWritten hload hformat, ?_⟩, fun hformat root hcomposed => ?_⟩
  · intro lead tree trail hwritten hshared hfit
    refine ⟨fun p w hp => hwritten.at?_iff hp, fun p marker child hreach => ?_,
      fun p marker child hreach => hwritten.agrees hshared hfit hreach⟩
    exact hwritten.hasLine_of_reaches hshared hfit hreach
  · have hbuild := hcomposed.build_eq hload hformat
    refine ⟨fun p w hp => Node.at?_iff hcomposed.isNamed hbuild hp,
      fun p below node hreach => hcomposed.hasLine_of_reaches hreach, fun p below node hreach => ?_⟩
    exact hcomposed.agrees hbuild hreach

/-! ### Samples -/

/-- Two documents with a key that comes up again, one in JSON and one in YAML. -/
def repeatDisk : Disk :=
  ⟨.directory
    [("a.json", .file (Text.bytes
      "\x7b\"openapi\": \"3.0.0\",\n\"a\": \x7b\"x\": \"1\"\x7d,\n\"a\": \x7b\"y\": \"2\"\x7d\x7d\n")),
     ("b.yaml", .file (Text.bytes "openapi: 3.0.0\na:\n  x: 1\na:\n  y: 2\n"))], ⟨1, []⟩⟩

def repeatMembers : List Member :=
  [plainMember "" "openapi" (plainString "3.0.0"),
    plainMember "\n" "a" (.object [] [plainMember "" "x" (plainString "1")]),
    plainMember "\n" "a" (.object [] [plainMember "" "y" (plainString "2")])]

theorem repeatMembers_isJson : (Phrase.object [] repeatMembers).IsJson := by
  have hinner : ∀ name content : String, Json.IsUnescaped name.toList →
      Json.IsUnescaped content.toList →
      (Phrase.object [] [plainMember "" name (plainString content)]).IsJson := by
    intro name content hname hcontent
    exact .object (List.forall_mem_nil _)
      (List.forall_mem_singleton.mpr (isJson_plainMember _ _ _ (List.forall_mem_nil _) hname))
      (List.forall_mem_singleton.mpr (isJson_plainString hcontent))
  refine .object (List.forall_mem_nil _) ?_ ?_
  · refine List.forall_mem_cons.mpr ⟨isJson_plainMember _ _ _ (by decide) (by decide +kernel), ?_⟩
    refine List.forall_mem_cons.mpr ⟨isJson_plainMember _ _ _ (by decide) (by decide +kernel), ?_⟩
    exact List.forall_mem_singleton.mpr (isJson_plainMember _ _ _ (by decide) (by decide +kernel))
  · refine List.forall_mem_cons.mpr ⟨isJson_plainString (by decide +kernel), ?_⟩
    refine List.forall_mem_cons.mpr ⟨hinner _ _ (by decide +kernel) (by decide +kernel), ?_⟩
    exact List.forall_mem_singleton.mpr (hinner _ _ (by decide +kernel) (by decide +kernel))

theorem repeatMembers_namesFit : (Phrase.object [] repeatMembers).NamesFit := by
  refine .object (by decide +kernel) (List.forall_mem_cons.mpr ⟨.string _ _, ?_⟩)
  refine List.forall_mem_cons.mpr ⟨?_, List.forall_mem_singleton.mpr ?_⟩
  · exact .object (by decide +kernel) (List.forall_mem_singleton.mpr (.string _ _))
  · exact .object (by decide +kernel) (List.forall_mem_singleton.mpr (.string _ _))

theorem repeatDisk_json : ∃ d, load repeatDisk ⟨0, ["a.json"]⟩ = .ok d ∧
    d.IsWritten [] (.object [] repeatMembers) ['\n'] := by
  refine ⟨⟨⟨0, ["a.json"]⟩,
    "\x7b\"openapi\": \"3.0.0\",\n\"a\": \x7b\"x\": \"1\"\x7d,\n\"a\": \x7b\"y\": \"2\"\x7d\x7d\n",
    (Phrase.object [] repeatMembers).value, "3.0.0"⟩, Except.eq_ok_of_holds (by decide +kernel), ?_⟩
  exact ⟨by decide +kernel, List.forall_mem_nil _, by decide, repeatMembers_isJson, rfl, ⟨_, _, rfl⟩,
    by decide +kernel⟩

/-- An entry on a line of its own. -/
def plainEntry (line index : Nat) (key : String) (value : Node) : Node × Node :=
  (.scalar { mark := ⟨line, index⟩ } key, value)

def openapiEntry : Node × Node :=
  plainEntry 0 0 "openapi" (.scalar { mark := ⟨0, 9⟩ } "3.0.0")

def firstEntry : Node × Node :=
  plainEntry 1 15 "a" (.mapping { mark := ⟨2, 20⟩ }
    [plainEntry 2 20 "x" (.scalar { mark := ⟨2, 23⟩ } "1")])

def lastEntry : Node × Node :=
  plainEntry 3 25 "a" (.mapping { mark := ⟨4, 30⟩ }
    [plainEntry 4 30 "y" (.scalar { mark := ⟨4, 33⟩ } "2")])

def repeatRoot : Node :=
  .mapping { mark := ⟨0, 0⟩ } [openapiEntry, firstEntry, lastEntry]

theorem repeatRoot_isNamed : repeatRoot.IsNamed := by
  have hname : ∀ (line index : Nat) (key : String) (value : Node),
      Yaml.scalarKind none key = .str → (plainEntry line index key value).1.IsName :=
    fun line index key value h => .text { mark := ⟨line, index⟩ } key h
  have hinner : ∀ (mark : Yaml.Mark) (e : Node × Node), e.1.IsName → e.2.IsNamed →
      (Node.mapping { mark } [e]).IsNamed := fun mark e hkey hvalue =>
    .mapping _ _ rfl (List.forall_mem_singleton.mpr hkey) (List.forall_mem_singleton.mpr hvalue)
  refine .mapping _ _ rfl ?_ ?_
  · refine List.forall_mem_cons.mpr ⟨hname _ _ _ _ (by decide +kernel), ?_⟩
    refine List.forall_mem_cons.mpr ⟨hname _ _ _ _ (by decide +kernel), ?_⟩
    exact List.forall_mem_singleton.mpr (hname _ _ _ _ (by decide +kernel))
  · refine List.forall_mem_cons.mpr ⟨.scalar _ _, ?_⟩
    refine List.forall_mem_cons.mpr ⟨hinner _ _ (hname _ _ _ _ (by decide +kernel)) (.scalar _ _), ?_⟩
    exact List.forall_mem_singleton.mpr
      (hinner _ _ (hname _ _ _ _ (by decide +kernel)) (.scalar _ _))

theorem repeatDisk_yaml : ∃ d, load repeatDisk ⟨0, ["b.yaml"]⟩ = .ok d ∧ d.IsComposed repeatRoot ∧
    build 0 repeatRoot = .ok d.data := by
  have hholds : (load repeatDisk ⟨0, ["b.yaml"]⟩).holds
      (fun d => d.contents = ("openapi: 3.0.0\na:\n  x: 1\na:\n  y: 2\n" : Text)) = true := by
    decide +kernel
  obtain ⟨d, hload, hcontents⟩ := Except.exists_of_holds hholds
  have hcomposed : d.IsComposed repeatRoot := by
    have hcompose : (Yaml.compose (.ofText d.contents)).holds (·.root? = some repeatRoot) = true := by
      rw [of_decide_eq_true hcontents]
      decide +kernel
    obtain ⟨document, hdocument, hroot⟩ := Except.exists_of_holds hcompose
    exact ⟨⟨document, hdocument, of_decide_eq_true hroot⟩, repeatRoot_isNamed⟩
  exact ⟨d, hload, hcomposed, hcomposed.build_eq hload (by decide +kernel)⟩

/-- The first member that has the name twice. -/
theorem repeatMembers_found : Phrase.Reaches Phrase.Found [] (.object [] repeatMembers) [.text "a"]
    "\x7b\"openapi\": \"3.0.0\",\n".toList (.object [] [plainMember "" "x" (plainString "1")]) :=
  .last (.member [plainMember "" "openapi" (plainString "3.0.0")]
    ⟨rfl, by decide +kernel⟩)

theorem repeatRoot_found : repeatRoot.Reaches Node.Found [.text "a"] 1 firstEntry.2 := by
  have hfirst : Node.Found [openapiEntry] firstEntry.1 [lastEntry] (.text "a") :=
    ⟨⟨rfl, rfl⟩, by decide +kernel⟩
  exact .last (.entry hfirst)

/-- Both documents have the name that stands alone on the line of its value. -/
theorem lineOf_repeats_sample :
    (∃ d, load repeatDisk ⟨0, ["a.json"]⟩ = .ok d ∧ d.data.at? [.text "openapi"] = some (.str "3.0.0") ∧
      d.HasLine [.str "openapi"] 1) ∧
    ∃ d, load repeatDisk ⟨0, ["b.yaml"]⟩ = .ok d ∧ (∃ w, d.data.at? [.text "openapi"] = some w) ∧
      d.HasLine [.str "openapi"] 1 := by
  constructor
  · obtain ⟨d, hload, hwritten⟩ := repeatDisk_json
    obtain ⟨hjson, -⟩ := lineOf_repeats hload
    obtain ⟨-, hlines⟩ := hjson (by decide +kernel)
    obtain ⟨-, -, hsole⟩ := hlines _ _ _ hwritten (by decide +kernel) repeatMembers_namesFit
    have hreach : Phrase.Reaches Phrase.Sole [] (.object [] repeatMembers) [.text "openapi"] ['\x7b']
        (plainString "3.0.0") := .last (.member [] ⟨⟨rfl, rfl⟩, by decide +kernel⟩)
    exact ⟨d, hload, hsole _ _ _ hreach⟩
  · obtain ⟨d, hload, hcomposed, -⟩ := repeatDisk_yaml
    obtain ⟨-, hyaml⟩ := lineOf_repeats hload
    obtain ⟨-, -, hsole⟩ := hyaml (by decide +kernel) _ hcomposed
    have hsingle : Node.Sole 0 [] openapiEntry.1 [firstEntry, lastEntry] (.text "openapi") :=
      ⟨rfl, by decide +kernel⟩
    have hreach : repeatRoot.Reaches (Node.Sole 0) [.text "openapi"] 0 openapiEntry.2 :=
      .last (.entry hsingle)
    obtain ⟨⟨w, hw, -⟩, hline⟩ := hsole _ _ _ hreach
    exact ⟨d, hload, ⟨w, hw⟩, hline⟩

/-- **Two documents with a place that is cut short.** The last of the members, or of the entries, has the
part; it is on the third line, or on the fifth, and the line that is given is the second. -/
theorem lineOf_repeats_cut :
    (∃ d marker child, load repeatDisk ⟨0, ["a.json"]⟩ = .ok d ∧
      d.IsWritten [] (.object [] repeatMembers) ['\n'] ∧
      Phrase.Reaches Phrase.Kept [] (.object [] repeatMembers) [.text "a", .text "y"] marker child ∧
      d.data.at? [.text "a", .text "y"] = some child.value ∧ marker.count '\n' + 1 = 3 ∧
      d.HasLine [.str "a", .str "y"] 2) ∧
    ∃ d node w, load repeatDisk ⟨0, ["b.yaml"]⟩ = .ok d ∧ d.IsComposed repeatRoot ∧
      repeatRoot.Reaches (Node.Kept 0) [.text "a", .text "y"] 4 node ∧ build 0 node = .ok w ∧
      d.data.at? [.text "a", .text "y"] = some w ∧ d.HasLine [.str "a", .str "y"] 2 := by
  constructor
  · obtain ⟨d, hload, hwritten⟩ := repeatDisk_json
    have hreach : Phrase.Reaches Phrase.Kept [] (.object [] repeatMembers) [.text "a", .text "y"]
        "\x7b\"openapi\": \"3.0.0\",\n\"a\": \x7b\"x\": \"1\"\x7d,\n\"a\": \x7b".toList (plainString "2") :=
      .step (.member [plainMember "" "openapi" (plainString "3.0.0"),
          plainMember "\n" "a" (.object [] [plainMember "" "x" (plainString "1")])]
        ⟨rfl, List.forall_mem_nil _⟩) (.last (.member [] ⟨rfl, List.forall_mem_nil _⟩))
    obtain ⟨-, hcut⟩ := hwritten.hasLine_of_reaches (by decide +kernel) repeatMembers_namesFit
      repeatMembers_found
    refine ⟨d, _, _, hload, hwritten, hreach, ?_, by decide +kernel, ?_⟩
    · exact (hwritten.at?_iff hreach.ne_nil).mpr ⟨_, _, hreach, rfl⟩
    · exact hcut (.text "y") [] ⟨rfl, by decide +kernel⟩
  · obtain ⟨d, hload, hcomposed, hbuild⟩ := repeatDisk_yaml
    have hlast : Node.Kept 0 [openapiEntry, firstEntry] lastEntry.1 [] (.text "a") :=
      ⟨rfl, List.forall_mem_nil _⟩
    have hpart : Node.Kept 0 [] (.scalar { mark := ⟨4, 30⟩ } "y") [] (.text "y") :=
      ⟨rfl, List.forall_mem_nil _⟩
    have hinner : lastEntry.2.Enters (Node.Kept 0) (.text "y") 4 (.scalar { mark := ⟨4, 33⟩ } "2") :=
      .entry hpart
    have hreach : repeatRoot.Reaches (Node.Kept 0) [.text "a", .text "y"] 4
        (.scalar { mark := ⟨4, 33⟩ } "2") := .step (.entry hlast) (.last hinner)
    obtain ⟨w, hw⟩ := hreach.exists_build hcomposed.isNamed hbuild
    obtain ⟨-, hcut⟩ := hcomposed.hasLine_of_reaches repeatRoot_found
    refine ⟨d, _, w, hload, hcomposed, hreach, hw, ?_, ?_⟩
    · exact (Node.at?_iff hcomposed.isNamed hbuild hreach.ne_nil).mpr ⟨_, _, hreach, hw⟩
    · exact hcut (.str "y") [] ⟨fun hlong => absurd hlong Bool.false_ne_true, by decide +kernel⟩

end ApiLint.Document
