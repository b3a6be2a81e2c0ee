import ApiLint.Proofs.Document.Lines
import ApiLint.Proofs.Yaml.Reread
import ApiLint.Config.File

/-! What a configuration in JSON means under the names of configuration files. Two of them say JSON; under
the others, also under the one without a suffix, a text is read as YAML, of which JSON is not wholly a part.
There a name may be too far from its colon, a number may be a text, and halves of a pair stay apart
(`ofFile_json`). -/
namespace ApiLint.Config

open Document (IsShared)
open Json (IsGap Phrase)

/-- The names of files of our own that say JSON. -/
def jsonNames : List Text := [".pvarc.json", "pva.config.json"]

/-- The names of files of our own that are read as YAML. -/
def yamlNames : List Text := [".pvarc", ".pvarc.yaml", ".pvarc.yml", "pva.config.yaml"]

/-- A text is written as a phrase of JSON between blanks, which is an object with these entries. -/
structure IsObject (text : List Char) (entries : Entries) (lead : List Char) (tree : Phrase)
    (trail : List Char) : Prop where
  chars : text = lead ++ (tree.chars ++ trail)
  front : IsGap lead
  back : IsGap trail
  isJson : tree.IsJson
  isObject : ∃ gap members, tree = .object gap members
  value : tree.value = .map entries

/-- What is read as a mapping is written as an object. -/
theorem exists_isObject {text : List Char} {entries : Entries}
    (h : Json.read (Text.ofChars text) = .ok (.map entries)) :
    ∃ lead tree trail, IsObject text entries lead tree trail := by
  obtain ⟨lead, trail, tree, htext, hlead, htrail, hjson, hvalue⟩ := Json.read_spells h
  refine ⟨lead, tree, trail, htext, hlead, htrail, hjson, ?_, hvalue⟩
  cases hjson with
  | word hscalar =>
    have hscalar := Json.isScalar_of_readScalar? hscalar
    obtain rfl := hvalue
    cases hscalar
  | string _ => cases hvalue
  | list _ _ _ => cases hvalue
  | object _ _ _ => exact ⟨_, _, rfl⟩

/-! ### Names -/

section

variable {disk : Disk} {path : Path}

/-- A name that is that of no other file, and what its suffix says. -/
structure IsOwn (name : Text) (isJson : Bool) : Prop where
  package : name ≠ "package.json"
  project : name ≠ "pyproject.toml"
  toml : Path.suffix ⟨0, [name]⟩ ≠ ".toml"
  json : decide (Path.suffix ⟨0, [name]⟩ = ".json") = isJson

theorem ofFile_of_isOwn {isJson : Bool} (h : IsOwn path.name isJson) :
    ofFile disk path =
      (if isJson then readJson disk path else readYaml disk path).map wholeFile := by
  have hsuffix : path.suffix = Path.suffix ⟨0, [path.name]⟩ := Path.suffix_congr rfl
  have hjson := h.json
  rw [← hsuffix] at hjson
  rw [ofFile, if_neg h.package, if_neg h.project, if_neg (hsuffix ▸ h.toml)]
  cases isJson with
  | true => rw [if_pos (of_decide_eq_true hjson)]; rfl
  | false => rw [if_neg (of_decide_eq_false hjson)]; rfl

theorem isOwn_of_jsonName {name : Text} (h : name ∈ jsonNames) : IsOwn name true := by
  have hnames : ∀ name ∈ jsonNames, name ≠ "package.json" ∧ name ≠ "pyproject.toml" ∧
      Path.suffix ⟨0, [name]⟩ ≠ ".toml" ∧
      decide (Path.suffix ⟨0, [name]⟩ = ".json") = true := by
    decide +kernel
  obtain ⟨hpackage, hproject, htoml, hjson⟩ := hnames name h
  exact ⟨hpackage, hproject, htoml, hjson⟩

theorem isOwn_of_yamlName {name : Text} (h : name ∈ yamlNames) : IsOwn name false := by
  have hnames : ∀ name ∈ yamlNames, name ≠ "package.json" ∧ name ≠ "pyproject.toml" ∧
      Path.suffix ⟨0, [name]⟩ ≠ ".toml" ∧
      decide (Path.suffix ⟨0, [name]⟩ = ".json") = false := by
    decide +kernel
  obtain ⟨hpackage, hproject, htoml, hjson⟩ := hnames name h
  exact ⟨hpackage, hproject, htoml, hjson⟩

end

/-! ### Contents -/

section

variable {disk : Disk} {path : Path} {bytes : List UInt8} {cs lead trail : List Char} {tree : Phrase}
variable {entries : Entries}

theorem readJson_of_read (hread : disk.read path = .ok bytes) (hdecode : Text.Utf8.decode bytes = .ok cs) :
    readJson disk path =
      (Json.read (Text.ofChars (Text.plainNewlines cs))).mapError Failure.ofJson := by
  rw [readJson, Document.readText_eq_ok.mpr ⟨bytes, cs, hread, hdecode, rfl⟩]
  rfl

theorem readYaml_of_read (hread : disk.read path = .ok bytes) :
    readYaml disk path = (Yaml.readFrom 0 (.ofBytes bytes)).mapError .yaml := by
  rw [readYaml, Failure.ofFile, hread]
  rfl

theorem ofFile_jsonName (hname : path.name ∈ jsonNames) (hread : disk.read path = .ok bytes)
    (hdecode : Text.Utf8.decode bytes = .ok cs) :
    ofFile disk path = ((Json.read (Text.ofChars (Text.plainNewlines cs))).mapError
      Failure.ofJson).map wholeFile := by
  rw [ofFile_of_isOwn (isOwn_of_jsonName hname), readJson_of_read hread hdecode]
  rfl

theorem ofFile_yamlName (hname : path.name ∈ yamlNames) (hread : disk.read path = .ok bytes) :
    ofFile disk path = ((Yaml.readFrom 0 (.ofBytes bytes)).mapError .yaml).map wholeFile := by
  rw [ofFile_of_isOwn (isOwn_of_yamlName hname), readYaml_of_read hread]
  rfl

/-- Bytes of characters that may all stand in YAML. -/
theorem ofBytes_of_shared (hdecode : Text.Utf8.decode bytes = .ok cs)
    (hshared : IsShared (Text.plainNewlines cs)) :
    Yaml.Source.ofBytes bytes = ⟨Text.plainNewlines cs, none⟩ := by
  have hnone : (Text.plainNewlines cs).findIdx? (!Yaml.isAllowed ·) = none := by
    rw [List.findIdx?_eq_none_iff]
    intro c hc
    rw [(hshared c hc).1]
    rfl
  rw [Yaml.Source.ofBytes]
  simp only [hdecode, hnone]

/-- Of bytes with a character early on that may not stand in YAML nothing is loaded. -/
theorem ofBytes_of_not_allowed (hdecode : Text.Utf8.decode bytes = .ok cs)
    (hnot : ∃ c ∈ (Text.plainNewlines cs).take (2 * Yaml.Source.pieceSize),
      Yaml.isAllowed c = false) :
    Yaml.Source.ofBytes bytes = .refused := by
  obtain ⟨index, hindex, hearly⟩ : ∃ index,
      (Text.plainNewlines cs).findIdx? (!Yaml.isAllowed ·) = some index ∧
        index < 2 * Yaml.Source.pieceSize := by
    have hany : ((Text.plainNewlines cs).take (2 * Yaml.Source.pieceSize)).any
        (!Yaml.isAllowed ·) = true := by
      simpa using hnot
    rw [← List.findIdx?_isSome, List.findIdx?_take] at hany
    obtain ⟨index, hindex⟩ := Option.isSome_iff_exists.mp hany
    obtain ⟨j, hj, hguard⟩ := Option.bind_eq_some_iff.mp hindex
    obtain ⟨-, hlt⟩ := Option.guard_eq_some_iff.mp hguard
    exact ⟨j, hj, of_decide_eq_true hlt⟩
  have hloaded : Yaml.Source.loadedBefore index = 0 := by
    rw [Yaml.Source.loadedBefore, if_pos hearly]
  rw [Yaml.Source.ofBytes]
  simp only [hdecode, hindex, hloaded, List.take_zero]
  rfl

namespace IsObject

variable {text : List Char}

theorem isClear (h : IsObject text entries lead tree trail) (hshared : IsShared text)
    (htab : '\t' ∉ text) : Yaml.IsClear (lead ++ (tree.chars ++ trail)) := by
  rw [← h.chars]
  exact fun c hc => ⟨fun hc' => htab (hc' ▸ hc), (hshared c hc).2⟩

/-- A name that is no key spoils the whole. -/
theorem readFrom_of_not_namesFit (h : IsObject text entries lead tree trail) (hshared : IsShared text)
    (htab : '\t' ∉ text) (hnot : ¬tree.NamesFit) :
    Yaml.readFrom 0 ⟨text, none⟩ = .error .malformed := by
  have hclear := h.isClear hshared htab
  obtain ⟨gap, members, rfl⟩ := h.isObject
  rw [Yaml.readFrom, h.chars, (Phrase.compose_eq h.isJson h.front h.back hclear).2 hnot]
  rfl

/-- Where all names are keys, the value is built from the nodes. -/
theorem readFrom_of_namesFit (h : IsObject text entries lead tree trail) (hshared : IsShared text)
    (htab : '\t' ∉ text) (hfit : tree.NamesFit) :
    Yaml.readFrom 0 ⟨text, none⟩ = .ok tree.reread := by
  have hclear := h.isClear hshared htab
  obtain ⟨gap, members, rfl⟩ := h.isObject
  have htree := (h.isJson.isNamed lead).isTree
  have hvalue : (Yaml.Document.ofRoot ((Phrase.object gap members).node lead)).value 0 =
      .ok (Phrase.object gap members).reread := by
    rw [Yaml.Document.value, Yaml.Document.ofRoot]
    simp only [htree, if_true]
    rw [h.isJson.build_node]
    rfl
  rw [Yaml.readFrom, h.chars, (Phrase.compose_eq h.isJson h.front h.back hclear).1 hfit]
  exact hvalue

end IsObject

end

/-- **A configuration in JSON under all names.** Under the names that say JSON it is what is read. Under
the others it is nothing if a character of the first piece may not stand in YAML. If all may, and only
newlines end lines, and there are no tabs, it is nothing if a name is no key, and what YAML makes of its
parts otherwise; that is the same as in JSON if all parts mean the same in both languages. -/
theorem ofFile_json {bytes : List UInt8} {cs : List Char} {entries : Entries}
    (hdecode : Text.Utf8.decode bytes = .ok cs)
    (hjson : Json.read (Text.ofChars (Text.plainNewlines cs)) = .ok (.map entries)) :
    (∃ lead tree trail, IsObject (Text.plainNewlines cs) entries lead tree trail) ∧
      ∀ (disk : Disk) (path : Path), disk.read path = .ok bytes →
        (path.name ∈ jsonNames → ofFile disk path = .ok (some (.map entries))) ∧
        (path.name ∈ yamlNames →
          ((∃ c ∈ (Text.plainNewlines cs).take (2 * Yaml.Source.pieceSize),
            Yaml.isAllowed c = false) → ofFile disk path = .error (.yaml .malformed)) ∧
          (IsShared (Text.plainNewlines cs) → '\t' ∉ Text.plainNewlines cs →
            ∀ lead tree trail, IsObject (Text.plainNewlines cs) entries lead tree trail →
              (¬tree.NamesFit → ofFile disk path = .error (.yaml .malformed)) ∧
              (tree.NamesFit → ofFile disk path = .ok (some tree.reread)) ∧
              (tree.NamesFit → tree.IsCommon → ofFile disk path = .ok (some (.map entries))))) := by
  refine ⟨exists_isObject hjson, fun disk path hread => ⟨fun hname => ?_, fun hname => ?_⟩⟩
  · rw [ofFile_jsonName hname hread hdecode, hjson]
    rfl
  have hown := ofFile_yamlName hname hread
  refine ⟨fun hnot => ?_, fun hshared htab lead tree trail hobject => ?_⟩
  · rw [hown, ofBytes_of_not_allowed hdecode hnot]
    rfl
  have hwhole : wholeFile tree.reread = some tree.reread := by
    obtain ⟨gap, members, rfl⟩ := hobject.isObject
    rfl
  rw [ofBytes_of_shared hdecode hshared] at hown
  have hfits : tree.NamesFit → ofFile disk path = .ok (some tree.reread) := by
    intro hfit
    rw [hown, hobject.readFrom_of_namesFit hshared htab hfit]
    exact congrArg Except.ok hwhole
  refine ⟨fun hnot => ?_, hfits, fun hfit hcommon => ?_⟩
  · rw [hown, hobject.readFrom_of_not_namesFit hshared htab hnot]
    rfl
  · rw [hfits hfit, hcommon.reread_eq, hobject.value]

/-! ### Samples -/

/-- A directory with the same text under two names, of which the second one does not say JSON. -/
def twice (t : String) : Disk :=
  ⟨.directory [(".pvarc.json", .file (Text.bytes t)), (".pvarc", .file (Text.bytes t))], ⟨1, []⟩⟩

/-- A configuration that says nothing about the rules for all versions. -/
def plainText : String := "\x7b\"shared\": \x7b\x7d\x7d"

def plainTree : Phrase :=
  .object [] [Document.plainMember "" "shared" (.object [] [])]

theorem plainTree_isJson : plainTree.IsJson := by
  refine .object (List.forall_mem_nil _) (List.forall_mem_singleton.mpr ?_)
    (List.forall_mem_singleton.mpr ?_)
  · exact Document.isJson_plainMember "" "shared" _ (by decide) (by decide)
  · exact .object (List.forall_mem_nil _) (List.forall_mem_nil _) (List.forall_mem_nil _)

theorem plainTree_namesFit : plainTree.NamesFit :=
  .object (by decide)
    (List.forall_mem_singleton.mpr (.object (List.forall_mem_nil _) (List.forall_mem_nil _)))

theorem plainTree_isCommon : plainTree.IsCommon :=
  .object (by decide) (List.forall_mem_singleton.mpr
    (.object (List.forall_mem_nil _) (List.forall_mem_nil _)))

/-- The same value under both names. -/
theorem ofFile_json_twice :
    ofFile (twice plainText) ⟨0, [".pvarc.json"]⟩ = .ok (some (.map [(.str "shared", .map [])])) ∧
      ofFile (twice plainText) ⟨0, [".pvarc"]⟩ = .ok (some (.map [(.str "shared", .map [])])) := by
  have hdecode : Text.Utf8.decode (Text.bytes plainText) = .ok plainText.toList := by
    decide
  have hjson : Json.read (Text.ofChars (Text.plainNewlines plainText.toList)) =
      .ok (.map [(.str "shared", .map [])]) :=
    Except.eq_ok_of_holds (by decide +kernel)
  have hobject : IsObject (Text.plainNewlines plainText.toList) [(.str "shared", .map [])] []
      plainTree [] :=
    ⟨by decide, List.forall_mem_nil _, List.forall_mem_nil _, plainTree_isJson,
      ⟨_, _, rfl⟩, rfl⟩
  obtain ⟨-, hnames⟩ := ofFile_json hdecode hjson
  refine ⟨(hnames (twice plainText) ⟨0, [".pvarc.json"]⟩ (by decide)).1
    (by decide), ?_⟩
  obtain ⟨-, hyaml⟩ := hnames (twice plainText) ⟨0, [".pvarc"]⟩ (by decide)
  obtain ⟨-, hshared⟩ := hyaml (by decide)
  obtain ⟨-, -, hcommon⟩ :=
    hshared (by decide) (by decide) [] plainTree [] hobject
  exact hcommon plainTree_namesFit plainTree_isCommon

/-- A configuration with a tab in it, and one with a character that is written as two halves. -/
def tabbedText : String := "\x7b\t\"shared\": \x7b\x7d\x7d"

def pairText : String := "\x7b\"shared\": \"\\ud83d\\ude00\"\x7d"

/-- **Configurations in JSON that mean something else under another name.** A tab takes the whole away,
and a character of two halves is two. -/
theorem ofFile_json_apart :
    ofFile (twice tabbedText) ⟨0, [".pvarc.json"]⟩ = .ok (some (.map [(.str "shared", .map [])])) ∧
      ofFile (twice tabbedText) ⟨0, [".pvarc"]⟩ = .error (.yaml .malformed) ∧
      ofFile (twice pairText) ⟨0, [".pvarc.json"]⟩ =
        .ok (some (.map [(.str "shared", .str "😀")])) ∧
      ofFile (twice pairText) ⟨0, [".pvarc"]⟩ =
        .ok (some (.map [(.str "shared", .str [.ofCode 0xD83D, .ofCode 0xDE00])])) := by
  have htabbed : Text.Utf8.decode (Text.bytes tabbedText) = .ok tabbedText.toList := by
    decide
  have hpair : Text.Utf8.decode (Text.bytes pairText) = .ok pairText.toList := by
    decide
  have hshared : IsShared (Text.plainNewlines pairText.toList) := by decide
  have hread : ∀ name ∈ [(".pvarc.json" : Text), ".pvarc"],
      (twice tabbedText).read ⟨0, [name]⟩ = .ok (Text.bytes tabbedText) ∧
        (twice pairText).read ⟨0, [name]⟩ = .ok (Text.bytes pairText) := by
    decide
  obtain ⟨htabbed₁, hpair₁⟩ := hread ".pvarc.json" (by decide)
  obtain ⟨htabbed₂, hpair₂⟩ := hread ".pvarc" (by decide)
  refine ⟨?_, ?_, ?_, ?_⟩
  · rw [ofFile_jsonName (by decide) htabbed₁ htabbed]
    exact Except.eq_ok_of_holds (by decide +kernel)
  · have hmalformed : Yaml.readFrom 0 (.ofBytes (Text.bytes tabbedText)) = .error .malformed :=
      Except.eq_error_of_fails (by decide +kernel)
    rw [ofFile_yamlName (by decide) htabbed₂, hmalformed]
    rfl
  · rw [ofFile_jsonName (by decide) hpair₁ hpair]
    exact Except.eq_ok_of_holds (by decide +kernel)
  · rw [ofFile_yamlName (by decide) hpair₂, ofBytes_of_shared hpair hshared]
    exact Except.eq_ok_of_holds (by decide +kernel)

end ApiLint.Config
