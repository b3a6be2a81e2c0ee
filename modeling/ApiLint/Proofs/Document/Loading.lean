import ApiLint.Document
import ApiLint.Proofs.Except

/-! Which documents can be loaded, and how it fails otherwise. A document is what a file holds whose
text is read as its name says and declares a description of an API. The documented failures name the
file or come of the system; there are a few others, which come of texts that a reader gives up on for a
reason of its own, and there the failure is just that (`load_documented`). -/
namespace ApiLint.Document

variable {disk : Disk} {path : Path} {contents : Text} {data : Value} {version : Text} {e : Failure}

/-! ### Documents -/

/-- The text of a file, without its byte order mark, line ends other than newlines, and tabs. -/
def Decodes (disk : Disk) (path : Path) (contents : Text) : Prop :=
  ∃ bytes cs, disk.read path = .ok bytes ∧ Text.Utf8.decode bytes = .ok cs ∧
    contents = prepare (Text.ofChars (Text.plainNewlines cs))

/-- A mapping declares a description of an API: by a version that is not empty, or else as one of the
version 2.0 of the older format. -/
inductive Declares (data : Value) : Text → Prop
  | current {entries : Entries} {v : Value} (hmap : data.opened = .map entries)
      (hversion : entries.find? (.str "openapi") = some v) (htruthy : v.isTruthy = true) :
      Declares data v.text
  | older {entries : Entries} (hmap : data.opened = .map entries)
      (hversion : ∀ v, entries.find? (.str "openapi") = some v → v.isTruthy = false)
      (hswagger : entries.find? (.str "swagger") = some (.str "2.0")) :
      Declares data "2.0"

/-! ### Failures -/

/-- The failures that are documented: one of the system, a text that is not in its format, which
names the file, a file in no format, and a document that describes no API. -/
inductive Documented (path : Path) : Failure → Prop
  | system {fault : FileFault} (h : fault.description?.isSome = true) :
      Documented path (.file fault path.text)
  | malformed {e : Failure} (h : (∃ mistake, e = .badJson mistake path) ∨ e = .badYaml path)
      (hnamed : path.text <:+: e.message) : Documented path e
  | unsupported : Documented path (.unsupported path)
  | noDescriptor : Documented path (.noDescriptor path)

/-- What nothing takes in hand when a document is loaded. -/
inductive Stumbles (disk : Disk) (path : Path) : Failure → Prop
  /-- The name of the file is none for the system. -/
  | name {fault : FileFault} (hread : disk.read path = .error fault)
      (hfault : fault.description? = none) : Stumbles disk path (.file fault path.text)
  /-- The bytes are no text. -/
  | bytes {bytes : List UInt8} {fault : Text.Utf8.Fault} (hread : disk.read path = .ok bytes)
      (hfault : Text.Utf8.decode bytes = .error fault) : Stumbles disk path (.undecodable fault)
  /-- A whole number in JSON has too many digits. -/
  | numeral {contents : Text} {fault : Numeral.Fault} (hdecodes : Decodes disk path contents)
      (hformat : format? path = some .json) (hfault : Json.read contents = .error (.numeral fault)) :
      Stumbles disk path (.number fault)
  /-- A node in YAML has no value of its kind. -/
  | node {contents : Text} {fault : Yaml.Fault} (hdecodes : Decodes disk path contents)
      (hformat : format? path = some .yaml) (hfault : Yaml.read contents = .error fault)
      (hnode : fault ≠ .malformed) : Stumbles disk path (.yaml fault)
  /-- The version cannot be written down. -/
  | version {contents : Text} {data v : Value} (hdecodes : Decodes disk path contents)
      (hparse : parse contents path = .ok data) (hversion : openapi? data = some v)
      (hlong : v.hasLongNumeral = true) : Stumbles disk path (.number .tooLarge)

theorem Stumbles.not_documented (h : Stumbles disk path e) : ¬Documented path e := by
  intro hdocumented
  cases h with
  | name _ hfault =>
    cases hdocumented with
    | system h => simp [hfault] at h
    | malformed h => simp at h
  | _ => cases hdocumented with | malformed h => simp at h

/-! ### Reading -/

theorem readText_eq_ok {text : Text} : readText disk path = .ok text ↔
    ∃ bytes cs, disk.read path = .ok bytes ∧ Text.Utf8.decode bytes = .ok cs ∧
      text = Text.ofChars (Text.plainNewlines cs) := by
  rw [readText, Failure.ofFile]
  cases disk.read path with
  | error fault => simp [Except.mapError]
  | ok bytes =>
    cases hdecode : Text.Utf8.decode bytes with
    | error fault => simp [Except.mapError, hdecode]
    | ok cs => simp [Except.mapError, hdecode, eq_comm]

/-- Reading the text of a document fails in a documented way, or stumbles over its name or its bytes. -/
theorem readText_eq_error (h : readText disk path = .error e) :
    Documented path e ∨ Stumbles disk path e := by
  rw [readText, Failure.ofFile] at h
  cases hread : disk.read path with
  | error fault =>
    rw [hread] at h
    obtain rfl := Except.error.inj h
    cases hfault : fault.description? with
    | none => exact .inr (.name hread hfault)
    | some description => exact .inl (.system (by rw [hfault]; rfl))
  | ok bytes =>
    rw [hread] at h
    cases hdecode : Text.Utf8.decode bytes with
    | error fault =>
      simp only [Except.mapError, hdecode] at h
      obtain rfl := Except.error.inj h
      exact .inr (.bytes hread hdecode)
    | ok cs =>
      simp only [Except.mapError, hdecode] at h
      cases h

theorem named_badJson (mistake : Json.Mistake) (path : Path) :
    path.text <:+: (Failure.badJson mistake path).message :=
  ⟨mistake.problem.message ++ " in ", _, rfl⟩

theorem named_badYaml (path : Path) : path.text <:+: (Failure.badYaml path).message :=
  ⟨"Invalid YAML in ", ": " ++ Yaml.Fault.malformed.message, by simp [Failure.message]⟩

/-- Parsing a document fails in a documented way, or stumbles over a number or a node. -/
theorem parse_eq_error (hdecodes : Decodes disk path contents)
    (h : parse contents path = .error e) : Documented path e ∨ Stumbles disk path e := by
  rw [parse] at h
  split at h
  · next hformat =>
    obtain ⟨fault, hfault, rfl⟩ := Except.mapError_eq_error.mp h
    cases fault with
    | mistake mistake => exact .inl (.malformed (.inl ⟨mistake, rfl⟩) (named_badJson mistake path))
    | numeral fault => exact .inr (.numeral hdecodes hformat hfault)
  · next hformat =>
    obtain ⟨fault, hfault, rfl⟩ := Except.mapError_eq_error.mp h
    split
    · exact .inl (.malformed (.inr rfl) (named_badYaml path))
    · next hnode => exact .inr (.node hdecodes hformat hfault hnode)
  · obtain rfl := Except.error.inj h
    exact .inl .unsupported

/-! ### What a document declares -/

theorem get?_eq_some {name : Text} {v : Value} : data.get? name = some v ↔
    ∃ entries, data.opened = .map entries ∧ Entries.find? (.str name) entries = some v := by
  rw [Value.get?]
  split
  · next entries hmap => simp [hmap]
  · next hmap =>
    simp only [reduceCtorEq, false_iff, not_exists, not_and]
    exact fun entries heq => absurd heq (hmap entries)

theorem openapi?_eq_some {v : Value} :
    openapi? data = some v ↔ data.get? "openapi" = some v ∧ v.isTruthy = true := by
  rw [openapi?, Option.filter_eq_some_iff]

theorem isTwo_iff {v : Value} : isTwo v = true ↔ v = .str "2.0" := by
  rw [isTwo.eq_def]
  split
  · simp
  · next hstr =>
    simp only [Bool.false_eq_true, false_iff]
    exact fun heq => hstr _ heq

theorem Declares.text_eq {v : Value} (h : Declares data version) (hv : openapi? data = some v) :
    version = v.text := by
  obtain ⟨hget, htruthy⟩ := openapi?_eq_some.mp hv
  obtain ⟨entries, hmap, hfind⟩ := get?_eq_some.mp hget
  cases h with
  | current hmap' hversion _ =>
    obtain rfl := Value.map.inj (hmap.symm.trans hmap')
    rw [Option.some.inj (hfind.symm.trans hversion)]
  | older hmap' hversion _ =>
    obtain rfl := Value.map.inj (hmap.symm.trans hmap')
    exact absurd htruthy (by simp [hversion v hfind])

theorem declares_of_openapi {v : Value} (hv : openapi? data = some v) : Declares data v.text := by
  obtain ⟨hget, htruthy⟩ := openapi?_eq_some.mp hv
  obtain ⟨entries, hmap, hfind⟩ := get?_eq_some.mp hget
  exact .current hmap hfind htruthy

/-- Without a version only the older format is left. -/
theorem declares_iff_of_no_openapi (hnone : openapi? data = none) :
    Declares data version ↔ data.get? "swagger" = some (.str "2.0") ∧ version = "2.0" := by
  have hfalsy : ∀ v, data.get? "openapi" = some v → v.isTruthy = false := by
    intro v hget
    by_contra htruthy
    have hsome := openapi?_eq_some.mpr ⟨hget, by simpa using htruthy⟩
    simp [hnone] at hsome
  constructor
  · intro h
    cases h with
    | current hmap hversion htruthy =>
      have hfalse := hfalsy _ (get?_eq_some.mpr ⟨_, hmap, hversion⟩)
      simp [htruthy] at hfalse
    | older hmap _ hswagger => exact ⟨get?_eq_some.mpr ⟨_, hmap, hswagger⟩, rfl⟩
  · intro hgiven
    obtain ⟨hget, rfl⟩ := hgiven
    obtain ⟨entries, hmap, hswagger⟩ := get?_eq_some.mp hget
    exact .older hmap (fun v hfind => hfalsy v (get?_eq_some.mpr ⟨entries, hmap, hfind⟩)) hswagger

/-- What a value declares is its version, if that can be written down. -/
theorem versionOf_eq_some : versionOf data = .ok (some version) ↔
    Declares data version ∧ ∀ v, openapi? data = some v → v.hasLongNumeral = false := by
  rw [versionOf]
  cases hversion : openapi? data with
  | some v =>
    have hdeclares : Declares data version ↔ version = v.text :=
      ⟨fun h => h.text_eq hversion, fun h => h ▸ declares_of_openapi hversion⟩
    rw [hdeclares]
    by_cases hlong : v.hasLongNumeral = true
    · simp [hlong]
    · simp only [hlong, if_neg Bool.false_ne_true, Except.ok.injEq, Option.some.injEq, forall_eq']
      simpa using eq_comm
  | none =>
    have htwo : (data.get? "swagger").any isTwo = true ↔
        data.get? "swagger" = some (.str "2.0") := by
      simp [Option.any_eq_true, isTwo_iff]
    rw [declares_iff_of_no_openapi hversion, ← htwo]
    by_cases hswagger : (data.get? "swagger").any isTwo = true
    · simp only [hswagger, if_pos, Except.ok.injEq, Option.some.injEq]
      simpa using eq_comm
    · simp [hswagger]

theorem versionOf_eq_error (h : versionOf data = .error e) :
    e = .number .tooLarge ∧ ∃ v, openapi? data = some v ∧ v.hasLongNumeral = true := by
  rw [versionOf] at h
  split at h
  · next v hversion =>
    split at h
    · next hlong => exact ⟨(Except.error.inj h).symm, v, hversion, hlong⟩
    · cases h
  · cases h

/-! ### Loading -/

/-- A file that holds a text is loaded as what the text says. -/
theorem load_of_decodes (h : Decodes disk path contents) :
    load disk path = do
      let data ← parse contents path
      match ← versionOf data with
      | none => .error (.noDescriptor path)
      | some version => return { path, contents, data, version } := by
  obtain ⟨bytes, cs, hread, hdecode, rfl⟩ := h
  rw [load, readText_eq_ok.mpr ⟨bytes, cs, hread, hdecode, rfl⟩]
  rfl

/-- A document is loaded exactly if its text can be read, parsed, and declares a version. -/
theorem load_eq_ok {d : Document} : load disk path = .ok d ↔
    d.path = path ∧ Decodes disk path d.contents ∧ parse d.contents path = .ok d.data ∧
      versionOf d.data = .ok (some d.version) := by
  constructor
  · intro h
    rw [load] at h
    obtain ⟨text, htext, h⟩ := Except.bind_eq_ok.mp h
    obtain ⟨bytes, cs, hread, hdecode, rfl⟩ := readText_eq_ok.mp htext
    obtain ⟨data, hparse, h⟩ := Except.bind_eq_ok.mp h
    obtain ⟨version, hversion, h⟩ := Except.bind_eq_ok.mp h
    cases version with
    | none => cases h
    | some version =>
      obtain rfl := Except.ok.inj h
      exact ⟨rfl, ⟨bytes, cs, hread, hdecode, rfl⟩, hparse, hversion⟩
  · intro hgiven
    obtain ⟨rfl, hdecodes, hparse, hversion⟩ := hgiven
    rw [load_of_decodes hdecodes, hparse]
    show (versionOf d.data >>= _) = _
    rw [hversion]
    rfl

/-- A failure is documented, or something stumbled. -/
theorem load_eq_error (h : load disk path = .error e) :
    Documented path e ∨ Stumbles disk path e := by
  rw [load] at h
  obtain htext | ⟨text, htext, h⟩ := Except.bind_eq_error.mp h
  · exact readText_eq_error htext
  · have hdecodes : Decodes disk path (prepare text) := by
      obtain ⟨bytes, cs, hread, hdecode, rfl⟩ := readText_eq_ok.mp htext
      exact ⟨bytes, cs, hread, hdecode, rfl⟩
    obtain hparse | ⟨data, hparse, h⟩ := Except.bind_eq_error.mp h
    · exact parse_eq_error hdecodes hparse
    · obtain hversion | ⟨version, hversion, h⟩ := Except.bind_eq_error.mp h
      · obtain ⟨rfl, v, hv, hlong⟩ := versionOf_eq_error hversion
        exact .inr (.version hdecodes hparse hv hlong)
      · cases version with
        | none =>
          obtain rfl := Except.error.inj h
          exact .inl .noDescriptor
        | some version => cases h

/-- What stumbles ends the loading. -/
theorem Stumbles.load_eq (h : Stumbles disk path e) : load disk path = .error e := by
  cases h with
  | name hread _ =>
    rw [load, readText, Failure.ofFile, hread]
    rfl
  | bytes hread hfault =>
    rw [load, readText, Failure.ofFile, hread]
    simp only [Except.mapError, hfault]
    rfl
  | numeral hdecodes hformat hfault =>
    rw [load_of_decodes hdecodes, parse, hformat]
    simp only [hfault]
    rfl
  | @node contents fault hdecodes hformat hfault hnode =>
    have hparse : parse contents path = .error (.yaml fault) := by
      rw [parse, hformat]
      simp only [hfault, Except.mapError]
    rw [load_of_decodes hdecodes, hparse]
    rfl
  | version hdecodes hparse hversion hlong =>
    rw [load_of_decodes hdecodes, hparse]
    show (versionOf _ >>= _) = _
    rw [versionOf, hversion]
    simp only [hlong]
    rfl

/-- **Loading a document settles in the documented way, or stumbles.** What stumbles fails as it is,
with a failure that is not documented. Where nothing stumbles each failure is documented, and the
documents that can be loaded are those whose text is read and declares a description of an API; the
document has the version that is declared. -/
theorem load_documented (disk : Disk) (path : Path) :
    (∀ e, Stumbles disk path e → load disk path = .error e ∧ ¬Documented path e) ∧
      ((∀ e, ¬Stumbles disk path e) →
        (∀ e, load disk path = .error e → Documented path e) ∧
          ∀ d, load disk path = .ok d ↔
            d.path = path ∧ Decodes disk path d.contents ∧ parse d.contents path = .ok d.data ∧
              Declares d.data d.version) := by
  refine ⟨fun e h => ⟨h.load_eq, h.not_documented⟩, fun hnone => ⟨fun e h => ?_, fun d => ?_⟩⟩
  · exact (load_eq_error h).resolve_right (hnone e)
  · rw [load_eq_ok]
    refine and_congr_right fun _ => and_congr_right fun hdecodes => and_congr_right fun hparse => ?_
    rw [versionOf_eq_some, and_iff_left_iff_imp]
    intro _ v hv
    by_contra hlong
    exact hnone _ (.version hdecodes hparse hv (by simpa using hlong))

/-- A document, and two files that no document can be read from: a byte that is no text, and a day in a
month that does not exist. -/
def strayDisk : Disk :=
  ⟨.directory
    [("a.json", .file (Text.bytes "\x7b\"openapi\": \"3.0.0\"\x7d")),
     ("b.yaml", .file [0xFF]),
     ("c.yaml", .file (Text.bytes "openapi: 3.0.0\nx: 2001-13-40\n"))], ⟨1, []⟩⟩

/-- **Two files that fail in a way that is not documented.** -/
theorem load_undocumented :
    load strayDisk ⟨0, ["b.yaml"]⟩ = .error (.undecodable ⟨0xFF, 0, 1, .badStart⟩) ∧
      load strayDisk ⟨0, ["c.yaml"]⟩ = .error (.yaml (.moment .month)) ∧
      ¬Documented ⟨0, ["b.yaml"]⟩ (.undecodable ⟨0xFF, 0, 1, .badStart⟩) ∧
      ¬Documented ⟨0, ["c.yaml"]⟩ (.yaml (.moment .month)) := by
  have hread : strayDisk.read ⟨0, ["b.yaml"]⟩ = .ok [0xFF] := by decide +kernel
  have hbytes : Stumbles strayDisk ⟨0, ["b.yaml"]⟩ (.undecodable ⟨0xFF, 0, 1, .badStart⟩) :=
    .bytes hread (by decide +kernel)
  have hfails : (Yaml.read "openapi: 3.0.0\nx: 2001-13-40\n").fails (· = .moment .month) := by
    decide +kernel
  obtain ⟨fault, hfault, heq⟩ := Except.exists_of_fails hfails
  obtain rfl := of_decide_eq_true heq
  have hdecodes : Decodes strayDisk ⟨0, ["c.yaml"]⟩ "openapi: 3.0.0\nx: 2001-13-40\n" :=
    ⟨Text.bytes "openapi: 3.0.0\nx: 2001-13-40\n", "openapi: 3.0.0\nx: 2001-13-40\n".toList,
      by decide +kernel, by decide +kernel, by decide +kernel⟩
  have hnode : Stumbles strayDisk ⟨0, ["c.yaml"]⟩ (.yaml (.moment .month)) :=
    .node hdecodes (by decide +kernel) hfault nofun
  exact ⟨hbytes.load_eq, hnode.load_eq, hbytes.not_documented, hnode.not_documented⟩

/-- A document that can be loaded. -/
theorem load_documented_sample :
    (∀ e, ¬Stumbles strayDisk ⟨0, ["a.json"]⟩ e) ∧
      ∃ d, load strayDisk ⟨0, ["a.json"]⟩ = .ok d ∧ Declares d.data d.version := by
  have hok : (load strayDisk ⟨0, ["a.json"]⟩).toOption.isSome = true := by decide +kernel
  obtain ⟨d, hload⟩ := Except.exists_of_isSome_toOption hok
  obtain ⟨hstumbles, hsettles⟩ := load_documented strayDisk ⟨0, ["a.json"]⟩
  have hnone : ∀ e, ¬Stumbles strayDisk ⟨0, ["a.json"]⟩ e := by
    intro e h
    obtain ⟨hfails, -⟩ := hstumbles e h
    rw [hload] at hfails
    cases hfails
  obtain ⟨-, -, -, hdeclares⟩ := ((hsettles hnone).2 d).mp hload
  exact ⟨hnone, d, hload, hdeclares⟩

end ApiLint.Document
