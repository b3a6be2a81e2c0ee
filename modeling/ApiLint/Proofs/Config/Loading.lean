import ApiLint.Proofs.Config.File

/-! How loading a configuration ends. A file that was named and cannot be read is an invalid
configuration; a file that was found and cannot be read is as if there were none. There are a few
failures that do not count as such, and these are the failures of the whole (`load_settles`). -/
namespace ApiLint.Config

variable {disk : Disk} {path p : Path} {start : Option Path} {v : Value} {e : Failure}

/-! ### Failures of a file -/

/-- The documented failures of a file: one of the system, and a text that is not in its format. -/
inductive Unreadable : Failure → Prop
  | system {fault : FileFault} {name : Text} (h : fault.description?.isSome = true) :
      Unreadable (.file fault name)
  | json (mistake : Json.Mistake) : Unreadable (.json mistake)
  | yaml : Unreadable (.yaml .malformed)
  | toml : Unreadable (.toml .malformed)

/-- The other failures of a file. -/
inductive Stray : Failure → Prop
  /-- Its name is none for the system. -/
  | name {fault : FileFault} {name : Text} (h : fault.description? = none) : Stray (.file fault name)
  /-- Its bytes are no text. -/
  | bytes (fault : Text.Utf8.Fault) : Stray (.undecodable fault)
  /-- A whole number in JSON has too many digits. -/
  | numeral (fault : Numeral.Fault) : Stray (.number fault)
  /-- YAML cannot be read on, or a node has no value of its kind. -/
  | node {fault : Yaml.Fault} (h : fault ≠ .malformed) : Stray (.yaml fault)
  /-- A whole number in TOML has too many digits. -/
  | item {fault : Toml.Fault} (h : fault ≠ .malformed) : Stray (.toml fault)
  /-- What should hold the section is no table. -/
  | table (kind : String) : Stray (.misuse (.notMapping kind "get"))

/-- The failures that are taken for an unreadable file are those of the system, and of a text that is
not in its format. -/
theorem isUnreadable_iff : isUnreadable e = true ↔ Unreadable e := by
  constructor
  · intro h
    rw [isUnreadable.eq_def] at h
    split at h
    · exact .system h
    · exact .json _
    · exact .yaml
    · exact .toml
    · cases h
  · intro h
    cases h with
    | system h => exact h
    | _ => rfl

theorem Stray.isUnreadable (h : Stray e) : isUnreadable e = false := by
  cases h with
  | name h => rw [Config.isUnreadable, h]; rfl
  | @node fault h => cases fault <;> first | rfl | exact absurd rfl h
  | @item fault h => cases fault <;> first | rfl | exact absurd rfl h
  | _ => rfl

/-- A failure of a file is a documented one or a stray one. -/
abbrev Fails (e : Failure) : Prop := Unreadable e ∨ Stray e

theorem failsIn_ofFile {α : Type} (ask : Path → Except FileFault α) :
    Except.FailsIn Fails (Failure.ofFile ask path) := by
  refine Except.FailsIn.mapError fun fault => ?_
  cases hfault : fault.description? with
  | none => exact .inr (.name hfault)
  | some description => exact .inl (.system (by rw [hfault]; rfl))

theorem failsIn_readText : Except.FailsIn Fails (Document.readText disk path) := by
  intro e h
  rw [Document.readText] at h
  split at h
  · next hread =>
    obtain rfl := Except.error.inj h
    exact failsIn_ofFile disk.read _ hread
  · split at h
    · obtain rfl := Except.error.inj h
      exact .inr (.bytes _)
    · cases h

theorem failsIn_readJson : Except.FailsIn Fails (readJson disk path) := by
  refine failsIn_readText.bind fun text => Except.FailsIn.mapError fun fault => ?_
  cases fault with
  | mistake mistake => exact .inl (.json mistake)
  | numeral fault => exact .inr (.numeral fault)

theorem failsIn_readYaml : Except.FailsIn Fails (readYaml disk path) := by
  refine (failsIn_ofFile disk.read).bind fun bytes => Except.FailsIn.mapError fun fault => ?_
  by_cases h : fault = .malformed
  · subst h
    exact .inl .yaml
  · exact .inr (.node h)

theorem failsIn_readToml : Except.FailsIn Fails (readToml disk path) := by
  refine (failsIn_ofFile disk.read).bind fun bytes => ?_
  cases Text.Utf8.decode bytes with
  | error fault =>
    intro e h
    obtain rfl := Except.error.inj h
    exact .inr (.bytes fault)
  | ok cs =>
    refine Except.FailsIn.mapError fun fault => ?_
    by_cases h : fault = .malformed
    · subst h
      exact .inl .toml
    · exact .inr (.item h)

theorem failsIn_sectionOf (v : Value) : Except.FailsIn Fails (sectionOf v sectionKey) := by
  intro e h
  rw [sectionOf, Value.lookup] at h
  split at h
  · cases h
  · next misuse hlookup =>
    split at hlookup
    · cases hlookup
    · obtain rfl := Except.error.inj hlookup
      obtain rfl := Except.error.inj h
      exact .inr (.table _)

/-- Whatever kind of file it is, reading its content fails in one of the known ways. -/
theorem failsIn_content : Except.FailsIn Fails (ofFile disk path) := by
  rw [ofFile]
  split
  · refine failsIn_readJson.bind fun v => ?_
    split
    · exact failsIn_sectionOf _
    · exact .ok none
  · split
    · exact failsIn_readToml.bind fun table => failsIn_sectionOf _
    · split
      · exact failsIn_readToml.bind fun table => .ok _
      · split
        · exact failsIn_readJson.bind fun v => .ok _
        · exact failsIn_readYaml.bind fun v => .ok _

/-! ### The search -/

/-- A candidate that is passed over: there is no such file, or it has no section for a
configuration. -/
def Skipped (disk : Disk) (p : Path) : Prop :=
  disk.isFile p = .ok false ∨ disk.isFile p = .ok true ∧ ofFile disk p = .ok none

/-- The first file upwards from a directory that is a candidate and not passed over. -/
inductive Nearest (disk : Disk) (start : Option Path) (p : Path) : Prop
  | intro {directory : Path} {before after : List Path}
      (hstart : disk.canonical (start.getD ⟨0, []⟩) = .ok directory)
      (hsearched : searched directory = before ++ p :: after)
      (hskipped : ∀ q ∈ before, Skipped disk q) (hfile : disk.isFile p = .ok true)
      (hcounts : ofFile disk p ≠ .ok none)

theorem firstOf_cons_of_skipped {paths : List Path} (h : Skipped disk p) :
    firstOf disk (p :: paths) = firstOf disk paths := by
  rw [firstOf, Failure.ofFile]
  obtain hnone | ⟨hfile, hcontent⟩ := h
  · rw [hnone]
    rfl
  · rw [hfile, hcontent]
    rfl

theorem firstOf_append {before after : List Path} (h : ∀ q ∈ before, Skipped disk q) :
    firstOf disk (before ++ after) = firstOf disk after := by
  induction before with
  | nil => rfl
  | cons q before ih =>
    obtain ⟨hq, hbefore⟩ := List.forall_mem_cons.mp h
    rw [List.cons_append, firstOf_cons_of_skipped hq, ih hbefore]

/-- The first file that is not passed over decides. -/
theorem firstOf_cons {paths : List Path} (hfile : disk.isFile p = .ok true)
    (hcounts : ofFile disk p ≠ .ok none) :
    firstOf disk (p :: paths) = (ofFile disk p).map (Option.map (p, ·)) := by
  rw [firstOf, Failure.ofFile, hfile]
  cases hcontent : ofFile disk p with
  | error e => rfl
  | ok found =>
    cases found with
    | none => exact absurd hcontent hcounts
    | some v => rfl

/-- The candidates are all passed over, or one cannot be looked at, or one decides. -/
theorem firstOf_cases (disk : Disk) (paths : List Path) :
    firstOf disk paths = .ok none ∨
      (∃ fault name, firstOf disk paths = .error (.file fault name)) ∨
      ∃ before p after, paths = before ++ p :: after ∧ (∀ q ∈ before, Skipped disk q) ∧
        disk.isFile p = .ok true ∧ ofFile disk p ≠ .ok none := by
  induction paths with
  | nil => exact .inl rfl
  | cons p paths ih =>
    by_cases hp : Skipped disk p
    · rw [firstOf_cons_of_skipped hp]
      refine ih.imp_right (Or.imp_right ?_)
      rintro ⟨before, q, after, rfl, hskipped, hq⟩
      exact ⟨p :: before, q, after, rfl, List.forall_mem_cons.mpr ⟨hp, hskipped⟩, hq⟩
    · cases hfile : disk.isFile p with
      | error fault =>
        refine .inr (.inl ⟨fault, p.text, ?_⟩)
        rw [firstOf, Failure.ofFile, hfile]
        rfl
      | ok there =>
        cases there with
        | false => exact absurd (.inl hfile) hp
        | true =>
          exact .inr (.inr ⟨[], p, paths, rfl, List.forall_mem_nil _, hfile,
            fun hcontent => hp (.inr ⟨hfile, hcontent⟩)⟩)

theorem Nearest.counts (h : Nearest disk start p) : ofFile disk p ≠ .ok none := by
  obtain ⟨-, -, -, -, hcounts⟩ := h
  exact hcounts

theorem discover_eq {directory : Path}
    (hstart : disk.canonical (start.getD ⟨0, []⟩) = .ok directory) :
    discover disk start = firstOf disk (searched directory) := by
  rw [discover, Failure.ofFile, hstart]
  rfl

theorem Nearest.discover_eq (h : Nearest disk start p) :
    discover disk start = (ofFile disk p).map (Option.map (p, ·)) := by
  obtain ⟨hstart, hsearched, hskipped, hfile, hcounts⟩ := h
  rw [Config.discover_eq hstart, hsearched, firstOf_append hskipped, firstOf_cons hfile hcounts]

/-- A search ends in one of three ways: nothing is found, the system refuses a name, or one candidate is
the nearest. -/
theorem discover_cases (disk : Disk) (start : Option Path) :
    discover disk start = .ok none ∨
      (∃ fault name, discover disk start = .error (.file fault name)) ∨
      ∃ p, Nearest disk start p := by
  cases hstart : disk.canonical (start.getD ⟨0, []⟩) with
  | error fault =>
    refine .inr (.inl ⟨fault, (start.getD ⟨0, []⟩).text, ?_⟩)
    rw [discover, Failure.ofFile, hstart]
    rfl
  | ok directory =>
    rw [discover_eq hstart]
    refine (firstOf_cases disk (searched directory)).imp_right (Or.imp_right ?_)
    rintro ⟨before, p, after, hsearched, hskipped, hfile, hcounts⟩
    exact ⟨p, hstart, hsearched, hskipped, hfile, hcounts⟩

/-! ### What a file says -/

theorem eq_tooLarge_of_complaints (h : complaints v = .error e) : e = .number .tooLarge := by
  rw [complaints] at h
  split at h
  · cases h
  · exact (Except.error.inj h).symm

/-- What is sound gives a configuration, or has complaints, or has some that cannot be written. -/
theorem ofOverride_cases (hv : v.IsSound) (source : Option Path) :
    (∃ c, ofOverride source v = .ok c) ∨
      (∃ problems, ofOverride source v = .error (.invalidConfig problems)) ∨
      ∃ e, complaints v = .error e ∧ ofOverride source v = .error e := by
  cases hcomplaints : complaints v with
  | error e =>
    refine .inr (.inr ⟨e, rfl, ?_⟩)
    rw [ofOverride, hcomplaints]
    rfl
  | ok problems =>
    cases problems with
    | nil =>
      obtain ⟨merged, hmerged⟩ := exists_merges hv hcomplaints
      exact .inl ⟨_, hmerged.ofOverride hcomplaints source⟩
    | cons problem problems =>
      refine .inr (.inl ⟨problem :: problems, ?_⟩)
      rw [ofOverride, hcomplaints]
      rfl

theorem complaints_empty : complaints (.map []) = .ok [] :=
  (complaints_eq_nil Value.IsSound.empty.keyed).mpr ⟨[], rfl, List.forall_mem_nil _⟩

/-- An empty mapping leaves the defaults as they are. -/
theorem ofOverride_empty (source : Option Path) :
    ofOverride source (.map []) = .ok ⟨defaults, source⟩ := by
  rw [ofOverride, complaints_empty]
  rfl

/-! ### Loading -/

variable {env : Environment} {explicit : Option Path}

/-- A failure that nothing takes in hand when a configuration is loaded. -/
inductive Stumbles (env : Environment) (disk : Disk) (explicit start : Option Path) : Failure → Prop
  /-- The file that is named fails. -/
  | named {path : Path} {e : Failure} (hnamed : explicit.or env.configFile? = some path)
      (hcontent : ofFile disk path = .error e) (hstray : Stray e) : Stumbles env disk explicit start e
  /-- The nearest file fails. -/
  | found {path : Path} {e : Failure} (hnone : explicit.or env.configFile? = none)
      (hnearest : Nearest disk start path) (hcontent : ofFile disk path = .error e)
      (hstray : Stray e) : Stumbles env disk explicit start e
  /-- The name of a directory or of a candidate is none for the system. -/
  | name {fault : FileFault} {name : Text} (hnone : explicit.or env.configFile? = none)
      (hdiscover : discover disk start = .error (.file fault name))
      (hfault : fault.description? = none) : Stumbles env disk explicit start (.file fault name)
  /-- What the file says has a complaint that cannot be written. -/
  | complaint {path : Path} {v : Value} {e : Failure} (hreads : Reads env disk explicit start path v)
      (htruthy : v.isTruthy = true) (hcomplaints : complaints v = .error e) :
      Stumbles env disk explicit start e

theorem load_of_discover_error (hnone : explicit.or env.configFile? = none)
    (hdiscover : discover disk start = .error e) :
    load env disk explicit start = if isUnreadable e then .ok default else .error e := by
  rw [load, hnone]
  simp only [readDiscovered, hdiscover]
  split
  · exact ofOverride_empty none
  · rfl

theorem load_of_named_error (hnamed : explicit.or env.configFile? = some path)
    (hcontent : ofFile disk path = .error e) :
    load env disk explicit start =
      if isUnreadable e then
        .error (.invalidConfig ["Could not read " ++ path.text ++ ": " ++ e.message])
      else .error e := by
  rw [load, hnamed]
  simp only [readExplicit, hcontent]
  split <;> rfl

theorem Nearest.discover_eq_error (h : Nearest disk start path)
    (hcontent : ofFile disk path = .error e) : discover disk start = .error e := by
  rw [h.discover_eq, hcontent]
  rfl

/-- What stumbles ends the loading. -/
theorem Stumbles.load_eq (h : Stumbles env disk explicit start e) :
    load env disk explicit start = .error e := by
  cases h with
  | named hnamed hcontent hstray =>
    rw [load_of_named_error hnamed hcontent, hstray.isUnreadable, if_neg Bool.false_ne_true]
  | found hnone hnearest hcontent hstray =>
    rw [load_of_discover_error hnone (hnearest.discover_eq_error hcontent), hstray.isUnreadable,
      if_neg Bool.false_ne_true]
  | name hnone hdiscover hfault =>
    rw [load_of_discover_error hnone hdiscover, (Stray.name hfault).isUnreadable,
      if_neg Bool.false_ne_true]
  | complaint hreads htruthy hcomplaints =>
    rw [hreads.load_eq, if_pos htruthy, ofOverride, hcomplaints]
    rfl

/-- What stumbles is no invalid configuration. -/
theorem Stumbles.ne_invalidConfig (h : Stumbles env disk explicit start e) (problems : List Text) :
    e ≠ .invalidConfig problems := by
  rintro rfl
  cases h with
  | named _ _ hstray => cases hstray
  | found _ _ _ hstray => cases hstray
  | complaint _ _ hcomplaints => cases eq_tooLarge_of_complaints hcomplaints

/-- Loading ends with a configuration or with an invalid one, or stumbles. -/
def Ends (env : Environment) (disk : Disk) (explicit start : Option Path) : Prop :=
  (∃ c, load env disk explicit start = .ok c) ∨
    (∃ problems, load env disk explicit start = .error (.invalidConfig problems)) ∨
    ∃ e, Stumbles env disk explicit start e

theorem ends_of_reads (h : Reads env disk explicit start path v) :
    Ends env disk explicit start := by
  rw [Ends, h.load_eq]
  by_cases htruthy : v.isTruthy = true
  · rw [if_pos htruthy]
    refine (ofOverride_cases h.isSound _).imp_right (Or.imp_right ?_)
    rintro ⟨e, hcomplaints, -⟩
    exact ⟨e, .complaint h htruthy hcomplaints⟩
  · rw [if_neg htruthy]
    exact .inl ⟨_, ofOverride_empty _⟩

/-- Loading a file that is named, by the caller or by a variable, ends in one of the known ways. -/
theorem ends_of_named (hnamed : explicit.or env.configFile? = some path) :
    Ends env disk explicit start := by
  cases hcontent : ofFile disk path with
  | error e =>
    obtain hunreadable | hstray := failsIn_content e hcontent
    · rw [Ends, load_of_named_error hnamed hcontent, if_pos (isUnreadable_iff.mpr hunreadable)]
      exact .inr (.inl ⟨_, rfl⟩)
    · exact .inr (.inr ⟨e, .named hnamed hcontent hstray⟩)
  | ok found =>
    cases found with
    | some v => exact ends_of_reads (.named hnamed hcontent)
    | none =>
      refine .inl ⟨⟨defaults, some path⟩, ?_⟩
      rw [load, hnamed]
      simp only [readExplicit, hcontent]
      exact ofOverride_empty (some path)

/-- So does loading without a named file: the nearest one decides, or the defaults do. -/
theorem ends_of_unnamed (hnone : explicit.or env.configFile? = none) :
    Ends env disk explicit start := by
  obtain hdiscover | ⟨fault, name, hdiscover⟩ | ⟨path, hnearest⟩ := discover_cases disk start
  · refine .inl ⟨default, ?_⟩
    rw [load, hnone]
    simp only [readDiscovered, hdiscover]
    exact ofOverride_empty none
  · cases hfault : fault.description? with
    | some description =>
      have hunreadable : Unreadable (.file fault name) := .system (by rw [hfault]; rfl)
      rw [Ends, load_of_discover_error hnone hdiscover, if_pos (isUnreadable_iff.mpr hunreadable)]
      exact .inl ⟨default, rfl⟩
    | none => exact .inr (.inr ⟨_, .name hnone hdiscover hfault⟩)
  · cases hcontent : ofFile disk path with
    | error e =>
      obtain hunreadable | hstray := failsIn_content e hcontent
      · rw [Ends, load_of_discover_error hnone (hnearest.discover_eq_error hcontent),
          if_pos (isUnreadable_iff.mpr hunreadable)]
        exact .inl ⟨default, rfl⟩
      · exact .inr (.inr ⟨e, .found hnone hnearest hcontent hstray⟩)
    | ok found =>
      have hdiscover := hnearest.discover_eq
      rw [hcontent] at hdiscover
      cases found with
      | none => exact absurd hcontent hnearest.counts
      | some v => exact ends_of_reads (.found hnone hdiscover)

/-- **Loading a configuration settles in the documented way, or stumbles.** A file that is named and
cannot be read is an invalid configuration; when the nearest file cannot be read, the configuration is
the default one. What stumbles fails as it is, and that is no invalid configuration. Where nothing
stumbles there is a configuration, or an invalid one. -/
theorem load_settles (env : Environment) (disk : Disk) (explicit start : Option Path) :
    (∀ path e, explicit.or env.configFile? = some path → ofFile disk path = .error e →
        Unreadable e → load env disk explicit start =
          .error (.invalidConfig ["Could not read " ++ path.text ++ ": " ++ e.message])) ∧
      (∀ path e, explicit.or env.configFile? = none → Nearest disk start path →
        ofFile disk path = .error e → Unreadable e →
          load env disk explicit start = .ok ⟨defaults, none⟩) ∧
      (∀ e, Stumbles env disk explicit start e →
        load env disk explicit start = .error e ∧ ∀ problems, e ≠ .invalidConfig problems) ∧
      ((∀ e, ¬Stumbles env disk explicit start e) →
        (∃ c, load env disk explicit start = .ok c) ∨
          ∃ problems, load env disk explicit start = .error (.invalidConfig problems)) := by
  refine ⟨fun path e hnamed hcontent hunreadable => ?_,
    fun path e hnone hnearest hcontent hunreadable => ?_,
    fun e h => ⟨h.load_eq, h.ne_invalidConfig⟩, fun hnot => ?_⟩
  · rw [load_of_named_error hnamed hcontent, if_pos (isUnreadable_iff.mpr hunreadable)]
  · rw [load_of_discover_error hnone (hnearest.discover_eq_error hcontent),
      if_pos (isUnreadable_iff.mpr hunreadable)]
    rfl
  · have hends : Ends env disk explicit start := by
      cases hfile : explicit.or env.configFile? with
      | none => exact ends_of_unnamed hfile
      | some path => exact ends_of_named hfile
    refine hends.imp_right (Or.resolve_right · ?_)
    rintro ⟨e, h⟩
    exact hnot e h

/-- A directory in which there is nothing but one file. -/
def lonelyDisk (name : Text) (content : List UInt8) : Disk :=
  ⟨.directory [(name, .file content)], ⟨1, []⟩⟩

/-- A file that is cut short is as if it were not there. -/
theorem load_settles_sample :
    ∃ e, Nearest (lonelyDisk ".pvarc.json" (Text.bytes "\x7b")) none ⟨1, [".pvarc.json"]⟩ ∧
      ofFile (lonelyDisk ".pvarc.json" (Text.bytes "\x7b")) ⟨1, [".pvarc.json"]⟩ = .error e ∧
      Unreadable e ∧
      load [] (lonelyDisk ".pvarc.json" (Text.bytes "\x7b")) none none = .ok ⟨defaults, none⟩ := by
  have hfails : (ofFile (lonelyDisk ".pvarc.json" (Text.bytes "\x7b")) ⟨1, [".pvarc.json"]⟩).fails
      isUnreadable = true := by
    decide +kernel
  obtain ⟨e, hcontent, hunreadable⟩ := Except.exists_of_fails hfails
  have hskipped : ∀ q ∈ [Path.child ⟨1, []⟩ "package.json", Path.child ⟨1, []⟩ ".pvarc"],
      Skipped (lonelyDisk ".pvarc.json" (Text.bytes "\x7b")) q := by
    have hmissing : ∀ q ∈ [Path.child ⟨1, []⟩ "package.json", Path.child ⟨1, []⟩ ".pvarc"],
        (lonelyDisk ".pvarc.json" (Text.bytes "\x7b")).isFile q = .ok false := by
      decide +kernel
    exact fun q hq => .inl (hmissing q hq)
  have hstart : (lonelyDisk ".pvarc.json" (Text.bytes "\x7b")).canonical ⟨0, []⟩ = .ok ⟨1, []⟩ := by
    decide +kernel
  have hnearest : Nearest (lonelyDisk ".pvarc.json" (Text.bytes "\x7b")) none ⟨1, [".pvarc.json"]⟩ :=
    .intro hstart rfl hskipped (by decide +kernel) (by rw [hcontent]; exact nofun)
  refine ⟨e, hnearest, hcontent, isUnreadable_iff.mp hunreadable, ?_⟩
  exact (load_settles _ _ _ _).2.1 _ e rfl hnearest hcontent (isUnreadable_iff.mp hunreadable)

/-- **Three files that were only found, and end the loading all the same**: a byte that is no text, a day
in a month that does not exist, and a number where the table with the section should be. -/
theorem load_strays :
    (∃ fault, load [] (lonelyDisk ".pvarc.json" [0xFF]) none none = .error (.undecodable fault)) ∧
      (∃ fault, load [] (lonelyDisk ".pvarc" (Text.bytes "2001-13-40")) none none =
        .error (.yaml (.moment fault))) ∧
      ∃ kind, load [] (lonelyDisk "pyproject.toml" (Text.bytes "tool = 5\n")) none none =
        .error (.misuse (.notMapping kind "get")) := by
  have hbytes : (load [] (lonelyDisk ".pvarc.json" [0xFF]) none none).fails
      (· matches .undecodable _) = true := by
    decide +kernel
  have hmonth : (load [] (lonelyDisk ".pvarc" (Text.bytes "2001-13-40")) none none).fails
      (· matches .yaml (.moment _)) = true := by
    decide +kernel
  have htable : (load [] (lonelyDisk "pyproject.toml" (Text.bytes "tool = 5\n")) none none).fails
      (· matches .misuse (.notMapping _ "get")) = true := by
    decide +kernel
  refine ⟨?_, ?_, ?_⟩
  · obtain ⟨e, hload, hmatches⟩ := Except.exists_of_fails hbytes
    split at hmatches
    · exact ⟨_, hload⟩
    · cases hmatches
  · obtain ⟨e, hload, hmatches⟩ := Except.exists_of_fails hmonth
    split at hmatches
    · exact ⟨_, hload⟩
    · cases hmatches
  · obtain ⟨e, hload, hmatches⟩ := Except.exists_of_fails htable
    split at hmatches
    · exact ⟨_, hload⟩
    · cases hmatches

end ApiLint.Config
