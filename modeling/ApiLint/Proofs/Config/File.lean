import ApiLint.Proofs.Config.Merge
import ApiLint.Proofs.Json.Sound
import ApiLint.Proofs.Toml.Sound
import ApiLint.Proofs.Yaml.Sound

/-! Which configuration is in effect. What a configuration file says is sound, whatever format it is in;
when it is valid, loading it gives a configuration in which the file counts first and the defaults
second, rule by rule, and of which a copy holds the rules of both and no others (`load_effective`). -/
namespace ApiLint.Config

/-! ### What files say -/

section Files

variable {disk : Disk} {path : Path} {v : Value}

theorem readJson_isSound (h : readJson disk path = .ok v) : v.IsSound := by
  obtain ⟨text, -, h⟩ := Except.bind_eq_ok.mp h
  exact Json.read_isSound (Except.mapError_ok_iff.mp h)

theorem readYaml_isSound (h : readYaml disk path = .ok v) : v.IsSound := by
  obtain ⟨bytes, -, h⟩ := Except.bind_eq_ok.mp h
  exact Yaml.readFrom_isSound (Except.mapError_ok_iff.mp h)

theorem readToml_isSound (h : readToml disk path = .ok v) : v.IsSound := by
  obtain ⟨bytes, -, h⟩ := Except.bind_eq_ok.mp h
  split at h
  · cases h
  · exact Toml.read_isSound (Except.mapError_ok_iff.mp h)

theorem wholeFile_isSound {d : Value} (hv : v.IsSound) (h : wholeFile v = some d) : d.IsSound := by
  unfold wholeFile at h
  split at h
  · cases h
    exact .empty
  · cases h
    exact hv

theorem sectionOf_isSound {key d : Value} (hv : v.IsSound) (h : sectionOf v key = .ok (some d)) :
    d.IsSound := by
  unfold sectionOf at h
  split at h
  · next found hfound =>
    obtain rfl : found = some d := Option.eq_some_of_filter_eq_some (Except.ok.inj h)
    exact hv.lookup hfound
  · cases h

/-- What a file says is sound. -/
theorem ofFile_isSound {d : Value} (h : ofFile disk path = .ok (some d)) : d.IsSound := by
  unfold ofFile at h
  split at h
  · obtain ⟨table, htable, h⟩ := Except.bind_eq_ok.mp h
    split at h
    · exact sectionOf_isSound (readJson_isSound htable) h
    · cases h
  · split at h
    · obtain ⟨table, htable, h⟩ := Except.bind_eq_ok.mp h
      refine sectionOf_isSound ?_ h
      cases htool : table.get? "tool" with
      | none => exact .empty
      | some tool => exact (readToml_isSound htable).get? htool
    · split at h
      · obtain ⟨table, htable, heq⟩ := Except.bind_eq_ok.mp h
        cases heq
        exact readToml_isSound htable
      · split at h
        · obtain ⟨v, hv, heq⟩ := Except.bind_eq_ok.mp h
          exact wholeFile_isSound (readJson_isSound hv) (Except.ok.inj heq)
        · obtain ⟨v, hv, heq⟩ := Except.bind_eq_ok.mp h
          exact wholeFile_isSound (readYaml_isSound hv) (Except.ok.inj heq)

/-- What the search comes back with was read from the file that it names. -/
theorem firstOf_eq_some {paths : List Path} (h : firstOf disk paths = .ok (some (path, v))) :
    ofFile disk path = .ok (some v) := by
  induction paths with
  | nil => cases h
  | cons p paths ih =>
    unfold firstOf at h
    obtain ⟨there, -, h⟩ := Except.bind_eq_ok.mp h
    split at h
    · obtain ⟨found, hfound, h⟩ := Except.bind_eq_ok.mp h
      split at h
      · exact ih h
      · cases h
        exact hfound
    · exact ih h

end Files

/-- The configuration of a run is what a file says: the one that is named, or else the nearest. -/
inductive Reads (env : Environment) (disk : Disk) (explicit start : Option Path) (path : Path)
    (d : Value) : Prop
  | named (hnamed : explicit.or env.configFile? = some path)
      (hcontent : ofFile disk path = .ok (some d))
  | found (hnone : explicit.or env.configFile? = none)
      (hfound : discover disk start = .ok (some (path, d)))

section Load

variable {env : Environment} {disk : Disk} {explicit start : Option Path} {path : Path}
  {d merged : Value}

theorem Reads.isSound (h : Reads env disk explicit start path d) : d.IsSound := by
  cases h with
  | named _ hcontent => exact ofFile_isSound hcontent
  | found _ hfound =>
    obtain ⟨directory, -, hfirst⟩ := Except.bind_eq_ok.mp hfound
    exact ofFile_isSound (firstOf_eq_some hfirst)

/-- An empty mapping counts as nothing, and nothing as an empty mapping. -/
theorem truthy_or_empty (h : Conforms d) : (if d.isTruthy then d else .map []) = d := by
  obtain ⟨entries, rfl, -⟩ := h
  cases entries <;> rfl

/-- What a file says is the configuration; what counts as nothing is an empty mapping. -/
theorem Reads.load_eq (h : Reads env disk explicit start path d) :
    load env disk explicit start =
      ofOverride (some path) (if d.isTruthy then d else .map []) := by
  cases h with
  | named hnamed hcontent =>
    have hfilter : ((some d).filter Value.isTruthy).getD (.map []) =
        if d.isTruthy then d else .map [] := by
      rw [Option.filter_some]
      split <;> rfl
    rw [Config.load, hnamed]
    simp only [readExplicit, hcontent, hfilter]
    rfl
  | found hnone hfound =>
    rw [Config.load, hnone]
    simp only [readDiscovered, hfound]
    rfl

theorem Reads.load (h : Reads env disk explicit start path d) (hd : Conforms d) :
    load env disk explicit start = ofOverride (some path) d := by
  rw [h.load_eq, truthy_or_empty hd]

theorem Merges.toValue (h : Merges d merged) (source : Option Path) :
    Config.toValue ⟨merged, source⟩ = .ok merged :=
  toValue_of_rowsAre h.layered.rowsAre

/-- **The configuration in effect.** A file that says something valid is loaded. For each rule what it
says counts, whole, or else what the defaults say, or else nothing. A copy of the configuration holds
the same values, and at each level the names of the defaults in their order, followed by the new ones of
the file in theirs. -/
theorem load_effective (h : Reads env disk explicit start path d) (hvalid : complaints d = .ok []) :
    ∃ c out, load env disk explicit start = .ok c ∧ c.source = some path ∧ c.toValue = .ok out ∧
      (∀ scope category rule : Text, c.value (.str scope) (.str category) (.str rule) =
        .ok ((((d.under? [.str scope, .str category, .str rule]).or
          (defaults.under? [.str scope, .str category, .str rule])).map Value.frozen).getD .null)) ∧
      (∀ place : List Value, place.length = 3 →
        out.under? place = (d.under? place).or (defaults.under? place)) ∧
      ∀ place : List Value, place.length < 3 →
        out.namesAt place = Value.withNew (defaults.namesAt place) (d.namesAt place) := by
  have hconforms : Conforms d := (complaints_eq_nil h.isSound.keyed).mp hvalid
  obtain ⟨merged, hmerged⟩ := exists_merges h.isSound hvalid
  refine ⟨⟨merged, some path⟩, merged, ?_, rfl, hmerged.toValue _, fun scope category rule => ?_,
    hmerged.under?, hmerged.namesAt⟩
  · rw [h.load hconforms, hmerged.ofOverride hvalid]
  · rw [hmerged.value, hmerged.under? _ rfl]

/-- A file in the current directory that turns one rule off. -/
def quietDisk : Disk :=
  ⟨.directory [(".pvarc.json", .file (Text.bytes
    "\x7b\"swagger2\": \x7b\"operations\": \x7b\"no_produces\": \"off\"\x7d\x7d\x7d"))], ⟨1, []⟩⟩

/-- A configuration in the current directory is found without being named. -/
theorem load_effective_sample :
    ∃ d, Reads [] quietDisk none none ⟨1, [".pvarc.json"]⟩ d ∧ complaints d = .ok [] ∧
      ∃ c, load [] quietDisk none none = .ok c ∧ c.source = some ⟨1, [".pvarc.json"]⟩ := by
  have hfound : (discover quietDisk none).holds (fun found => found.any fun f =>
      f.1 = ⟨1, [".pvarc.json"]⟩ && (complaints f.2).holds List.isEmpty) = true := by
    decide +kernel
  obtain ⟨found, hdiscover, hany⟩ := Except.exists_of_holds hfound
  obtain ⟨⟨path, d⟩, rfl, hf⟩ := (Option.any_eq_true _ _).mp hany
  obtain ⟨hpath, hcomplaints⟩ := Bool.and_eq_true_iff.mp hf
  obtain rfl := of_decide_eq_true hpath
  obtain ⟨problems, hvalid, hempty⟩ := Except.exists_of_holds hcomplaints
  rw [List.isEmpty_iff.mp hempty] at hvalid
  have hreads : Reads [] quietDisk none none ⟨1, [".pvarc.json"]⟩ d := .found rfl hdiscover
  obtain ⟨c, -, hload, hsource, -⟩ := load_effective hreads hvalid
  exact ⟨d, hreads, hvalid, c, hload, hsource⟩

end Load

end ApiLint.Config
