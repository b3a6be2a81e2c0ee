import ApiLint.Proofs.Document.Loading
import ApiLint.Proofs.Engine.Answer
import ApiLint.Proofs.Engine.Frame
import ApiLint.Proofs.Engine.Structure
import ApiLint.Proofs.Lint.Conservation

/-! Whose failure it is when linting a document fails. Each step names the document when it fails in its
own name (`Failure.Names`), with one exception: an answer of the rule engine is read without the document
at hand, and when it is refused nothing is named (`Lint.Refuses`). Put together, a failure of linting
names the document unless the answer was refused (`Lint.ofFile_names`). -/
namespace ApiLint

namespace Failure

/-- Whether a failure is one of linting a document, and not of the system or of the configuration. -/
def isLint : Failure → Bool
  | badJson _ _ | badYaml _ | unsupported _ | noDescriptor _ | engine _ _ => true
  | _ => false

/-- A failure of linting names a document; any other names what it likes. -/
def Names (path : Path) (e : Failure) : Prop :=
  e.isLint = true → e.document? = some path

theorem Names.of_isLint_eq_false {path : Path} {e : Failure} (h : e.isLint = false) :
    e.Names path :=
  fun hlint => absurd (h.symm.trans hlint) Bool.false_ne_true

end Failure

variable {disk : Disk} {path : Path} {d : Document} {e : Failure}

/-! ### Reading and checking -/

theorem Document.failsIn_load : (Document.load disk path).FailsIn (Failure.Names path) := by
  intro e h
  obtain hdocumented | hstumbles := load_eq_error h
  · cases hdocumented with
    | system => exact .of_isLint_eq_false rfl
    | malformed hkind _ => obtain ⟨mistake, rfl⟩ | rfl := hkind <;> exact fun _ => rfl
    | unsupported => exact fun _ => rfl
    | noDescriptor => exact fun _ => rfl
  · cases hstumbles <;> exact .of_isLint_eq_false rfl

/-- Where the check of structure names a document, it names the one that it checks. -/
theorem Structure.failsIn_check {validator : Validator} {config : Config} :
    (Structure.check validator disk config d).FailsIn (Failure.Names d.path) := by
  intro e h
  rw [check] at h
  split at h
  · obtain rfl := Except.error.inj h
    exact fun _ => rfl
  · obtain h | ⟨circular, -, h⟩ := Except.bind_eq_error.mp h
    · cases Reference.stumbles_of_error h <;> exact .of_isLint_eq_false rfl
    · obtain h | ⟨status, -, h⟩ := Except.bind_eq_error.mp h
      · obtain ⟨m, -, rfl⟩ := Except.mapError_eq_error.mp h
        exact .of_isLint_eq_false rfl
      · cases h

/-! ### Putting together -/

namespace Locator

theorem failsIn_ofText (contents : Text) : (ofText contents).FailsIn (Failure.Names path) := by
  intro e h
  unfold ofText at h
  generalize Yaml.compose (.ofText contents) = composed at h
  split at h
  · cases h
  · cases h
  · obtain rfl := Except.error.inj h
    exact .of_isLint_eq_false rfl

/-- A step of the locator fails without naming a document. -/
theorem failsIn_step (l : Locator) (segment : Value) (node : Yaml.Node) :
    (l.step segment node).FailsIn (Failure.Names path) := by
  intro e h
  rw [step.eq_def] at h
  split at h
  · split at h
    · obtain rfl := Except.error.inj h
      exact .of_isLint_eq_false rfl
    · cases h
  · have h := Except.map_eq_error.mp h
    rw [index?.eq_def] at h
    split at h
    · cases h
    · cases h
    · split at h
      · obtain rfl := Except.error.inj h
        exact .of_isLint_eq_false rfl
      · cases h
    · cases h
    · cases h
  · cases h

/-- A row of steps fails without naming a document. -/
theorem failsIn_follow (l : Locator) (line : Nat) (node : Yaml.Node) (steps : List Value) :
    (l.follow line node steps).FailsIn (Failure.Names path) := by
  induction steps generalizing line node with
  | nil => exact .ok line
  | cons segment steps ih =>
    intro e h
    rw [follow] at h
    split at h
    · next hstep =>
      obtain rfl := Except.error.inj h
      exact l.failsIn_step segment node _ hstep
    · cases h
    · exact ih _ _ e h

theorem failsIn_lineOf (l : Locator) (steps : List Value) :
    (l.lineOf steps).FailsIn (Failure.Names path) := by
  intro e h
  rw [lineOf] at h
  split at h
  · cases h
  · exact l.failsIn_follow _ _ steps e h

end Locator

/-- Merging findings fails without naming a document. -/
theorem Diagnosis.failsIn_merge {version : Text} {structural rules : List Finding}
    {locator : Locator} :
    (merge version structural rules locator).FailsIn (Failure.Names path) := by
  rw [merge]
  generalize ({ version } : Diagnosis) = r
  induction structural ++ rules generalizing r with
  | nil => exact .ok r
  | cons f fs ih =>
    rw [List.foldlM_cons]
    refine Except.FailsIn.bind ?_ ih
    refine Except.FailsIn.bind (.mapError fun m => .of_isLint_eq_false rfl) fun severity => ?_
    exact (locator.failsIn_lineOf f.path).bind fun line => .ok _

/-! ### The rule engine -/

theorem Answer.Stumbles.isLint {output : Text} (h : Answer.Stumbles output e) :
    e.isLint = false := by
  cases h <;> rfl

theorem Answer.Refuses.isLint {output : Text} (h : Answer.Refuses output e) :
    e.isLint = true ∧ e.document? = none := by
  cases h <;> exact ⟨rfl, rfl⟩

namespace EngineSettings

variable {engine : EngineSettings} {program : Program} {scratch : Scratch} {config : Config}

/-- What a program says names the document, unless it came to its end with an answer that is refused. -/
theorem judge_eq_error {κ : Type} [BEq κ] {key : Finding → κ} {outcome : Outcome}
    (h : engine.judge key d outcome = .error e) :
    e.Names d.path ∨ ∃ code output said, outcome = .finished code output said ∧
      (code = 0 ∨ code = 1) ∧ Answer.Refuses output e := by
  cases outcome with
  | finished code output said =>
    obtain h | ⟨r, hr, h⟩ := Except.bind_eq_error.mp h
    · cases h
    obtain rfl := Except.ok.inj hr
    rw [assess] at h
    split at h
    · next hcode =>
      obtain hrefuses | hstumbles := Answer.parse_eq_error.mp (Except.map_eq_error.mp h)
      · exact .inr ⟨code, output, said, rfl, by simpa [goodCodes] using hcode, hrefuses⟩
      · exact .inl (.of_isLint_eq_false hstumbles.isLint)
    · obtain rfl := Except.error.inj h
      exact .inl fun _ => rfl
  | missing =>
    obtain rfl := Except.error.inj h
    exact .inl fun _ => rfl
  | timedOut =>
    obtain rfl := Except.error.inj h
    exact .inl fun _ => rfl
  | denied =>
    obtain rfl := Except.error.inj h
    exact .inl (.of_isLint_eq_false rfl)
  | broken =>
    obtain rfl := Except.error.inj h
    exact .inl (.of_isLint_eq_false rfl)

theorem judge_of_refuses {κ : Type} [BEq κ] {key : Finding → κ} {code : Int} {output said : Text}
    (hcode : code = 0 ∨ code = 1) (h : Answer.Refuses output e) :
    engine.judge key d (.finished code output said) = .error e := by
  refine Except.bind_eq_error.mpr (.inr ⟨_, rfl, ?_⟩)
  rw [assess, if_pos (by simpa [goodCodes] using hcode), Answer.parse_eq_error.mpr (.inl h)]
  rfl

/-- A run that does not come to start the program fails in no document's name; any other starts the
program once and fails where its outcome does. -/
theorem run_cases (engine : EngineSettings) (program : Program) (scratch : Scratch) (disk : Disk)
    (config : Config) (d : Document) :
    (∃ e, (engine.run program scratch disk config d).answer = .error e ∧ e.isLint = false ∧
      (engine.run program scratch disk config d).invocations = []) ∨
    ∃ i, (engine.run program scratch disk config d).invocations = [i] ∧
      (engine.run program scratch disk config d).answer =
        engine.judge Finding.key d (program (disk.write i.source (Text.bytes i.contents)) i) := by
  rw [run]
  cases hruleset : engine.rulesetFor config with
  | error failure =>
    obtain ⟨m, -, rfl⟩ := Except.mapError_eq_error.mp hruleset
    rw [run_session_of_no_ruleset hruleset]
    exact .inl ⟨_, rfl, rfl, rfl⟩
  | ok ruleset =>
    by_cases hname : disk.find (engine.invocation scratch disk d ruleset).source =
        .error .nameTooLong
    · rw [run_session_of_nameTooLong (w := { disk }) hruleset hname]
      exact .inl ⟨_, rfl, rfl, rfl⟩
    · rw [run_session (w := { disk }) hruleset hname]
      exact .inr ⟨_, rfl, rfl⟩

end EngineSettings

namespace Lint

variable {setup : Setup}

/-- The rule engine's program was started on a document and came to its end, and its answer is refused
with a failure. -/
def Refuses (setup : Setup) (disk : Disk) (d : Document) (e : Failure) : Prop :=
  ∃ i code output said,
    (setup.engine.run setup.program setup.scratch disk setup.config d).invocations = [i] ∧
    setup.program (disk.write i.source (Text.bytes i.contents)) i = .finished code output said ∧
    (code = 0 ∨ code = 1) ∧ Answer.Refuses output e

/-- A run of the rule engine that fails names the document, unless the answer is refused. -/
theorem answer_eq_error
    (h : (setup.engine.run setup.program setup.scratch disk setup.config d).answer = .error e) :
    e.Names d.path ∨ Refuses setup disk d e := by
  obtain ⟨failure, hfails, hlint, -⟩ | ⟨i, hinvocations, hanswer⟩ :=
    EngineSettings.run_cases setup.engine setup.program setup.scratch disk setup.config d
  · obtain rfl := Except.error.inj (hfails.symm.trans h)
    exact .inl (.of_isLint_eq_false hlint)
  · obtain hnames | ⟨code, output, said, houtcome, hcode, hrefuses⟩ :=
      EngineSettings.judge_eq_error (hanswer.symm.trans h)
    · exact .inl hnames
    · exact .inr ⟨i, code, output, said, hinvocations, houtcome, hcode, hrefuses⟩

/-- A refused answer is what a run of the rule engine fails with. -/
theorem answer_of_refuses (h : Refuses setup disk d e) :
    (setup.engine.run setup.program setup.scratch disk setup.config d).answer = .error e := by
  obtain ⟨i, code, output, said, hinvocations, houtcome, hcode, hrefuses⟩ := h
  obtain ⟨-, -, -, hnone⟩ | ⟨i', hinvocations', hanswer⟩ :=
    EngineSettings.run_cases setup.engine setup.program setup.scratch disk setup.config d
  · rw [hinvocations] at hnone
    cases hnone
  · obtain rfl := List.singleton_inj.mp (hinvocations.symm.trans hinvocations')
    rw [hanswer, houtcome]
    exact EngineSettings.judge_of_refuses hcode hrefuses

/-! ### Linting a document -/

/-- A document that is loaded fails by its own name, or as an answer that the rule engine refuses. -/
theorem ofDocument_names (h : (ofDocument setup disk d).result = .error e) :
    e.Names d.path ∨ ∃ built, Structure.check setup.validator disk setup.config d = .ok built ∧
      Refuses setup disk d e := by
  rw [ofDocument] at h
  split at h
  · next failure hcheck =>
    obtain rfl := Except.error.inj h
    exact .inl (Structure.failsIn_check _ hcheck)
  · next built hcheck =>
    obtain h | ⟨findings, -, h⟩ := Except.bind_eq_error.mp h
    · exact (answer_eq_error h).imp id fun hrefuses => ⟨built, hcheck, hrefuses⟩
    · refine .inl ?_
      obtain h | ⟨locator, -, h⟩ := Except.bind_eq_error.mp h
      · exact Locator.failsIn_ofText d.contents e h
      · exact Diagnosis.failsIn_merge e h

theorem Refuses.isLint (h : Refuses setup disk d e) : e.isLint = true ∧ e.document? = none := by
  obtain ⟨_, _, _, _, -, -, -, hrefuses⟩ := h
  exact hrefuses.isLint

theorem ofFile_of_refuses {built : Structure.Built} (hload : Document.load disk path = .ok d)
    (hcheck : Structure.check setup.validator disk setup.config d = .ok built)
    (h : Refuses setup disk d e) : (ofFile setup disk path).result = .error e := by
  rw [ofFile, hload]
  simp only [ofDocument, hcheck, answer_of_refuses h]
  rfl

/-- **A failure of linting names the document**, whatever the configuration, the outside check and the
rule engine do, unless the rule engine's program came to its end and its answer is refused: then the
failure is one of linting that names no document. -/
theorem ofFile_names (setup : Setup) (disk : Disk) (path : Path) (e : Failure) :
    ((ofFile setup disk path).result = .error e → e.isLint = true →
      e.document? = some path ∨ e.document? = none ∧ ∃ d built, Document.load disk path = .ok d ∧
        Structure.check setup.validator disk setup.config d = .ok built ∧
        Refuses setup disk d e) ∧
    ∀ d built, Document.load disk path = .ok d →
      Structure.check setup.validator disk setup.config d = .ok built → Refuses setup disk d e →
      (ofFile setup disk path).result = .error e ∧ e.isLint = true ∧ e.document? = none := by
  constructor
  · intro h hlint
    rw [ofFile] at h
    split at h
    · next failure hload =>
      obtain rfl := Except.error.inj h
      exact .inl (Document.failsIn_load _ hload hlint)
    · next d hload =>
      obtain hnames | ⟨built, hcheck, hrefuses⟩ := ofDocument_names h
      · exact .inl ((Document.load_eq_ok.mp hload).1 ▸ hnames hlint)
      · exact .inr ⟨hrefuses.isLint.2, d, built, hload, hcheck, hrefuses⟩
  · intro d built hload hcheck hrefuses
    exact ⟨ofFile_of_refuses hload hcheck hrefuses, hrefuses.isLint⟩

/-- A rule engine that takes too long. -/
def slowSetup : Setup :=
  { sampleSetup with program := fun _ _ => .timedOut }

/-- The rule engine takes too long, and the failure says for which document. -/
theorem ofFile_names_sample :
    ∃ e, (ofFile slowSetup sampleDisk (Path.ofText "/a.json")).result = .error e ∧
      e.isLint = true ∧ e.document? = some (Path.ofText "/a.json") := by
  have hfails : (ofFile slowSetup sampleDisk (Path.ofText "/a.json")).result.fails (fun e =>
      e.isLint && e.document?.isSome) = true := by
    decide +kernel
  obtain ⟨e, he, hholds⟩ := Except.exists_of_fails hfails
  obtain ⟨hlint, hsome⟩ := Bool.and_eq_true_iff.mp hholds
  obtain hnames | ⟨hnone, -⟩ := (ofFile_names _ _ _ _).1 he hlint
  · exact ⟨e, he, hlint, hnames⟩
  · rw [hnone] at hsome
    cases hsome

/-- A rule engine whose answer is no JSON. -/
def garbledSetup (config : Config) : Setup :=
  { sampleSetup with config, validator := fun _ => ⟨[], none⟩,
                     program := fun _ _ => .finished 0 "not json" "" }

theorem refuses_garbled : Answer.Refuses (Text.ofString "not json")
    (.engine (.unreadableAnswer "not json") none) := by
  have hread : (Json.read (Text.ofString "not json")).fails (· = .mistake ⟨.noValue, 0, 1, 1⟩) =
      true := by decide +kernel
  obtain ⟨fault, hfault, hmistake⟩ := Except.exists_of_fails hread
  obtain rfl := of_decide_eq_true hmistake
  exact .unreadable (by unfold Answer.IsBlank; decide) hfault

/-- With any configuration that has a ruleset, the answer about the sample is refused. -/
theorem refuses_garbledSetup {config : Config} {ruleset : Value}
    (hpath : d.path = Path.ofText "/a.json")
    (hruleset : sampleSetup.engine.rulesetFor config = .ok ruleset) :
    Refuses (garbledSetup config) sampleDisk d (.engine (.unreadableAnswer "not json") none) := by
  have hname : sampleDisk.find (EngineSettings.invocation sampleSetup.engine sampleSetup.scratch
      sampleDisk d ruleset).source ≠ .error .nameTooLong := by
    rw [EngineSettings.invocation, hpath]
    intro htooLong
    have hfinds : (sampleDisk.find (EngineSettings.sourceFile sampleSetup.scratch
        (sampleDisk.resolve (Path.ofText "/a.json")))).fails (· == .nameTooLong) = false := by
      decide +kernel
    rw [show sampleDisk.find _ = _ from htooLong] at hfinds
    cases hfinds
  refine ⟨EngineSettings.invocation sampleSetup.engine sampleSetup.scratch sampleDisk d ruleset, 0,
    "not json", "", ?_, rfl, .inl rfl, refuses_garbled⟩
  show (EngineSettings.run sampleSetup.engine (garbledSetup config).program
    sampleSetup.scratch sampleDisk config d).invocations = _
  rw [EngineSettings.run, EngineSettings.run_session (w := { disk := sampleDisk }) hruleset hname]
  rfl

/-- **A refused answer names no document**, also with a configuration that comes of a valid value. -/
theorem ofFile_forgets : Config.houseRules.IsSound ∧ Config.complaints Config.houseRules = .ok [] ∧
    ∃ config e, Config.ofOverride none Config.houseRules = .ok config ∧
      (ofFile (garbledSetup config) sampleDisk (Path.ofText "/a.json")).result = .error e ∧
      e.isLint = true ∧ e.document? ≠ some (Path.ofText "/a.json") := by
  refine ⟨Config.houseRules_isSound, Config.houseRules_complaints, ?_⟩
  obtain ⟨merged, hmerges⟩ :=
    Config.exists_merges Config.houseRules_isSound Config.houseRules_complaints
  have hconfig := hmerges.ofOverride Config.houseRules_complaints none
  obtain ⟨status, -, hstatus⟩ := hmerges.status none "shared" "walker" Structure.circleRule
  obtain ⟨config, ruleset, hsame, hruleset⟩ := EngineSettings.rulesetFor_of_valid
    sampleSetup.engine Config.houseRules_isSound Config.houseRules_complaints none
  obtain rfl := Except.ok.inj (hconfig.symm.trans hsame)
  have hload : (Document.load sampleDisk (Path.ofText "/a.json")).holds (fun d =>
      (Reference.isCircular d.data).toOption.isSome) = true := by decide +kernel
  obtain ⟨d, hd, hfinds⟩ := Except.exists_of_holds hload
  obtain ⟨circular, hcircular⟩ := Except.exists_of_isSome_toOption hfinds
  have hpath := (Document.load_eq_ok.mp hd).1
  have hcheck : Structure.check (fun _ => ⟨[], none⟩) sampleDisk ⟨merged, none⟩ d = .ok _ :=
    Structure.check_of_verdict rfl hcircular hstatus
  have hrefuses : Refuses (garbledSetup ⟨merged, none⟩) sampleDisk d _ :=
    refuses_garbledSetup hpath hruleset
  refine ⟨_, _, hconfig, ofFile_of_refuses hd hcheck hrefuses, hrefuses.isLint.1, ?_⟩
  rw [hrefuses.isLint.2]
  exact (Option.some_ne_none _).symm

end Lint

end ApiLint
