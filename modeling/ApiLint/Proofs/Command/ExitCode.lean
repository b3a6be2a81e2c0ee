import ApiLint.Command
import ApiLint.Proofs.Equality
import ApiLint.Proofs.Lint.Texts
import ApiLint.Proofs.Report.Footer

/-! What the exit code of the command says. The code, the report, its last line and the lines about
failures are made by different functions from the same outcomes; here they are held against each
other. A run whose files can be listed settles as it should (`Settles`, `run_settles`). One whose
files cannot be listed has no exit code at all (`run_without_exitCode`). -/
namespace ApiLint.Command

/-! ### What a run should come to -/

def setupOf (s : Surroundings) (config : Config) (engine : EngineSettings) : Setup :=
  { config, validator := s.validator, engine, program := s.program, scratch := s.scratch }

def outcomesOf (setup : Setup) (disk : Disk) (files : List Text) :
    List (Text × Except Failure Diagnosis) :=
  files.map fun file => (file, (Lint.ofName setup disk file).result)

def linted (outcomes : List (Text × Except Failure Diagnosis)) : List (Text × Diagnosis) :=
  outcomes.filterMap Batch.result?

/-- What is written about a file that failed; nothing, if the file was only found and is no
description of an API. -/
def spoken? (arguments : Arguments) : Text × Except Failure Diagnosis → Option Text
  | (_, .ok _) => none
  | (file, .error failure) =>
    if arguments.files = [] ∧ failure.isNoDescriptor = true then none
    else some (failureLine (file, failure))

/-- The report as it is printed. -/
def printed (s : Surroundings) (results : List (Text × Diagnosis)) : Text :=
  if (Report.render results).chars = [] then []
  else
    terminalDirectory s.interactive s.environment s.disk.current ++
      Screen.shown (Report.render results)

/-- What is printed in front of the report. -/
def preamble (arguments : Arguments) (results : List (Text × Diagnosis)) : Text :=
  if arguments.verbose then Diagnosis.literals results ++ "\n" else []

/-- A run settles: its code tells whether nothing was linted, something has an error, or all is
well, and all that is written agrees with that. -/
structure Settles (s : Surroundings) (arguments : Arguments)
    (outcomes : List (Text × Except Failure Diagnosis)) (e : Exit) : Prop where
  code_of_nothing : (∀ file r, (file, .ok r) ∉ outcomes) → e.code = 2
  code_of_errors : (∃ file r, (file, .ok r) ∈ outcomes ∧ r.errors ≠ []) → e.code = 1
  code_of_no_errors : (∃ file r, (file, .ok r) ∈ outcomes) →
    (∀ file r, (file, .ok r) ∈ outcomes → r.errors = []) → e.code = 0
  code_totals : e.code = 1 ↔ 0 < (Totals.ofResults (linted outcomes)).errors
  code_footer : e.code = 1 ↔ Report.CountsErrors e.output.lastLine
  /-- Failures do not count, as long as something was linted. -/
  code_linted : (∃ file r, (file, .ok r) ∈ outcomes) → ∀ others, linted others = linted outcomes →
    e.code = exitCode (Batch.collect others).results
  output : e.output = preamble arguments (linted outcomes) ++
    if linted outcomes = [] then ("No files to lint\n" : Text)
      else printed s (linted outcomes)
  reported : printed s (linted outcomes) ≠ [] ↔
    ∃ file r severity, (file, .ok r) ∈ outcomes ∧ r.bucket severity ≠ []
  errors : e.errors = (outcomes.filterMap (spoken? arguments)).flatten

/-! ### Outcomes -/

variable {s : Surroundings} {arguments : Arguments} {file : Text} {r : Diagnosis}
  {outcomes : List (Text × Except Failure Diagnosis)} {results : List (Text × Diagnosis)}

theorem mem_linted : (file, r) ∈ linted outcomes ↔ (file, .ok r) ∈ outcomes := by
  rw [linted, List.mem_filterMap]
  constructor
  · intro hgiven
    obtain ⟨⟨name, outcome⟩, hmem, h⟩ := hgiven
    cases outcome with
    | error e => cases h
    | ok r =>
      cases h
      exact hmem
  · intro hmem
    exact ⟨(file, .ok r), hmem, rfl⟩

theorem linted_eq_nil : linted outcomes = [] ↔ ∀ file r, (file, .ok r) ∉ outcomes := by
  rw [List.eq_nil_iff_forall_not_mem, Prod.forall]
  simp only [mem_linted]

/-- The failures that are spoken of, one entry for each in the order of the files. -/
theorem flatMap_spokenFailures (arguments : Arguments)
    (outcomes : List (Text × Except Failure Diagnosis)) :
    (spokenFailures arguments (outcomes.filterMap Batch.failure?)).flatMap failureLine =
      (outcomes.filterMap (spoken? arguments)).flatten := by
  induction outcomes with
  | nil => rfl
  | cons outcome outcomes ih =>
    obtain ⟨file, failure | r⟩ := outcome
    · rw [spokenFailures, List.filterMap_cons, List.filterMap_cons, spoken?]
      simp only [Batch.failure?, List.filter_cons]
      by_cases hsilent : arguments.files = [] ∧ failure.isNoDescriptor = true
      · rw [if_pos hsilent, if_neg (by simp [hsilent])]
        exact ih
      · have hspoken : (!(arguments.files.isEmpty && failure.isNoDescriptor)) = true := by
          simpa [List.isEmpty_iff, imp_iff_not_or] using hsilent
        rw [if_neg hsilent, if_pos hspoken, List.flatMap_cons, List.flatten_cons]
        exact congrArg _ ih
    · exact ih

theorem exitCode_eq_one_iff :
    exitCode results = 1 ↔ 0 < (Totals.ofResults results).errors := by
  rw [← anyErrors_iff, exitCode]
  cases results with
  | nil => decide
  | cons entry results =>
    rw [List.isEmpty_cons, if_neg Bool.false_ne_true]
    split
    · next h => exact iff_of_true rfl h
    · next h => exact iff_of_false (by decide) h

/-! ### What is printed -/

theorem printed_eq_nil_iff : printed s results = [] ↔ (Totals.ofResults results).total = 0 := by
  rw [← Report.chars_render_eq_nil, printed]
  split
  · next h => exact iff_of_true rfl h
  · next h =>
    exact iff_of_false (List.append_ne_nil_of_right_ne_nil _ (Screen.shown_ne_nil _)) h

/-- Whatever is printed ends in a line about errors exactly when there are errors. -/
theorem countsErrors_lastLine_output :
    Report.CountsErrors (preamble arguments results ++
      if results = [] then ("No files to lint\n" : Text) else printed s results).lastLine ↔
      0 < (Totals.ofResults results).errors := by
  by_cases hnil : results = []
  · rw [if_pos hnil, hnil]
    refine iff_of_false (fun herrors => ?_) (by decide)
    have hletter := Text.lastLetter_lastLine (preamble arguments [] ++ ("No files to lin" : Text))
      (c := .char 't') (by decide) (by decide)
    rw [List.append_assoc, List.append_assoc] at hletter
    cases hletter.symm.trans herrors.lastLetter
  rw [if_neg hnil]
  by_cases htotal : (Totals.ofResults results).total = 0
  · have hzero : (Totals.ofResults results).errors = 0 := Totals.total_eq_zero.mp htotal .error
    rw [printed_eq_nil_iff.mpr htotal, List.append_nil, hzero]
    refine iff_of_false (fun herrors => ?_) (by decide)
    rw [preamble] at herrors
    split at herrors
    · cases (Text.lastLetter_lastLine _ (by decide) (by decide)).symm.trans herrors.lastLetter
    · cases herrors.lastLetter
  · rw [printed, if_neg (Report.chars_render_eq_nil.not.mpr htotal), ← List.append_assoc]
    exact Report.countsErrors_lastLine _ htotal

/-- Messages that are texts are always reported; the report fails on no other ground. -/
theorem reportOutput_eq
    (h : ∀ entry ∈ results, ∀ sev, ∀ m ∈ entry.2.bucket sev, m.message.IsText) :
    reportOutput s results =
      .ok (if results = [] then ("No files to lint\n" : Text) else printed s results) := by
  by_cases hnil : results = []
  · rw [if_pos hnil, hnil]
    rfl
  · have hempty : results.isEmpty = false := List.isEmpty_eq_false_iff.mpr hnil
    rw [if_neg hnil, reportOutput, hempty, if_neg Bool.false_ne_true, Report.make_of_isText h,
      printed]
    show (if (Report.render results).chars.isEmpty = true then Except.ok [] else .ok _) = _
    by_cases hchars : (Report.render results).chars = []
    · rw [if_pos hchars, if_pos (List.isEmpty_iff.mpr hchars)]
    · rw [if_neg hchars, if_neg (mt List.isEmpty_iff.mp hchars)]

/-! ### Runs -/

/-- How a run ends that comes to some outcomes. -/
def exitOf (s : Surroundings) (arguments : Arguments)
    (outcomes : List (Text × Except Failure Diagnosis)) (invocations : List Invocation) : Exit :=
  { code := exitCode (linted outcomes)
    output := preamble arguments (linted outcomes) ++
      if linted outcomes = [] then ("No files to lint\n" : Text) else printed s (linted outcomes)
    errors := (outcomes.filterMap (spoken? arguments)).flatten
    verbose := arguments.verbose
    invocations }

/-- All that is written agrees with the code, whatever the outcomes are. -/
theorem settles_exitOf (s : Surroundings) (arguments : Arguments)
    (outcomes : List (Text × Except Failure Diagnosis)) (invocations : List Invocation) :
    Settles s arguments outcomes (exitOf s arguments outcomes invocations) where
  code_of_nothing h := by
    show exitCode (linted outcomes) = 2
    rw [linted_eq_nil.mpr h]
    rfl
  code_of_errors h := by
    obtain ⟨file, r, hmem, herrors⟩ := h
    refine exitCode_eq_one_iff.mpr (anyErrors_iff.mp (List.any_eq_true.mpr ?_))
    exact ⟨(file, r), mem_linted.mpr hmem, by simpa using herrors⟩
  code_of_no_errors h hnone := by
    obtain ⟨file, r, hmem⟩ := h
    have hlinted : linted outcomes ≠ [] := List.ne_nil_of_mem (mem_linted.mpr hmem)
    have hclean : ¬anyErrors (linted outcomes) = true := by
      rw [anyErrors, List.any_eq_true]
      intro hgiven
      obtain ⟨⟨file, r⟩, hr, herrors⟩ := hgiven
      rw [hnone file r (mem_linted.mp hr)] at herrors
      cases herrors
    show exitCode (linted outcomes) = 0
    rw [exitCode, if_neg (mt List.isEmpty_iff.mp hlinted), if_neg hclean]
  code_totals := exitCode_eq_one_iff
  code_footer := exitCode_eq_one_iff.trans countsErrors_lastLine_output.symm
  code_linted _ others hothers := by
    rw [Batch.collect_eq]
    exact congrArg exitCode hothers.symm
  output := rfl
  reported := by
    rw [Ne, printed_eq_nil_iff, Totals.total_eq_zero]
    simp only [Totals.count_eq_zero, Prod.forall, mem_linted, not_forall]
    constructor
    · intro hgiven
      obtain ⟨severity, file, r, hmem, hbucket⟩ := hgiven
      exact ⟨file, r, severity, hmem, hbucket⟩
    · intro hgiven
      obtain ⟨file, r, severity, hmem, hbucket⟩ := hgiven
      exact ⟨severity, file, r, hmem, hbucket⟩
  errors := rfl

variable {config : Config} {engine : EngineSettings} {files : List Text}

theorem isText_of_linted {setup : Setup} {disk : Disk}
    (hvalidator : Structure.SpeaksText setup.validator)
    (hprogram : Answer.SpeaksText setup.program) :
    ∀ entry ∈ linted (outcomesOf setup disk files), ∀ severity,
      ∀ m ∈ entry.2.bucket severity, m.message.IsText := by
  intro entry hentry severity
  obtain ⟨file, -, heq⟩ := List.mem_map.mp (mem_linted.mp hentry)
  exact Lint.isText_of_ofFile (congrArg Prod.snd heq) hvalidator hprogram severity

/-- A run whose files can be listed ends as it should. -/
theorem lint_eq
    (hengine : EngineSettings.choose s.environment none none (Ruleset.chosen arguments.rulesets) =
      .ok engine) (htargets : targets s arguments = .ok files)
    (hvalidator : Structure.SpeaksText s.validator) (hprogram : Answer.SpeaksText s.program) :
    lint s arguments config =
      .ok (exitOf s arguments (outcomesOf (setupOf s config engine) s.disk files)
        (files.flatMap fun file =>
          (Lint.ofName (setupOf s config engine) s.disk file).invocations)) := by
  have hbatch : Batch.collect ((files.map fun file =>
        (file, Lint.ofName (setupOf s config engine) s.disk file)).map
          fun entry => (entry.1, entry.2.result)) =
      ⟨linted (outcomesOf (setupOf s config engine) s.disk files),
        (outcomesOf (setupOf s config engine) s.disk files).filterMap Batch.failure?⟩ := by
    rw [Batch.collect_eq, List.map_map]
    rfl
  have hreport : reportOutput s (linted (outcomesOf (setupOf s config engine) s.disk files)) = _ :=
    reportOutput_eq (isText_of_linted hvalidator hprogram)
  rw [lint, htargets, hengine]
  show (reportOutput s (Batch.collect _).results >>= fun report => _) = _
  rw [show (⟨config, s.validator, engine, s.program, s.scratch⟩ : Setup) = setupOf s config engine
    from rfl, hbatch, hreport, flatMap_spokenFailures, List.flatMap_map]
  rfl

/-! ### The files of a run -/

/-- Only a fault of the file system stops the search for files. -/
theorem targets_failsIn (s : Surroundings) (arguments : Arguments) :
    (targets s arguments).FailsIn fun failure => ∃ fault name, failure = .file fault name := by
  have hfile : ∀ path, (Failure.ofFile s.disk.isFile path).FailsIn
      fun failure => ∃ fault name, failure = .file fault name :=
    fun path => .mapError fun fault => ⟨fault, path.text, rfl⟩
  have hlintable : ∀ name, (Targets.isLintable s.disk s.disk.current name).FailsIn
      fun failure => ∃ fault name, failure = .file fault name := by
    intro name
    simp only [Targets.isLintable]
    split
    · exact hfile _
    · exact .ok _
  rw [targets]
  split
  · rw [Targets.discover]
    split
    · exact .bind (.ok _) fun names => .bind (.filterM hlintable names) fun files => .ok _
    · refine .bind ?_ fun names => .bind (.filterM hlintable names) fun files => .ok _
      rw [Targets.candidates]
      split
      · exact .ok _
      · next fault _ =>
        split
        · exact .ok _
        · intro failure h
          exact ⟨fault, _, (Except.error.inj h).symm⟩
  · rw [Targets.expand]
    refine .bind (.mapM (fun argument => ?_) _) fun files => .ok _
    rw [Targets.ofArgument]
    split
    · exact .bind (.mapError fun fault => ⟨fault, argument, rfl⟩) fun names =>
        .bind (.filterM (fun name => hfile _) names) fun files => .ok _
    · exact .ok _

/-- Files that are named without patterns are taken as they are named. -/
theorem targets_of_names (hfiles : arguments.files ≠ [])
    (hnames : ∀ name ∈ arguments.files, Glob.isPattern name = false) :
    targets s arguments = .ok (Text.unique arguments.files) := by
  have hall : arguments.files.mapM (Targets.ofArgument s.edition s.disk) =
      .ok (arguments.files.map fun name => [name]) := by
    rw [Except.mapM_eq_ok, List.forall₂_map_right_iff, List.forall₂_same]
    intro name hname
    rw [Targets.ofArgument, hnames name hname]
    rfl
  rw [targets, if_neg (mt List.isEmpty_iff.mp hfiles), Targets.expand, hall]
  show Except.ok (Text.unique (arguments.files.map fun name => [name]).flatten) = _
  rw [← List.flatMap_def, List.flatMap_singleton']

/-- **The exit code tells what a run came to.** With an invalid configuration it is 2, and nothing
is linted. Otherwise the run has an exit code exactly if its files can be listed, and then the code
agrees with all that is written. -/
theorem run_settles {words : List Text} (hread : Arguments.read words = .ok arguments)
    (hversion : arguments.version = false) (hvalidator : Structure.SpeaksText s.validator)
    (hprogram : Answer.SpeaksText s.program) :
    (∀ problems,
      Config.load s.environment s.disk (arguments.config.map Path.ofText) none =
        .error (.invalidConfig problems) →
      ∃ e, run s words = .ok e ∧ e.code = 2 ∧ e.output = [] ∧ e.invocations = []) ∧
    ∀ config engine,
      Config.load s.environment s.disk (arguments.config.map Path.ofText) none = .ok config →
      EngineSettings.choose s.environment none none (Ruleset.chosen arguments.rulesets) =
        .ok engine →
      (∀ failure, targets s arguments = .error failure →
        run s words = .error failure ∧ ∃ fault name, failure = .file fault name) ∧
      ∀ files, targets s arguments = .ok files →
        ∃ e, run s words = .ok e ∧
          Settles s arguments (outcomesOf (setupOf s config engine) s.disk files) e := by
  have hrun : run s words = answer s arguments := by
    rw [run, hread]
  rw [hrun, answer, if_neg (by rw [hversion]; exact Bool.false_ne_true)]
  refine ⟨fun problems hload => ?_, fun config engine hload hengine =>
    ⟨fun failure htargets => ?_, fun files htargets => ?_⟩⟩
  · rw [hload]
    exact ⟨_, rfl, rfl, rfl, rfl⟩
  · rw [hload]
    simp only [lint, htargets]
    exact ⟨rfl, targets_failsIn s arguments failure htargets⟩
  · rw [hload]
    exact ⟨_, lint_eq hengine htargets hvalidator hprogram, settles_exitOf _ _ _ _⟩

/-- A rule engine speaks in texts when its only answer does. -/
theorem speaksText_of_read {code : Int} {output said : Text} {t : Text} (entries : Entries)
    (hread : Json.read output = .ok (.list [.map entries]))
    (hmessage : entries.find? (.str "message") = some (.str t)) :
    Answer.SpeaksText fun _ _ => .finished code output said := by
  intro disk invocation code' output' said' items found v houtcome hfound hmem hv
  injection houtcome with _ houtput _
  rw [← houtput, hread] at hfound
  injection hfound with hfound
  injection hfound with hfound
  rw [← hfound, List.mem_singleton] at hmem
  injection hmem with hmem
  rw [hmem, hmessage] at hv
  exact ⟨t, (Option.some.inj hv).symm⟩

/-- A directory with a description of an API in which the outside check finds an error. -/
def dirty : Surroundings where
  disk := ⟨.directory [("a.json", .file (Text.bytes "\x7b\"openapi\": \"3.0.0\"\x7d"))], ⟨1, []⟩⟩
  validator := fun _ => ⟨[([], .str "odd")], none⟩
  program := fun _ _ => .finished 1 "[\x7b\"message\": \"tags\", \"severity\": 1\x7d]" ""
  scratch := ⟨"x", ⟨1, ["ruleset"]⟩⟩

/-- The rule engine of the samples. -/
def usualEngine : EngineSettings :=
  ⟨"spectral", 60.0, Ruleset.chosen []⟩

/-- Two files are named, one of which is missing; the errors of the other decide the code. -/
theorem run_settles_sample :
    ∃ e, run dirty ["a.json", "b.json"] = .ok e ∧ e.code = 1 ∧
      Report.CountsErrors e.output.lastLine := by
  have hread : Arguments.read [("a.json" : Text), ("b.json" : Text)] =
      .ok ⟨["a.json", "b.json"], none, [], false, false⟩ := rfl
  have htargets : targets dirty ⟨["a.json", "b.json"], none, [], false, false⟩ =
      .ok ["a.json", "b.json"] := targets_of_names (by decide) (by decide)
  have hvalidator : Structure.SpeaksText dirty.validator := by
    intro request e he
    exact ⟨"odd", by rw [List.mem_singleton.mp he]⟩
  have hprogram : Answer.SpeaksText dirty.program :=
    speaksText_of_read [(.str "message", .str "tags"), (.str "severity", .int 1)]
      (Except.eq_ok_of_holds (by decide +kernel)) rfl
  have hlinted : (Config.load [] dirty.disk none none).holds (fun config =>
      anyErrors (linted (outcomesOf (setupOf dirty config usualEngine) dirty.disk
        ["a.json", "b.json"]))) = true := by
    decide +kernel
  obtain ⟨config, hload, herrors⟩ := Except.exists_of_holds hlinted
  obtain ⟨e, hrun, hsettles⟩ :=
    ((run_settles hread rfl hvalidator hprogram).2 config usualEngine hload rfl).2 _ htargets
  have hcode := hsettles.code_totals.mpr (anyErrors_iff.mp herrors)
  exact ⟨e, hrun, hcode, hsettles.code_footer.mp hcode⟩

/-- An empty directory, for which version control lists a name that is too long for the system. -/
def longListed : Surroundings :=
  { dirty with
    disk := ⟨.directory [], ⟨1, []⟩⟩
    listing := .answered 0 (List.replicate 251 (.char 'a') ++ (".yaml\n" : Text)) }

def isTooLong {α : Type} (name : Text) : Except Failure α → Bool
  | .error (.file .nameTooLong found) => found = name
  | _ => false

theorem eq_error_of_isTooLong {α : Type} {name : Text} {x : Except Failure α}
    (h : isTooLong name x = true) : x = .error (.file .nameTooLong name) := by
  rw [isTooLong.eq_def] at h
  split at h
  · rw [of_decide_eq_true h]
  · cases h

/-- **A run without an exit code**, though its configuration is valid: a file that version control lists
cannot be looked at. -/
theorem run_without_exitCode :
    (∃ config, Config.load [] longListed.disk none none = .ok config) ∧
      run longListed [] = .error (.file .nameTooLong
        (.char '/' :: (List.replicate 251 (.char 'a') ++ (".yaml" : Text)))) := by
  have hlong : isTooLong (.char '/' :: (List.replicate 251 (.char 'a') ++ (".yaml" : Text)))
      (run longListed []) = true := by
    decide +kernel
  exact ⟨Except.exists_of_isSome_toOption (by decide +kernel), eq_error_of_isTooLong hlong⟩

end ApiLint.Command
