import ApiLint.Proofs.Command.ExitCode
import ApiLint.Proofs.Targets.Selection

/-! The files that version control lists. Where it is in use, a run is over the names in its answer that
are names of files and can be linted, in order and each as often as it is listed. So a file is linted once
and counted once exactly when the answer names it once (`discover_listed`). -/
namespace ApiLint.Command

variable {s : Surroundings} {arguments : Arguments} {config : Config} {engine : EngineSettings}
  {files : List Text} {e : Exit}

/-- A run is over some files: each of them is linted as often as it is named, and the run settles on
what comes of them. -/
structure IsOver (s : Surroundings) (arguments : Arguments) (setup : Setup) (files : List Text)
    (e : Exit) : Prop where
  settles : Settles s arguments (outcomesOf setup s.disk files) e
  names : (outcomesOf setup s.disk files).map (·.1) = files
  invocations : e.invocations = files.flatMap fun file => (Lint.ofName setup s.disk file).invocations

theorem isOver_of_lint
    (hengine : EngineSettings.choose s.environment none none (Ruleset.chosen arguments.rulesets) =
      .ok engine) (htargets : targets s arguments = .ok files)
    (hvalidator : Structure.SpeaksText s.validator) (hprogram : Answer.SpeaksText s.program)
    (h : lint s arguments config = .ok e) :
    IsOver s arguments (setupOf s config engine) files e := by
  rw [lint_eq hengine htargets hvalidator hprogram] at h
  obtain rfl := Except.ok.inj h
  exact ⟨settles_exitOf _ _ _ _, by rw [outcomesOf, List.map_map]; exact List.map_id files, rfl⟩

end Command

namespace Targets

open Command (Surroundings Arguments IsOver setupOf)

/-- The names in an answer of version control. -/
def listed (output : Text) : List Text :=
  (Text.lines output).filter (· ≠ [])

theorem discover_answered (disk : Disk) (root : Path) (output : Text) :
    discover disk (.answered 0 output) root = select disk root (listed output) :=
  discover_eq_select (.inl rfl)

/-- **What version control lists is taken as often as it is listed.** The names in its answer that are
names of files and can be linted are found, in order; they are in strict order exactly when none of them
is listed twice. Only a name that is too long stops the search, the first such one. A run without named
files is over what is found, so that a file is linted and counted as often as it is listed. -/
theorem discover_listed (output : Text) :
    (∀ disk root,
      (∀ failure, discover disk (.answered 0 output) root = .error failure ↔
        ∃ before name after, listed output = before ++ name :: after ∧
          (∀ other ∈ before, ¬IsRefused disk root other) ∧ IsRefused disk root name ∧
            failure = refusal root name) ∧
      ((∀ name ∈ listed output, ¬IsRefused disk root name) →
        ∃ files, discover disk (.answered 0 output) root = .ok files) ∧
      ∀ files, discover disk (.answered 0 output) root = .ok files →
        Selects disk root (listed output) files) ∧
    ∀ (s : Surroundings) (arguments : Arguments) words config engine e,
      s.listing = .answered 0 output → Arguments.read words = .ok arguments →
      arguments.files = [] → arguments.version = false →
      Config.load s.environment s.disk (arguments.config.map Path.ofText) none = .ok config →
      EngineSettings.choose s.environment none none (Ruleset.chosen arguments.rulesets) =
        .ok engine →
      Structure.SpeaksText s.validator → Answer.SpeaksText s.program →
      Command.run s words = .ok e →
        ∃ files, Selects s.disk s.disk.current (listed output) files ∧
          IsOver s arguments (setupOf s config engine) files e := by
  refine ⟨fun disk root => ?_, fun s arguments words config engine e hlisting hread hfiles hversion
    hload hengine hvalidator hprogram hrun => ?_⟩
  · rw [discover_answered]
    exact ⟨fun failure => select_eq_error,
      fun hnames => (exists_select hnames).imp fun files h => h.1,
      fun files h => (selects_of_select h).2⟩
  · have hlint : Command.lint s arguments config = .ok e := by
      rw [Command.run, hread] at hrun
      dsimp only at hrun
      rw [Command.answer, if_neg (by rw [hversion]; exact Bool.false_ne_true), hload] at hrun
      exact hrun
    have htargets : Command.targets s arguments =
        select s.disk s.disk.current (listed output) := by
      rw [Command.targets, hfiles, hlisting, ← discover_answered]
      rfl
    cases hselect : select s.disk s.disk.current (listed output) with
    | error failure =>
      rw [hselect] at htargets
      rw [Command.lint, htargets] at hlint
      cases hlint
    | ok files =>
      exact ⟨files, (selects_of_select hselect).2, Command.isOver_of_lint hengine
        (htargets.trans hselect) hvalidator hprogram hlint⟩

/-- The names in the answer of the sample: of a file that is not there, of one that cannot be linted, and
of a description of an API. -/
def trackedNames : List Text := ["b.json", "a.txt", "a.json"]

/-- A directory with a description of an API that version control lists. -/
def tracked : Surroundings :=
  { Command.dirty with listing := .answered 0 "b.json\na.txt\na.json\n" }

/-- Of the names that are listed only that of a description of an API is linted. -/
theorem discover_listed_sample : ∃ e files, Command.run tracked [] = .ok e ∧
    Selects tracked.disk tracked.disk.current trackedNames files ∧
    files.Pairwise (fun s t => s.codes < t.codes) ∧ Text.ofString "a.json" ∈ files := by
  obtain ⟨e, hrun⟩ : ∃ e, Command.run tracked [] = .ok e :=
    Except.exists_of_isSome_toOption (by decide +kernel)
  obtain ⟨config, hload⟩ : ∃ config, Config.load [] tracked.disk none none = .ok config :=
    Except.exists_of_isSome_toOption (by decide +kernel)
  have hvalidator : Structure.SpeaksText tracked.validator := by
    intro request e he
    exact ⟨"odd", by rw [List.mem_singleton.mp he]⟩
  have hprogram : Answer.SpeaksText tracked.program :=
    Command.speaksText_of_read [(.str "message", .str "tags"), (.str "severity", .int 1)]
      (Except.eq_ok_of_holds (by decide +kernel)) rfl
  obtain ⟨files, hselects, -⟩ := (discover_listed "b.json\na.txt\na.json\n").2 tracked
    ⟨[], none, [], false, false⟩ [] config Command.usualEngine e rfl rfl rfl rfl hload rfl hvalidator
    hprogram hrun
  have hnames : listed "b.json\na.txt\na.json\n" = trackedNames := by decide +kernel
  rw [hnames] at hselects
  have hnodup : trackedNames.Nodup := by decide
  exact ⟨e, files, hrun, hselects,
    hselects.strict.mpr fun name _ => List.nodup_iff_count_le_one.mp hnodup name,
    (hselects.mem _).mpr ⟨by decide, by decide, _, rfl⟩⟩

/-- **A name that is listed twice is found twice**: what is found is not in strict order. -/
theorem discover_repeats :
    discover tracked.disk (.answered 0 "a.json\na.json\n") tracked.disk.current =
        .ok (List.replicate 2 (.ofString "a.json")) ∧
      ¬(List.replicate 2 (Text.ofString "a.json")).Pairwise fun s t => s.codes < t.codes := by
  have hnames : listed "a.json\na.json\n" = List.replicate 2 (.ofString "a.json") := by
    decide +kernel
  have hsorted : Text.sorted (List.replicate 2 (.ofString "a.json")) =
      List.replicate 2 (.ofString "a.json") :=
    List.mergeSort_of_pairwise (by simp [List.replicate, Text.atMost_iff])
  have hkept : (List.replicate 2 (.ofString "a.json")).filterM
      (isLintable tracked.disk tracked.disk.current) =
        .ok (List.replicate 2 (.ofString "a.json")) := rfl
  refine ⟨?_, by decide⟩
  rw [discover_answered, hnames, select, hkept]
  exact congrArg Except.ok hsorted

end Targets

end ApiLint
