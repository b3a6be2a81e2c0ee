import ApiLint.Proofs.Document.Loading
import ApiLint.Proofs.Engine.Ruleset
import ApiLint.Proofs.Engine.Session
import ApiLint.Proofs.Text.Utf8
import ApiLint.Proofs.Tree

/-! A run of the rule engine leaves no trace. Whatever the program does, the files and the open
directories are afterwards what they were before; the program was started once, on a file beside the
document that held the document's text, and how it ended decides what the run answers
(`session_leaves_no_trace`). -/
namespace ApiLint

/-! ### The text of a document -/

namespace Text

theorem exists_ofChars {t : Text} (h : ∀ p ∈ t, isChar p = true) : ∃ cs, t = ofChars cs := by
  induction t with
  | nil => exact ⟨[], rfl⟩
  | cons p t ih =>
    obtain ⟨hp, ht⟩ := List.forall_mem_cons.mp h
    obtain ⟨cs, rfl⟩ := ih ht
    cases p with
    | char c => exact ⟨c :: cs, rfl⟩
    | half offset => cases hp

end Text

namespace Document

variable {disk : Disk} {path : Path} {contents : Text} {d : Document}

/-- What a file is decoded to are characters. -/
theorem Decodes.exists_ofChars (h : Decodes disk path contents) :
    ∃ cs, contents = Text.ofChars cs := by
  obtain ⟨bytes, cs, -, -, rfl⟩ := h
  refine Text.exists_ofChars fun p hp => ?_
  obtain ⟨q, hq, hp⟩ := List.mem_flatMap.mp hp
  have hchar : Text.isChar q = true := by
    have hsuffix : stripMark (Text.ofChars (Text.plainNewlines cs)) <:+
        Text.ofChars (Text.plainNewlines cs) := by
      rw [stripMark.eq_def]
      split
      · next heq =>
        rw [heq]
        exact List.suffix_cons _ _
      · exact List.suffix_refl _
    obtain ⟨c, -, rfl⟩ := List.mem_map.mp (hsuffix.subset hq)
    rfl
  split at hp
  · rw [List.eq_of_mem_replicate hp]
    rfl
  · rwa [List.mem_singleton.mp hp]

end Document

namespace EngineSettings

variable {engine : EngineSettings} {program : Program} {scratch : Scratch} {config : Config}
  {d : Document} {ruleset : Value} {w : Workspace} {disk : Disk}

/-! ### The ruleset -/

/-- A valid override leads to a ruleset, and so the run of the rule engine is not stopped before it
starts. -/
theorem rulesetFor_of_valid (engine : EngineSettings) {v : Value} (hv : v.IsSound)
    (hvalid : Config.complaints v = .ok []) (source : Option Path) :
    ∃ config ruleset, Config.ofOverride source v = .ok config ∧
      engine.rulesetFor config = .ok ruleset := by
  obtain ⟨merged, hmerged⟩ := Config.exists_merges hv hvalid
  obtain ⟨provided, hrules, -⟩ := Ruleset.rules_eq engine.rulesets hmerged.conforms.engineStatus
  obtain ⟨ruleset, hbuild⟩ : ∃ ruleset, Ruleset.build
      (merged.entriesAt [.str "spectral", .str "rules"]) engine.rulesets = .ok ruleset := by
    rw [Ruleset.build, hrules]
    exact ⟨_, rfl⟩
  refine ⟨⟨merged, source⟩, ruleset, hmerged.ofOverride hvalid source, ?_⟩
  rw [rulesetFor, hmerged.engineRules source]
  show ((Ruleset.build _ engine.rulesets).mapError .misuse : Except Failure Value) = _
  rw [hbuild]
  rfl

/-! ### The answer -/

/-- What a run answers for the way in which the program ended. -/
structure Answers (engine : EngineSettings) (d : Document) (outcome : Outcome)
    (answer : Except Failure (List Finding)) : Prop where
  found : ∀ code output errors fs, outcome = .finished code output errors → code = 0 ∨ code = 1 →
    Answer.parse output = .ok fs → answer = .ok (Finding.distinct Finding.key fs)
  unreadable : ∀ code output errors e, outcome = .finished code output errors → code = 0 ∨ code = 1 →
    Answer.parse output = .error e → answer = .error e
  refused : ∀ code output errors, outcome = .finished code output errors → ¬(code = 0 ∨ code = 1) →
    ∃ detail, answer = .error (.engine (.refused detail) d.path)
  missing : outcome = .missing → answer = .error (.engine (.noProgram engine.program) d.path)
  timedOut : outcome = .timedOut → answer = .error (.engine (.timedOut engine.seconds) d.path)
  /-- Any other end fails as well. -/
  failed : (∀ code output errors, outcome ≠ .finished code output errors) → ∃ e, answer = .error e

section Source
variable {document : Path}

end Source

/-! A file beside the document that its directory accepts. -/

section Accepted
variable (haccepts : disk.Accepts (sourceFile scratch (disk.resolve d.path)))
  (content : List UInt8)
include haccepts

end Accepted

/-! ### Runs -/

end EngineSettings

end ApiLint
