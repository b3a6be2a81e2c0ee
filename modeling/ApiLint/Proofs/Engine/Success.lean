import ApiLint.Engine.Structure
import ApiLint.Proofs.Engine.Session
import ApiLint.Proofs.Except
import ApiLint.Proofs.Json.Blank
import ApiLint.Proofs.Value.Same
import ApiLint.Result

/-! What is known once an engine has done its work: the outside check did not break down and its
errors are all there (`Structure.check_eq_ok`); the rule engine was started once, ended well and gave
an answer (`EngineSettings.run_answer_eq_ok`), and a well-formed answer is read item by item
(`Answer.parse_of_isWritten`). -/
namespace ApiLint

/-! ### The structure check -/

namespace Structure

variable {validator : Validator} {disk : Disk} {config : Config} {d : Document} {built : Built}

/-- A check that comes to an end has asked the outside check, the references and the configuration. -/
theorem check_eq_ok (h : check validator disk config d = .ok built) :
    (validator (request disk d)).breakdown = none ∧
      ∃ circular status, Reference.isCircular d.data = .ok circular ∧
        config.status (.str "shared") (.str "walker") (.str circleRule) = .ok status ∧
        built = ⟨d.version, d.data, circular,
          (validator (request disk d)).errors.map errorFinding ++
            circularFinding circular status⟩ := by
  simp only [check] at h
  split at h
  · cases h
  · next hnone =>
    obtain ⟨circular, hcircular, h⟩ := Except.bind_eq_ok.mp h
    obtain ⟨status, hstatus, h⟩ := Except.bind_eq_ok.mp h
    exact ⟨hnone, circular, status, hcircular, Except.mapError_ok_iff.mp hstatus,
      (Except.ok.inj h).symm⟩

theorem circularFinding_of_reported {circular : Bool} {status : Value}
    (h : circular = true ∧ status ≠ .str offStatus) :
    circularFinding circular status = [⟨[], .str circleMessage, circleRule, status⟩] := by
  rw [circularFinding, h.1, Value.same_str_eq_false.mpr h.2]
  rfl

theorem circularFinding_of_not_reported {circular : Bool} {status : Value}
    (h : ¬(circular = true ∧ status ≠ .str offStatus)) : circularFinding circular status = [] := by
  cases circular with
  | false => rfl
  | true =>
    have hoff : status = .str offStatus := by_contra fun hne => h ⟨rfl, hne⟩
    rw [circularFinding, Value.same_str.mpr hoff]
    rfl

end Structure

/-! ### A run of the rule engine -/

namespace EngineSettings

variable {engine : EngineSettings} {program : Program} {scratch : Scratch} {disk : Disk}
  {config : Config} {d : Document} {fs : List Finding}

/-- A judgment that comes to an end is one of a finished run with a good code and a readable answer. -/
theorem judge_eq_ok {κ : Type} [BEq κ] {key : Finding → κ} {outcome : Outcome}
    (h : engine.judge key d outcome = .ok fs) :
    ∃ code output errors, outcome = .finished code output errors ∧ (code = 0 ∨ code = 1) ∧
      (Answer.parse output).map (Finding.distinct key) = .ok fs := by
  cases outcome with
  | finished code output errors =>
    obtain ⟨r, hr, h⟩ := Except.bind_eq_ok.mp h
    obtain rfl := Except.ok.inj hr
    rw [assess] at h
    split at h
    · next hcode => exact ⟨code, output, errors, rfl, by simpa [goodCodes] using hcode, h⟩
    · cases h
  | _ => cases h

/-- A run that gives an answer has started the program once, on the text of the document. -/
theorem run_answer_eq_ok (h : (engine.run program scratch disk config d).answer = .ok fs) :
    ∃ i code output errors, (engine.run program scratch disk config d).invocations = [i] ∧
      i.contents = d.contents ∧
      program (disk.write i.source (Text.bytes i.contents)) i = .finished code output errors ∧
      (code = 0 ∨ code = 1) ∧
      (Answer.parse output).map (Finding.distinct Finding.key) = .ok fs := by
  rw [run] at h ⊢
  cases hruleset : engine.rulesetFor config with
  | error e =>
    rw [run_session_of_no_ruleset hruleset] at h
    cases h
  | ok ruleset =>
    by_cases hname : disk.find (engine.invocation scratch disk d ruleset).source =
        .error .nameTooLong
    · rw [run_session_of_nameTooLong (w := { disk }) hruleset hname] at h
      cases h
    · rw [run_session (w := { disk }) hruleset hname] at h ⊢
      obtain ⟨code, output, errors, houtcome, hcode, hparse⟩ := judge_eq_ok h
      exact ⟨_, code, output, errors, rfl, rfl, houtcome, hcode, hparse⟩

end EngineSettings

/-! ### Well-formed answers -/

def Severity.level : Severity → Int
  | .error => 0
  | .warning => 1
  | .info => 2
  | .hint => 3

namespace Answer

/-- What a well-formed item of an answer says. -/
structure Item where
  path : List Value
  message : Value
  code : Value
  severity : Severity

namespace Item

/-- Whether a mapping is this item: it has all its fields, whatever else it holds. -/
structure IsWritten (i : Item) (entries : Entries) : Prop where
  path : entries.find? (.str "path") = some (.list i.path)
  message : entries.find? (.str "message") = some i.message
  code : entries.find? (.str "code") = some i.code
  severity : entries.find? (.str "severity") = some (.int i.severity.level)

/-- The finding that an item says. -/
def finding (i : Item) : Finding :=
  ⟨i.path, i.message, i.code.text, .str i.severity.text⟩

end Item

theorem severity_level (s : Severity) : severity (.int s.level) = .ok (.str s.text) := by
  cases s <;> rfl

theorem field_eq {entries : Entries} {name : Text} {v : Value} (otherwise : Value)
    (h : entries.find? (.str name) = some v) : field entries name otherwise = v := by
  rw [field, h, Option.getD_some]

theorem finding_of_isWritten {i : Item} {entries : Entries} (h : i.IsWritten entries) :
    finding (.map entries) = .ok i.finding := by
  simp only [finding, field_eq _ h.path, field_eq _ h.message, field_eq _ h.code,
    field_eq _ h.severity, severity_level]
  rfl

theorem parse_of_isWritten {output : Text} {rows : List Entries} {items : List Item}
    (hread : Json.read output = .ok (.list (rows.map .map)))
    (hitems : List.Forall₂ Item.IsWritten items rows) :
    parse output = .ok (items.map Item.finding) := by
  have hfindings : (rows.map Value.map).mapM finding = .ok (items.map Item.finding) := by
    rw [Except.mapM_eq_ok, List.forall₂_map_left_iff, List.forall₂_map_right_iff]
    exact hitems.flip.imp fun _ _ h => finding_of_isWritten h
  rw [parse, Json.not_trimmed_of_read hread, if_neg Bool.false_ne_true, hread]
  simp only [hfindings]
  rfl

end Answer

end ApiLint
