import ApiLint.Lint
import ApiLint.Proofs.Engine.Success
import ApiLint.Proofs.Result.Buckets
import ApiLint.Report

/-! Messages that are texts. Where the outside check and the rule engine say what they find in
texts, all messages of a result are texts (`Lint.isText_of_ofFile`), and a report can be made of
them (`Report.make_of_isText`). -/
namespace ApiLint

def Value.IsText (v : Value) : Prop :=
  ∃ t, v = .str t

/-- An outside check whose messages are texts. -/
def Structure.SpeaksText (validator : Structure.Validator) : Prop :=
  ∀ request, ∀ e ∈ (validator request).errors, e.2.IsText

/-- A rule engine whose answers hold no message that is not a text. -/
def Answer.SpeaksText (program : Program) : Prop :=
  ∀ disk invocation code output said items (entries : Entries) v,
    program disk invocation = .finished code output said →
    Json.read output = .ok (.list items) → .map entries ∈ items →
    entries.find? (.str "message") = some v → v.IsText

/-! ### The findings -/

/-- A message of an item is a text if what stands under its key is one, or if nothing does. -/
theorem Answer.isText_of_finding {item : Value} {f : Finding} (h : finding item = .ok f)
    (htext : ∀ (entries : Entries) v, item = .map entries →
      entries.find? (.str "message") = some v → v.IsText) : f.message.IsText := by
  cases item with
  | map entries =>
    obtain ⟨path, -, h⟩ := Except.bind_eq_ok.mp h
    obtain ⟨severity, -, h⟩ := Except.bind_eq_ok.mp h
    obtain rfl := Except.ok.inj h
    show (field entries "message" (.str "")).IsText
    rw [field]
    cases hfound : Entries.find? (.str "message") entries with
    | none => exact ⟨"", rfl⟩
    | some v => exact htext entries v rfl hfound
  | _ => cases h

/-- All messages of an answer are texts if those of its items are. -/
theorem Answer.isText_of_parse {output : Text} {fs : List Finding} (h : parse output = .ok fs)
    (htext : ∀ items (entries : Entries) v, Json.read output = .ok (.list items) →
      .map entries ∈ items → entries.find? (.str "message") = some v → v.IsText) :
    ∀ f ∈ fs, f.message.IsText := by
  rw [parse] at h
  split at h
  · obtain rfl := Except.ok.inj h
    exact fun f hf => absurd hf List.not_mem_nil
  · split at h
    · cases h
    · cases h
    · next items hread =>
      have hitems := Except.mapM_eq_ok.mp (Except.mapError_ok_iff.mp h)
      intro f hf
      obtain ⟨item, hitem, hfinding⟩ := List.exists_mem_of_forall₂ hitems hf
      exact isText_of_finding hfinding fun entries v heq =>
        htext items entries v hread (heq ▸ hitem)
    · cases h

/-! ### The messages -/

theorem Message.Tells.isText {locator : Locator} {f : Finding} {m : Message}
    (h : m.Tells locator f) (hf : f.message.IsText) : m.message.IsText := by
  obtain ⟨line, -, rfl⟩ := h
  exact hf

theorem Diagnosis.isText_of_merge {version : Text} {structural rules : List Finding}
    {locator : Locator} {r : Diagnosis} (h : merge version structural rules locator = .ok r)
    (hs : ∀ f ∈ structural, f.message.IsText) (hr : ∀ f ∈ rules, f.message.IsText)
    (s : Severity) : ∀ m ∈ r.bucket s, m.message.IsText := by
  intro m hm
  obtain ⟨ms, hms, htells⟩ := (extends_merge h).bucket s
  have hstart : Diagnosis.bucket { version } s = [] := by cases s <;> rfl
  rw [hms, hstart, List.nil_append] at hm
  obtain ⟨f, hf, htell⟩ := List.exists_mem_of_forall₂ htells hm
  exact htell.isText ((List.mem_append.mp (List.mem_of_mem_filter hf)).elim (hs f) (hr f))

/-- All messages of a check are texts if those of the outside check are. -/
theorem Structure.isText_of_check {validator : Validator} {disk : Disk} {config : Config}
    {d : Document} {built : Built} (h : check validator disk config d = .ok built)
    (htext : SpeaksText validator) : ∀ f ∈ built.findings, f.message.IsText := by
  obtain ⟨-, circular, status, -, -, rfl⟩ := check_eq_ok h
  intro f hf
  obtain hf | hf := List.mem_append.mp hf
  · obtain ⟨e, he, rfl⟩ := List.mem_map.mp hf
    exact htext _ e he
  · rw [circularFinding] at hf
    split at hf
    · obtain rfl := List.mem_singleton.mp hf
      exact ⟨circleMessage, rfl⟩
    · cases hf

theorem EngineSettings.isText_of_run {engine : EngineSettings} {program : Program}
    {scratch : Scratch} {disk : Disk} {config : Config} {d : Document} {fs : List Finding}
    (h : (engine.run program scratch disk config d).answer = .ok fs)
    (htext : Answer.SpeaksText program) : ∀ f ∈ fs, f.message.IsText := by
  obtain ⟨i, code, output, said, -, -, houtcome, -, hparse⟩ := run_answer_eq_ok h
  obtain ⟨all, hall, rfl⟩ := Except.map_eq_ok.mp hparse
  intro f hf
  refine Answer.isText_of_parse hall (fun items entries v hread hentries hfound => ?_) f
    ((Finding.distinctFrom_sublist _ _ _).mem hf)
  exact htext _ _ _ _ _ items entries v houtcome hread hentries hfound

/-- **All messages of a result are texts**, where both checks speak in texts. -/
theorem Lint.isText_of_ofFile {setup : Setup} {disk : Disk} {path : Path} {r : Diagnosis}
    (h : (ofFile setup disk path).result = .ok r)
    (hvalidator : Structure.SpeaksText setup.validator)
    (hprogram : Answer.SpeaksText setup.program) (s : Severity) :
    ∀ m ∈ r.bucket s, m.message.IsText := by
  rw [ofFile] at h
  split at h
  · cases h
  · next d hload =>
    simp only [ofDocument] at h
    split at h
    · cases h
    · next built hbuilt =>
      obtain ⟨findings, hfindings, h⟩ := Except.bind_eq_ok.mp h
      obtain ⟨locator, -, hmerge⟩ := Except.bind_eq_ok.mp h
      exact Diagnosis.isText_of_merge hmerge (Structure.isText_of_check hbuilt hvalidator)
        (EngineSettings.isText_of_run hfindings hprogram) s

/-! ### The report -/

namespace Report

theorem checkWords_of_isText {messages : List Message}
    (h : ∀ m ∈ messages, m.message.IsText) : checkWords messages = .ok () := by
  refine Except.forM_eq_ok fun m hm => ?_
  obtain ⟨t, ht⟩ := h m hm
  rw [ht]

/-- A report can be made of messages that are texts. -/
theorem make_of_isText {results : List (Text × Diagnosis)}
    (h : ∀ entry ∈ results, ∀ s, ∀ m ∈ entry.2.bucket s, m.message.IsText) :
    make results = .ok (render results) := by
  have hcheck : (results.forM fun entry => checkWords
      (entry.2.errors ++ entry.2.warnings ++ entry.2.infos ++ entry.2.hints)) = .ok () := by
    refine Except.forM_eq_ok fun entry hentry => checkWords_of_isText ?_
    simp only [List.mem_append]
    rintro m (((hm | hm) | hm) | hm)
    · exact h entry hentry .error m hm
    · exact h entry hentry .warning m hm
    · exact h entry hentry .info m hm
    · exact h entry hentry .hint m hm
  rw [make, hcheck]
  rfl

end Report

end ApiLint
