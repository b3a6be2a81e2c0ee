import ApiLint.Lint
import ApiLint.Proofs.Engine.Success
import ApiLint.Proofs.Equality
import ApiLint.Proofs.Result.Buckets

/-! Linting a document conserves what is found in it. The errors of the outside check, the message
about circles and the items of the rule engine's answer all reach the result, each in the bucket of
its severity, in this order and with nothing between them; of the items only those are left out
that repeat an earlier one (`ofFile_conserves`). A document that fails on the way has no result,
and the steps after the one that failed are not taken. -/
namespace ApiLint

theorem Severity.text_ne_off (s : Severity) : s.text ≠ offStatus := by
  cases s <;> decide

/-- The message that the references of a document form a circle. It stands on no line. -/
def Structure.circle : Message :=
  ⟨[], .str circleMessage, circleRule, 0⟩

namespace Lint

/-- Where the messages about a document come from, when all steps went well: the errors of the
outside check, whether references form a circle and what the configuration says of that, and what
the rule engine answered when it was started. -/
structure Sources (setup : Setup) (disk : Disk) (d : Document) where
  circular : Bool
  status : Value
  invocation : Invocation
  code : Int
  output : Text
  said : Text
  locator : Locator
  sound : (setup.validator (Structure.request disk d)).breakdown = none
  circular_eq : Reference.isCircular d.data = .ok circular
  status_eq : setup.config.status (.str "shared") (.str "walker")
    (.str Structure.circleRule) = .ok status
  contents : invocation.contents = d.contents
  outcome : setup.program (disk.write invocation.source (Text.bytes invocation.contents))
    invocation = .finished code output said
  good : code = 0 ∨ code = 1
  locator_eq : Locator.ofText d.contents = .ok locator

namespace Sources

variable {setup : Setup} {disk : Disk} {d : Document} (src : Sources setup disk d)

def errors (_ : Sources setup disk d) : List (List Value × Value) :=
  (setup.validator (Structure.request disk d)).errors

/-- The messages about circles with a severity. -/
def circles (s : Severity) : List Message :=
  if src.circular = true ∧ src.status = .str s.text then [Structure.circle] else []

/-- What the result for a document owes, when the rule engine's answer has these items. -/
structure Conserved (items : List Answer.Item) (r : Diagnosis) : Prop where
  version : Document.versionOf d.data = .ok (some r.version)
  bucket : ∀ s, ∃ es rs, r.bucket s = es ++ src.circles s ++ rs ∧
    List.Forall₂ (Message.Tells src.locator)
      (if s = .error then src.errors.map Structure.errorFinding else []) es ∧
    List.Forall₂ (Message.Tells src.locator)
      ((Finding.distinct Finding.key (items.map Answer.Item.finding)).filter
        (·.hasSeverity s)) rs
  total : r.total = src.errors.length +
    (if src.circular = true ∧ src.status ≠ .str offStatus then 1 else 0) +
    (Finding.distinct Finding.key (items.map Answer.Item.finding)).length

/-- What the outside check finds are errors and nothing else. -/
theorem filter_errors (s : Severity) :
    (src.errors.map Structure.errorFinding).filter (·.hasSeverity s) =
      if s = .error then src.errors.map Structure.errorFinding else [] := by
  have hs : ∀ e ∈ src.errors.map Structure.errorFinding,
      Finding.hasSeverity s e = true ↔ s = .error := by
    intro e he
    obtain ⟨e, -, rfl⟩ := List.mem_map.mp he
    rw [Finding.hasSeverity_iff]
    show Value.str (Severity.text .error) = .str s.text ↔ _
    rw [Value.str.injEq, Severity.text_inj, eq_comm]
  split
  · next hserr => exact List.filter_eq_self.mpr fun e he => (hs e he).mpr hserr
  · next hserr => exact List.filter_eq_nil_iff.mpr fun e he h => hserr ((hs e he).mp h)

/-- The finding about circles becomes the message about them, in the bucket that the configuration
says. -/
theorem eq_circles_of_tells {s : Severity} {ms : List Message}
    (h : List.Forall₂ (Message.Tells src.locator)
      ((Structure.circularFinding src.circular src.status).filter (·.hasSeverity s)) ms) :
    ms = src.circles s := by
  by_cases hreported : src.circular = true ∧ src.status ≠ .str offStatus
  · rw [Structure.circularFinding_of_reported hreported] at h
    by_cases hs : src.status = .str s.text
    · rw [List.filter_cons_of_pos (Finding.hasSeverity_iff.mpr hs), List.filter_nil] at h
      obtain ⟨m, _, ⟨line, hline, rfl⟩, hnil, rfl⟩ := List.forall₂_cons_left_iff.mp h
      rw [List.forall₂_nil_left_iff.mp hnil, circles, if_pos ⟨hreported.1, hs⟩]
      rw [Locator.lineOf_nil] at hline
      cases hline
      rfl
    · rw [List.filter_cons_of_neg fun hf => hs (Finding.hasSeverity_iff.mp hf), List.filter_nil,
        List.forall₂_nil_left_iff] at h
      rw [h, circles, if_neg fun hc => hs hc.2]
  · rw [Structure.circularFinding_of_not_reported hreported, List.filter_nil,
      List.forall₂_nil_left_iff] at h
    rw [h, circles, if_neg]
    intro hgiven
    obtain ⟨hcircular, hs⟩ := hgiven
    exact hreported ⟨hcircular, hs ▸ fun hoff => s.text_ne_off (Value.str.inj hoff)⟩

theorem length_circularFinding :
    (Structure.circularFinding src.circular src.status).length =
      if src.circular = true ∧ src.status ≠ .str offStatus then 1 else 0 := by
  split
  · next h => rw [Structure.circularFinding_of_reported h, List.length_singleton]
  · next h => rw [Structure.circularFinding_of_not_reported h, List.length_nil]

/-- What is merged is conserved. -/
theorem conserved_of_extends {items : List Answer.Item} {r : Diagnosis}
    (hversion : Document.versionOf d.data = .ok (some d.version))
    (h : Diagnosis.Extends src.locator
      ((src.errors.map Structure.errorFinding ++
        Structure.circularFinding src.circular src.status) ++
        Finding.distinct Finding.key (items.map Answer.Item.finding)) { version := d.version } r) :
    src.Conserved items r where
  version := by rw [h.version, hversion]
  bucket s := by
    obtain ⟨ms, hms, htells⟩ := h.bucket s
    rw [List.filter_append, List.filter_append] at htells
    obtain ⟨front, rs, rfl, hfront, hrs⟩ := List.exists_append_of_forall₂ htells
    obtain ⟨es, cs, rfl, hes, hcs⟩ := List.exists_append_of_forall₂ hfront
    obtain rfl := src.eq_circles_of_tells hcs
    rw [src.filter_errors] at hes
    refine ⟨es, rs, ?_, hes, hrs⟩
    rw [hms]
    cases s <;> rfl
  total := by
    rw [h.total, List.length_append, List.length_append, List.length_map,
      length_circularFinding]
    show 0 + _ = _
    omega

end Sources

variable {setup : Setup} {disk : Disk} {path : Path} {d : Document}

/-- A document has a result only if all steps went well, and then the result conserves what they
found. -/
theorem exists_sources {r : Diagnosis} (h : (ofDocument setup disk d).result = .ok r)
    (hversion : Document.versionOf d.data = .ok (some d.version)) :
    ∃ src : Sources setup disk d, (ofDocument setup disk d).invocations = [src.invocation] ∧
      ∀ rows items, Json.read src.output = .ok (.list (rows.map .map)) →
        List.Forall₂ Answer.Item.IsWritten items rows → src.Conserved items r := by
  simp only [ofDocument] at h ⊢
  split at h
  · cases h
  · next built hbuilt =>
    obtain ⟨hsound, circular, status, hcircular, hstatus, rfl⟩ := Structure.check_eq_ok hbuilt
    obtain ⟨findings, hfindings, h⟩ := Except.bind_eq_ok.mp h
    obtain ⟨locator, hlocator, hmerge⟩ := Except.bind_eq_ok.mp h
    obtain ⟨i, code, output, said, hinvocations, hcontents, houtcome, hgood, hparse⟩ :=
      EngineSettings.run_answer_eq_ok hfindings
    refine ⟨⟨circular, status, i, code, output, said, locator, hsound, hcircular, hstatus,
      hcontents, houtcome, hgood, hlocator⟩, hinvocations, fun rows items hread hitems => ?_⟩
    rw [Answer.parse_of_isWritten hread hitems] at hparse
    obtain rfl := Except.ok.inj hparse
    exact Sources.conserved_of_extends _ hversion (Diagnosis.extends_merge hmerge)

/-- A document that was read has the version that its data declares. -/
theorem versionOf_of_load (h : Document.load disk path = .ok d) :
    Document.versionOf d.data = .ok (some d.version) := by
  rw [Document.load] at h
  obtain ⟨text, -, h⟩ := Except.bind_eq_ok.mp h
  obtain ⟨data, -, h⟩ := Except.bind_eq_ok.mp h
  obtain ⟨version, hversion, h⟩ := Except.bind_eq_ok.mp h
  cases version with
  | none => cases h
  | some version =>
    obtain rfl := Except.ok.inj h
    exact hversion

/-- **Linting conserves what is found.** A document that cannot be read starts neither check, and one
that the structure check gives up on does not start the rule engine; neither has a result, and
nothing has one that the rule engine gives up on. A result comes of a document that went through all
steps, and when the answer of the one start of the rule engine is well-formed, the result holds what
the three sources found and nothing else. -/
theorem ofFile_conserves (setup : Setup) (disk : Disk) (path : Path) :
    (∀ e, Document.load disk path = .error e → ofFile setup disk path = ⟨.error e, [], []⟩) ∧
      (∀ d e, Document.load disk path = .ok d →
        Structure.check setup.validator disk setup.config d = .error e →
        ofFile setup disk path = ⟨.error e, [Structure.request disk d], []⟩) ∧
      (∀ d built e, Document.load disk path = .ok d →
        Structure.check setup.validator disk setup.config d = .ok built →
        (setup.engine.run setup.program setup.scratch disk setup.config d).answer = .error e →
        (ofFile setup disk path).result = .error e) ∧
      ∀ r, (ofFile setup disk path).result = .ok r →
        ∃ d, Document.load disk path = .ok d ∧ ∃ src : Sources setup disk d,
          (ofFile setup disk path).invocations = [src.invocation] ∧
          ∀ rows items, Json.read src.output = .ok (.list (rows.map .map)) →
            List.Forall₂ Answer.Item.IsWritten items rows → src.Conserved items r := by
  refine ⟨fun e hload => ?_, fun d e hload hcheck => ?_,
    fun d built e hload hcheck hanswer => ?_, fun r hr => ?_⟩
  · rw [ofFile, hload]
  · rw [ofFile, hload]
    simp only [ofDocument, hcheck]
  · rw [ofFile, hload]
    simp only [ofDocument, hcheck, hanswer]
    rfl
  · rw [ofFile] at hr ⊢
    split at hr
    · cases hr
    · next d hload =>
      obtain ⟨src, hinvocations, hconserved⟩ := exists_sources hr (versionOf_of_load hload)
      exact ⟨d, hload, src, hinvocations, hconserved⟩

/-- A document with an error, a circle and an item of the rule engine. -/
def sampleDisk : Disk :=
  ⟨.directory [("a.json", .file (Text.bytes
    "\x7b\"openapi\": \"3.0.0\", \"a\": \x7b\"$ref\": \"#/a\"\x7d\x7d"))], ⟨1, []⟩⟩

/-- Checks that find something in every document. -/
def sampleSetup : Setup where
  config := ⟨.record [("shared", .record [("walker",
    .record [(Structure.circleRule, .str "warning")])])], none⟩
  validator := fun _ => ⟨[([.str "a"], .str "not allowed")], none⟩
  engine := ⟨"spectral", 60.0, []⟩
  program := fun _ _ => .finished 1
    "[\x7b\"path\": [\"a\"], \"message\": \"odd\", \"code\": \"odd\", \"severity\": 2\x7d]" ""
  scratch := ⟨"x", ⟨1, ["ruleset"]⟩⟩

/-- An error, a circle and an item of the rule engine come together in one result. -/
theorem ofFile_conserves_sample :
    ∃ r, (ofFile sampleSetup sampleDisk (Path.ofText "/a.json")).result = .ok r ∧
      ∃ d, ∃ src : Sources sampleSetup sampleDisk d,
        src.Conserved [⟨[.str "a"], .str "odd", .str "odd", .info⟩] r := by
  have hok : (ofFile sampleSetup sampleDisk (Path.ofText "/a.json")).result.toOption.isSome := by
    decide +kernel
  obtain ⟨r, hr⟩ := Except.exists_of_isSome_toOption hok
  obtain ⟨d, -, src, -, hconserved⟩ := (ofFile_conserves _ _ _).2.2.2 r hr
  have houtput := src.outcome
  injection houtput with _ houtput _
  let row : Entries := [(.str "path", .list [.str "a"]), (.str "message", .str "odd"),
    (.str "code", .str "odd"), (.str "severity", .int 2)]
  refine ⟨r, hr, d, src, hconserved [row] _ ?_ (.cons ⟨rfl, rfl, rfl, rfl⟩ .nil)⟩
  rw [← houtput]
  exact Except.eq_ok_of_holds (by decide +kernel)

end Lint

end ApiLint
