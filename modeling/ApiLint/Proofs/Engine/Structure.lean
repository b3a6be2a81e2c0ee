import ApiLint.Engine.Structure
import ApiLint.Proofs.Config.Merge
import ApiLint.Proofs.Document.Stumbles

/-! How the structure check fails. When the outside check breaks down, that is the failure of the document
that was checked, whatever had been found before. When it does not, the check can only fail because the
search for circles stumbles, and then with a failure that names no document (`check_settles`): with a
reference to an item whose number cannot be read, or with a document that contains itself
(`check_escapes`). -/
namespace ApiLint.Structure

variable {validator : Validator} {disk : Disk} {config : Config} {d : Document}

theorem check_of_breakdown {b : Breakdown}
    (h : (validator (request disk d)).breakdown = some b) :
    check validator disk config d = .error (.engine b.fault d.path) := by
  simp only [check, h]
  rfl

theorem check_of_stumble {e : Failure} (h : (validator (request disk d)).breakdown = none)
    (he : Reference.isCircular d.data = .error e) : check validator disk config d = .error e := by
  simp only [check, h, he]
  rfl

theorem check_of_verdict {circular : Bool} {status : Value}
    (h : (validator (request disk d)).breakdown = none)
    (hcircular : Reference.isCircular d.data = .ok circular)
    (hstatus : config.status (.str "shared") (.str "walker") (.str circleRule) = .ok status) :
    check validator disk config d = .ok ⟨d.version, d.data, circular,
      (validator (request disk d)).errors.map errorFinding ++ circularFinding circular status⟩ := by
  simp only [check, h, hcircular, hstatus]
  rfl

/-- **How the structure check ends.** A reference is looked up unless its way through the document trips,
and whether the references form a circle is told unless the search stumbles. With a valid configuration a
check fails in the name of its document exactly when the outside check breaks down; otherwise it ends with
all that was found, unless the search for circles stumbles. -/
theorem check_settles {v : Value} (hv : v.IsSound) (hvalid : Config.complaints v = .ok [])
    (source : Option Path) :
    (∀ document r e, Reference.resolve document r = .error e ↔
      ∃ fault, Reference.Trips document (Reference.route r) fault ∧ e = .number fault) ∧
    (∀ document, (∃ circular, Reference.isCircular document = .ok circular) ∨
      ∃ e, Reference.isCircular document = .error e ∧ Reference.Stumbles document e) ∧
    ∃ config, Config.ofOverride source v = .ok config ∧
      ∀ (validator : Validator) (disk : Disk) (d : Document),
        (∀ b, (validator (request disk d)).breakdown = some b →
          check validator disk config d = .error (.engine b.fault d.path)) ∧
        ((validator (request disk d)).breakdown = none →
          (∃ built, check validator disk config d = .ok built ∧
            Reference.isCircular d.data = .ok built.circular) ∨
          ∃ e, check validator disk config d = .error e ∧ Reference.Stumbles d.data e) := by
  have htells : ∀ document, (∃ circular, Reference.isCircular document = .ok circular) ∨
      ∃ e, Reference.isCircular document = .error e ∧ Reference.Stumbles document e := by
    intro document
    cases h : Reference.isCircular document with
    | error e => exact .inr ⟨e, rfl, Reference.stumbles_of_error h⟩
    | ok circular => exact .inl ⟨circular, rfl⟩
  obtain ⟨merged, hmerges⟩ := Config.exists_merges hv hvalid
  refine ⟨fun _ _ _ => Reference.resolve_eq_error, htells, _, hmerges.ofOverride hvalid source, ?_⟩
  intro validator disk d
  refine ⟨fun b => check_of_breakdown, fun hverdict => ?_⟩
  obtain ⟨circular, hcircular⟩ | ⟨e, he, hstumbles⟩ := htells d.data
  · obtain ⟨s, -, hstatus⟩ := hmerges.status source "shared" "walker" circleRule
    exact .inl ⟨_, check_of_verdict hverdict hcircular hstatus, hcircular⟩
  · exact .inr ⟨e, check_of_stumble hverdict he, hstumbles⟩

/-- A document without references. -/
def plainDocument : Document :=
  ⟨⟨0, ["a.json"]⟩, "\x7b\"openapi\": \"3.0.0\"\x7d", .record [("openapi", .str "3.0.0")], "3.0.0"⟩

def bareDisk : Disk := ⟨.directory [], ⟨1, []⟩⟩

/-- A check that breaks down, and one that ends. -/
theorem check_settles_sample : Config.houseRules.IsSound ∧ Config.complaints Config.houseRules = .ok [] ∧
    ∃ config, Config.ofOverride none Config.houseRules = .ok config ∧
      check (fun _ => ⟨[], some .endless⟩) bareDisk config plainDocument =
        .error (.engine .endlessReferences plainDocument.path) ∧
      ∃ built, check (fun _ => ⟨[], none⟩) bareDisk config plainDocument = .ok built := by
  refine ⟨Config.houseRules_isSound, Config.houseRules_complaints, ?_⟩
  obtain ⟨-, -, config, hconfig, hsettles⟩ :=
    check_settles Config.houseRules_isSound Config.houseRules_complaints none
  refine ⟨config, hconfig, (hsettles _ _ _).1 .endless rfl, ?_⟩
  obtain ⟨built, hbuilt, -⟩ | ⟨e, -, hstumbles⟩ :=
    (hsettles (fun _ => ⟨[], none⟩) bareDisk plainDocument).2 rfl
  · exact ⟨built, hbuilt⟩
  · cases hstumbles with
    | index hreaches =>
      obtain ⟨r, hr, -⟩ := hreaches
      cases hr
    | endless hfinite =>
      exact absurd (Value.IsTree.single (.scalar rfl)).isFinite hfinite

/-- A document with a reference to an item of a list, whose number is a digit that is not decimal. -/
def strange : Value :=
  .record [("openapi", .str "3.0.0"), ("x", .list []), ("y", .record [("$ref", .str "#/x/²")])]

theorem strange_isFinite : strange.IsFinite := by
  refine Value.IsTree.isFinite (.record (by decide) (List.forall_mem_cons.mpr ⟨.scalar rfl,
    List.forall_mem_cons.mpr ⟨.list (List.forall_mem_nil _), List.forall_mem_singleton.mpr ?_⟩⟩))
  exact .single (.scalar rfl)

/-- That document in a file, and another file with a list that contains itself. -/
def trickyDisk : Disk :=
  ⟨.directory
    [("a.json", .file (Text.bytes
      "\x7b\"openapi\": \"3.0.0\", \"x\": [], \"y\": \x7b\"$ref\": \"#/x/²\"\x7d\x7d")),
     ("b.yaml", .file (Text.bytes "openapi: 3.0.0\nx: &a [*a]\n"))], ⟨1, []⟩⟩

def isStrange : Failure → Bool
  | .number fault => fault = .notWhole 10 "²"
  | _ => false

def isEndless : Failure → Bool
  | .endless _ => true
  | _ => false

theorem eq_of_isStrange {e : Failure} (h : isStrange e = true) :
    e = .number (.notWhole 10 "²") := by
  cases e with
  | number fault => exact congrArg Failure.number (of_decide_eq_true h)
  | _ => cases h

/-- **Failures that are not those of a document.** A reference in a finite document is not looked up, and
so it is not told whether its references form a circle; and two documents that can be loaded cannot be
checked, although the outside check finds nothing. -/
theorem check_escapes :
    strange.IsFinite ∧ Reference.resolve strange "#/x/²" = .error (.number (.notWhole 10 "²")) ∧
    Reference.isCircular strange = .error (.number (.notWhole 10 "²")) ∧
    (∃ d, Document.load trickyDisk ⟨0, ["a.json"]⟩ = .ok d ∧
      check (fun _ => ⟨[], none⟩) trickyDisk Config.default d =
        .error (.number (.notWhole 10 "²"))) ∧
    ∃ d inMapping, Document.load trickyDisk ⟨0, ["b.yaml"]⟩ = .ok d ∧
      check (fun _ => ⟨[], none⟩) trickyDisk Config.default d = .error (.endless inMapping) := by
  have hresolve : (Reference.resolve strange "#/x/²").fails isStrange = true := by decide +kernel
  have hcircular : (Reference.isCircular strange).fails isStrange = true := by decide +kernel
  have hjson : (Document.load trickyDisk ⟨0, ["a.json"]⟩).holds (fun d =>
      (Reference.isCircular d.data).fails isStrange) = true := by
    decide +kernel
  have hyaml : (Document.load trickyDisk ⟨0, ["b.yaml"]⟩).holds (fun d =>
      (Reference.isCircular d.data).fails isEndless) = true := by
    decide +kernel
  refine ⟨strange_isFinite, ?_, ?_, ?_, ?_⟩
  · obtain ⟨e, he, hstrange⟩ := Except.exists_of_fails hresolve
    rw [he, eq_of_isStrange hstrange]
  · obtain ⟨e, he, hstrange⟩ := Except.exists_of_fails hcircular
    rw [he, eq_of_isStrange hstrange]
  · obtain ⟨d, hload, hfails⟩ := Except.exists_of_holds hjson
    obtain ⟨e, he, hstrange⟩ := Except.exists_of_fails hfails
    obtain rfl := eq_of_isStrange hstrange
    exact ⟨d, hload, check_of_stumble rfl he⟩
  · obtain ⟨d, hload, hfails⟩ := Except.exists_of_holds hyaml
    obtain ⟨e, he, hendless⟩ := Except.exists_of_fails hfails
    cases e with
    | endless inMapping => exact ⟨d, inMapping, hload, check_of_stumble rfl he⟩
    | _ => cases hendless

end ApiLint.Structure
