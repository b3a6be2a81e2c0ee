import ApiLint.Proofs.Document.Loading
import ApiLint.Proofs.Lint.Conservation
import Mathlib.Data.Bool.Basic

/-! The dialect that a document is checked for. What a loaded document declares makes it one of exactly
one dialect (`existsUnique_qualifies`), and the same version text is handed on to the check and to the
result. The check is asked for that dialect unless the version only starts like 3.1 (`dialect_follows`):
then it takes the tenth minor version for the first (`dialect_misreads`). -/
namespace ApiLint

namespace Lint

variable {setup : Setup} {disk : Disk} {d : Document}

/-- The version of a result is that of the document. -/
theorem version_of_ofDocument {r : Diagnosis} (h : (ofDocument setup disk d).result = .ok r) :
    r.version = d.version := by
  rw [ofDocument] at h
  split at h
  · cases h
  · next built hbuilt =>
    obtain ⟨-, circular, status, -, -, rfl⟩ := Structure.check_eq_ok hbuilt
    obtain ⟨findings, -, h⟩ := Except.bind_eq_ok.mp h
    obtain ⟨locator, -, h⟩ := Except.bind_eq_ok.mp h
    exact (Diagnosis.extends_merge h).version

theorem requests_ofDocument :
    (ofDocument setup disk d).requests = [Structure.request disk d] := by
  rw [ofDocument]
  split <;> rfl

end Lint

namespace Structure

variable {d : Document} {version : Text} {x : Dialect}

/-! ### Versions -/

/-- The first two components of a version, between dots, are 3 and 1. -/
def IsThreeOne (version : Text) : Prop :=
  (Text.pieces (.char '.') version).take 2 = [Text.ofString "3", Text.ofString "1"]

instance (version : Text) : Decidable (IsThreeOne version) :=
  inferInstanceAs (Decidable (_ = _))

/-- A version starts like 3.1 and goes on in its second component. -/
def RunsOn (version : Text) : Prop :=
  ∃ c rest, version = Text.ofString "3.1" ++ c :: rest ∧ c ≠ .char '.'

/-- A version whose first components are 3 and 1 is 3.1 itself or goes on with a dot. -/
theorem isThreeOne_iff : IsThreeOne version ↔
    version = "3.1" ∨ ∃ rest, version = Text.ofString "3.1" ++ .char '.' :: rest := by
  constructor
  · intro h
    have hjoined := Text.intercalate_pieces (.char '.') version
    have hpieces := List.take_append_drop 2 (Text.pieces (.char '.') version)
    rw [show (Text.pieces (.char '.') version).take 2 = _ from h] at hpieces
    rw [← hpieces] at hjoined
    cases hmore : (Text.pieces (.char '.') version).drop 2 with
    | nil =>
      rw [hmore] at hjoined
      exact .inl hjoined.symm
    | cons next more =>
      rw [hmore] at hjoined
      exact .inr ⟨[CodePoint.char '.'].intercalate (next :: more), hjoined.symm⟩
  · intro hgiven
    obtain rfl | ⟨rest, rfl⟩ := hgiven
    · rfl
    · rw [IsThreeOne, Text.pieces_append]
      rfl

theorem not_runsOn (h : IsThreeOne version) : ¬RunsOn version := by
  intro hgiven
  obtain ⟨c, rest, rfl, hc⟩ := hgiven
  obtain heq | ⟨rest', heq⟩ := isThreeOne_iff.mp h
  · exact List.cons_ne_nil c rest (List.append_right_eq_self.mp heq)
  · exact hc (List.cons.inj (List.append_cancel_left heq)).1

/-- What starts like 3.1 is such a version or runs on. -/
theorem take_three_iff : version.take 3 = "3.1" ↔ IsThreeOne version ∨ RunsOn version := by
  constructor
  · intro h
    have hversion : version = Text.ofString "3.1" ++ version.drop 3 := by
      rw [← h, List.take_append_drop]
    cases hrest : version.drop 3 with
    | nil =>
      rw [hrest, List.append_nil] at hversion
      exact .inl (isThreeOne_iff.mpr (.inl hversion))
    | cons c rest =>
      rw [hrest] at hversion
      by_cases hc : c = .char '.'
      · exact .inl (isThreeOne_iff.mpr (.inr ⟨rest, hc ▸ hversion⟩))
      · exact .inr ⟨c, rest, hversion, hc⟩
  · intro hgiven
    obtain h | ⟨c, rest, rfl, -⟩ := hgiven
    · obtain rfl | ⟨rest, rfl⟩ := isThreeOne_iff.mp h <;> rfl
    · rfl

/-! ### Dialects -/

/-- What makes a document one of a dialect: without a current version it is of the older format, and with
one the first two components of its version decide. -/
inductive Qualifies (d : Document) : Dialect → Prop
  | swagger2 (hopenapi : ∀ v, d.data.get? "openapi" = some v → v.isTruthy = false)
      (hswagger : d.data.get? "swagger" = some (.str "2.0")) (hversion : d.version = "2.0")
      (hlegacy : d.isLegacy = true) : Qualifies d .swagger2
  | openapi31 {v : Value} (hopenapi : d.data.get? "openapi" = some v) (htruthy : v.isTruthy = true)
      (hversion : d.version = v.text) (hlegacy : d.isLegacy = false)
      (h : IsThreeOne d.version) : Qualifies d .openapi31
  | openapi30 {v : Value} (hopenapi : d.data.get? "openapi" = some v) (htruthy : v.isTruthy = true)
      (hversion : d.version = v.text) (hlegacy : d.isLegacy = false)
      (h : ¬IsThreeOne d.version) : Qualifies d .openapi30

/-- The dialect that a document declares. -/
def declared (d : Document) : Dialect :=
  if d.isLegacy then .swagger2 else if IsThreeOne d.version then .openapi31 else .openapi30

theorem Qualifies.eq_declared (h : Qualifies d x) : x = declared d := by
  rw [declared]
  cases h with
  | swagger2 _ _ _ hlegacy => rw [if_pos hlegacy]
  | openapi31 _ _ _ hlegacy h => rw [hlegacy, if_neg Bool.false_ne_true, if_pos h]
  | openapi30 _ _ _ hlegacy h => rw [hlegacy, if_neg Bool.false_ne_true, if_neg h]

/-- A document whose version is what its data declares is of the dialect that it declares. -/
theorem qualifies_declared (h : Document.versionOf d.data = .ok (some d.version)) :
    Qualifies d (declared d) := by
  obtain ⟨hdeclares, -⟩ := Document.versionOf_eq_some.mp h
  rw [declared, Document.isLegacy]
  cases hopenapi : Document.openapi? d.data with
  | none =>
    obtain ⟨hswagger, hversion⟩ := (Document.declares_iff_of_no_openapi hopenapi).mp hdeclares
    rw [if_pos (by rfl)]
    refine .swagger2 (fun v hv => ?_) hswagger hversion (by rw [Document.isLegacy, hopenapi]; rfl)
    by_contra htruthy
    have hsome := Document.openapi?_eq_some.mpr ⟨hv, Bool.eq_true_of_not_eq_false htruthy⟩
    cases hopenapi.symm.trans hsome
  | some v =>
    obtain ⟨hget, htruthy⟩ := Document.openapi?_eq_some.mp hopenapi
    have hversion : d.version = v.text := hdeclares.text_eq hopenapi
    have hlegacy : d.isLegacy = false := by
      rw [Document.isLegacy, hopenapi]
      rfl
    rw [if_neg (by simp)]
    split
    · next hthree => exact .openapi31 hget htruthy hversion hlegacy hthree
    · next hthree => exact .openapi30 hget htruthy hversion hlegacy hthree

/-- **A document is of exactly one dialect.** -/
theorem existsUnique_qualifies (h : Document.versionOf d.data = .ok (some d.version)) :
    ∃! x, Qualifies d x :=
  ⟨declared d, qualifies_declared h, fun _ hx => hx.eq_declared⟩

/-- The version of the older format does not run on. -/
theorem isLegacy_of_runsOn (h : Document.versionOf d.data = .ok (some d.version))
    (hruns : RunsOn d.version) : d.isLegacy = false := by
  by_contra hlegacy
  have hqualifies := qualifies_declared h
  rw [declared, if_pos (Bool.eq_true_of_not_eq_false hlegacy)] at hqualifies
  obtain ⟨c, rest, hversion, -⟩ := hruns
  cases hqualifies with
  | swagger2 _ _ htwo _ => cases htwo.symm.trans hversion

/-- A document whose version runs on is of the dialect 3.0, and the check is asked for 3.1. -/
theorem dialect_of_runsOn (h : Document.versionOf d.data = .ok (some d.version))
    (hruns : RunsOn d.version) : declared d = .openapi30 ∧ dialect d = .openapi31 := by
  have hlegacy := isLegacy_of_runsOn h hruns
  have hthree : ¬IsThreeOne d.version := fun hthree => not_runsOn hthree hruns
  rw [declared, dialect, hlegacy, if_neg Bool.false_ne_true, if_neg Bool.false_ne_true,
    if_neg hthree, if_pos (take_three_iff.mpr (.inr hruns))]
  exact ⟨rfl, rfl⟩

/-- The check is asked for the dialect that a document declares unless its version runs on. -/
theorem dialect_eq_declared_iff (h : Document.versionOf d.data = .ok (some d.version)) :
    dialect d = declared d ↔ ¬RunsOn d.version := by
  by_cases hruns : RunsOn d.version
  · obtain ⟨hdeclared, hdialect⟩ := dialect_of_runsOn h hruns
    rw [hdeclared, hdialect]
    exact iff_of_false (by decide) (not_not_intro hruns)
  · rw [dialect, declared]
    simp only [take_three_iff, hruns, or_false, not_false_eq_true]

/-! ### Documents -/

/-- **The check follows what a document declares.** A document that can be loaded is of exactly one
dialect. The check is asked once, for this dialect unless the version runs on behind 3.1, and for 3.1 in
place of 3.0 if it does. What is known after the check and the result have the version of the document. -/
theorem dialect_follows {disk : Disk} {path : Path} (setup : Setup)
    (h : Document.load disk path = .ok d) :
    (∃! x, Qualifies d x) ∧
    (Qualifies d (dialect d) ↔ ¬RunsOn d.version) ∧
    (RunsOn d.version → Qualifies d .openapi30 ∧ dialect d = .openapi31) ∧
    (Lint.ofFile setup disk path).requests = [⟨d, dialect d, (disk.resolve path).address⟩] ∧
    (∀ built, check setup.validator disk setup.config d = .ok built →
      built.version = d.version ∧ built.document = d.data) ∧
    ∀ r, (Lint.ofFile setup disk path).result = .ok r → r.version = d.version := by
  obtain ⟨hpath, -, -, hversion⟩ := Document.load_eq_ok.mp h
  have hfile : Lint.ofFile setup disk path = Lint.ofDocument setup disk d := by
    rw [Lint.ofFile, h]
  have hdeclared := qualifies_declared hversion
  refine ⟨existsUnique_qualifies hversion, ?_, fun hruns => ?_, ?_, fun built hbuilt => ?_,
    fun r hr => Lint.version_of_ofDocument (hfile ▸ hr)⟩
  · rw [← dialect_eq_declared_iff hversion]
    exact ⟨fun hdialect => hdialect.eq_declared, fun heq => heq ▸ hdeclared⟩
  · obtain ⟨heq, hdialect⟩ := dialect_of_runsOn hversion hruns
    exact ⟨heq ▸ hdeclared, hdialect⟩
  · rw [hfile, Lint.requests_ofDocument, request, hpath]
  · obtain ⟨-, circular, status, -, -, rfl⟩ := check_eq_ok hbuilt
    exact ⟨rfl, rfl⟩

/-- A disk with a document whose version is a number, and one of the tenth minor version. -/
def versions : Disk :=
  ⟨.directory [("a.yaml", .file (Text.bytes "openapi: 3.1\n")),
    ("b.json", .file (Text.bytes "\x7b\"openapi\": \"3.10.0\"\x7d"))], ⟨1, []⟩⟩

/-- Version 3.1 as a number: the document declares what the outside check is asked for. -/
theorem dialect_follows_sample : ∃ d, Document.load versions ⟨0, ["a.yaml"]⟩ = .ok d ∧
    d.version = "3.1" ∧ Qualifies d .openapi31 ∧
    (Lint.ofFile Lint.sampleSetup versions ⟨0, ["a.yaml"]⟩).requests =
      [⟨d, .openapi31, "file:///a.yaml"⟩] := by
  have hload : (Document.load versions ⟨0, ["a.yaml"]⟩).holds (fun d =>
      d.version = Text.ofString "3.1" ∧ dialect d = .openapi31) = true := by
    decide +kernel
  obtain ⟨d, hd, hholds⟩ := Except.exists_of_holds hload
  obtain ⟨hversion, hdialect⟩ := of_decide_eq_true hholds
  obtain ⟨-, hfollows, -, hrequests, -⟩ := dialect_follows Lint.sampleSetup hd
  have hruns : ¬RunsOn d.version := not_runsOn (by rw [hversion]; decide)
  rw [hdialect] at hfollows hrequests
  exact ⟨d, hd, hversion, hfollows.mpr hruns, hrequests⟩

/-- **The tenth minor version is taken for the first.** -/
theorem dialect_misreads : ∃ d, Document.load versions ⟨0, ["b.json"]⟩ = .ok d ∧
    d.version = "3.10.0" ∧ Qualifies d .openapi30 ∧ ¬Qualifies d (dialect d) ∧
    dialect d = .openapi31 := by
  have hload : (Document.load versions ⟨0, ["b.json"]⟩).holds (fun d =>
      d.version = Text.ofString "3.10.0") = true := by decide +kernel
  obtain ⟨d, hd, hholds⟩ := Except.exists_of_holds hload
  have hversion : d.version = "3.10.0" := of_decide_eq_true hholds
  have hruns : RunsOn d.version := ⟨.char '0', ".0", hversion, by decide⟩
  have hdeclared := (Document.load_eq_ok.mp hd).2.2.2
  obtain ⟨heq, hdialect⟩ := dialect_of_runsOn hdeclared hruns
  have hqualifies : Qualifies d .openapi30 := heq ▸ qualifies_declared hdeclared
  refine ⟨d, hd, hversion, hqualifies, fun hmisread => ?_, hdialect⟩
  have hsame : dialect d = .openapi30 := hmisread.eq_declared.trans heq
  cases hdialect.symm.trans hsame

end Structure

end ApiLint
