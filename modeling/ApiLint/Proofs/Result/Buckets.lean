import ApiLint.Proofs.Except
import ApiLint.Result

/-! Merging sorts findings into buckets. A finding is never lost, doubled or moved past another one
of its severity: the bucket of a severity holds a message for each finding of that severity, in the
order in which they were found, and nothing else. -/
namespace ApiLint

namespace Locator

theorem lineOf_nil (l : Locator) : l.lineOf [] = .ok wholeDocument := by
  rw [lineOf]
  cases l.document.root? <;> rfl

end Locator

/-- Whether a finding has a severity. -/
def Finding.hasSeverity (s : Severity) (f : Finding) : Bool :=
  match f.severity with
  | .str t => s.text = t
  | _ => false

theorem Finding.hasSeverity_iff {s : Severity} {f : Finding} :
    f.hasSeverity s = true ↔ f.severity = .str s.text := by
  cases h : f.severity <;> simp [hasSeverity, h, eq_comm]

/-- Whether a message says what a finding does, on the line of its place. -/
def Message.Tells (locator : Locator) (f : Finding) (m : Message) : Prop :=
  ∃ line : Nat, locator.lineOf f.path = .ok line ∧ m = ⟨f.path, f.message, f.rule, line⟩

namespace Severity

theorem ofValue_text (s : Severity) : ofValue (.str s.text) = .ok s := by
  cases s <;> rfl

/-- A severity is read from its own word only. -/
theorem ofValue_eq_ok {v : Value} {s : Severity} : ofValue v = .ok s ↔ v = .str s.text := by
  refine ⟨fun h => ?_, fun h => h ▸ ofValue_text s⟩
  cases v with
  | str t =>
    simp only [ofValue] at h
    split at h
    · next found hfound =>
      have ht := List.find?_some hfound
      rw [decide_eq_true_iff] at ht
      rw [← ht, Except.ok.inj h]
    · cases h
  | _ => cases h

theorem text_inj {s t : Severity} : s.text = t.text ↔ s = t := by
  refine ⟨fun h => ?_, congrArg text⟩
  have hs := ofValue_text s
  rw [h, ofValue_text] at hs
  exact (Except.ok.inj hs).symm

end Severity

namespace Diagnosis

variable {locator : Locator} {r r' : Diagnosis} {f : Finding} {fs : List Finding}

theorem bucket_add (r : Diagnosis) (s t : Severity) (m : Message) :
    (r.add t m).bucket s = r.bucket s ++ if t = s then [m] else [] := by
  cases s <;> cases t <;> simp [bucket, add]

theorem version_add (r : Diagnosis) (t : Severity) (m : Message) :
    (r.add t m).version = r.version := by
  cases t <;> rfl

theorem total_add (r : Diagnosis) (t : Severity) (m : Message) :
    (r.add t m).total = r.total + 1 := by
  cases t <;> simp only [total, add, List.length_append, List.length_cons, List.length_nil] <;>
    omega

/-- A finding is added exactly if its severity and its line can be told. -/
theorem addFinding_eq_ok :
    addFinding locator r f = .ok r' ↔
      ∃ s m, f.severity = .str (Severity.text s) ∧ m.Tells locator f ∧ r' = r.add s m := by
  rw [addFinding, Except.bind_eq_ok]
  constructor
  · intro hgiven
    obtain ⟨s, hs, h⟩ := hgiven
    obtain ⟨line, hline, h⟩ := Except.bind_eq_ok.mp h
    exact ⟨s, _, Severity.ofValue_eq_ok.mp (Except.mapError_ok_iff.mp hs), ⟨line, hline, rfl⟩,
      (Except.ok.inj h).symm⟩
  · intro hgiven
    obtain ⟨s, _, hs, ⟨line, hline, rfl⟩, rfl⟩ := hgiven
    refine ⟨s, by rw [Severity.ofValue_eq_ok.mpr hs]; rfl, ?_⟩
    exact Except.bind_eq_ok.mpr ⟨line, hline, rfl⟩

/-- A result with more findings: it holds a message for each of them, behind what it held before,
in the bucket of its severity. -/
structure Extends (locator : Locator) (fs : List Finding) (r r' : Diagnosis) : Prop where
  version : r'.version = r.version
  total : r'.total = r.total + fs.length
  /-- There is no finding without a bucket. -/
  severity : ∀ f ∈ fs, ∃ s : Severity, f.severity = .str s.text
  bucket : ∀ s, ∃ ms, r'.bucket s = r.bucket s ++ ms ∧
    List.Forall₂ (Message.Tells locator) (fs.filter (·.hasSeverity s)) ms

/-- One finding more goes to the end of one bucket. -/
theorem extends_addFinding (h : addFinding locator r f = .ok r') : Extends locator [f] r r' := by
  obtain ⟨t, m, ht, hm, rfl⟩ := addFinding_eq_ok.mp h
  refine ⟨version_add r t m, total_add r t m, fun g hg => ?_, fun s => ?_⟩
  · rw [List.mem_singleton] at hg
    exact ⟨t, hg ▸ ht⟩
  · refine ⟨if t = s then [m] else [], bucket_add r s t m, ?_⟩
    have hs : f.hasSeverity s = true ↔ t = s := by
      rw [Finding.hasSeverity_iff, ht, Value.str.injEq, Severity.text_inj]
    by_cases hts : t = s
    · rw [if_pos hts, List.filter_cons_of_pos (hs.mpr hts), List.filter_nil]
      exact .cons hm .nil
    · rw [if_neg hts, List.filter_cons_of_neg fun hf => hts (hs.mp hf), List.filter_nil]
      exact .nil

theorem Extends.refl (locator : Locator) (r : Diagnosis) : Extends locator [] r r where
  version := rfl
  total := rfl
  severity := by simp
  bucket s := ⟨[], (List.append_nil _).symm, .nil⟩

/-- Adding some findings and then others adds both rows. -/
theorem Extends.trans {fs gs : List Finding} {r₁ r₂ r₃ : Diagnosis}
    (h : Extends locator fs r₁ r₂) (h' : Extends locator gs r₂ r₃) :
    Extends locator (fs ++ gs) r₁ r₃ where
  version := h'.version.trans h.version
  total := by rw [h'.total, h.total, List.length_append, Nat.add_assoc]
  severity f hf := (List.mem_append.mp hf).elim (h.severity f) (h'.severity f)
  bucket s := by
    obtain ⟨ms, hms, htell⟩ := h.bucket s
    obtain ⟨ns, hns, htell'⟩ := h'.bucket s
    refine ⟨ms ++ ns, by rw [hns, hms, List.append_assoc], ?_⟩
    rw [List.filter_append]
    exact List.rel_append htell htell'

theorem extends_foldlM (h : fs.foldlM (addFinding locator) r = .ok r') :
    Extends locator fs r r' := by
  induction fs generalizing r with
  | nil =>
    cases h
    exact .refl locator _
  | cons f fs ih =>
    rw [List.foldlM_cons] at h
    obtain ⟨r₁, hf, h⟩ := Except.bind_eq_ok.mp h
    exact (extends_addFinding hf).trans (ih h)

/-- **Merging conserves what was found**: a result holds the messages of both sides' findings by
severity, those of the first side in front. -/
theorem extends_merge {version : Text} {structural rules : List Finding}
    (h : merge version structural rules locator = .ok r) :
    Extends locator (structural ++ rules) { version } r :=
  extends_foldlM h

/-- A finding with a bucket has a message in it. -/
theorem Extends.exists_tells (h : Extends locator fs r r') (hf : f ∈ fs) :
    ∃ m : Message, m.Tells locator f := by
  obtain ⟨s, hs⟩ := h.severity f hf
  obtain ⟨ms, -, htells⟩ := h.bucket s
  have hfiltered : f ∈ fs.filter (·.hasSeverity s) :=
    List.mem_filter.mpr ⟨hf, Finding.hasSeverity_iff.mpr hs⟩
  obtain ⟨m, -, hm⟩ := List.exists_mem_of_forall₂ htells.flip hfiltered
  exact ⟨m, hm⟩

/-- Findings are merged when each of them has a bucket to go to and a line. -/
theorem exists_merge_iff {version : Text} {structural rules : List Finding} :
    (∃ r, merge version structural rules locator = .ok r) ↔
      ∀ f ∈ structural ++ rules, (∃ s : Severity, f.severity = .str s.text) ∧
        ∃ line, locator.lineOf f.path = .ok line := by
  constructor
  · rintro ⟨r, h⟩ f hf
    obtain ⟨m, line, hline, -⟩ := (extends_merge h).exists_tells hf
    exact ⟨(extends_merge h).severity f hf, line, hline⟩
  · intro h
    refine Except.exists_foldlM_eq_ok (fun f hf r => ?_) _
    obtain ⟨⟨s, hs⟩, line, hline⟩ := h f hf
    exact ⟨_, addFinding_eq_ok.mpr ⟨s, _, hs, ⟨line, hline, rfl⟩, rfl⟩⟩

end Diagnosis

end ApiLint
