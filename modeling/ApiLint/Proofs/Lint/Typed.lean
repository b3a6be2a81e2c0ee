import ApiLint.Proofs.Lint.Texts

/-! Findings as the rest of a run takes them: the place is a row of keys and indices, the message is a text,
and the severity is one of the four. Such findings can always be merged (`Diagnosis.exists_merge`), and a
report can be made of the result (`Diagnosis.reports_of_merge`). -/
namespace ApiLint

/-- A key or an index. A truth value counts as the number that it is. -/
inductive Value.IsStep : Value → Prop
  | key (t : Text) : IsStep (.str t)
  | index (n : Int) : IsStep (.int n)
  | truth (b : Bool) : IsStep (.bool b)

namespace Finding

/-- A finding whose place is a row of keys and indices, whose message is a text and whose severity is one
of the four. Its rule is a text by its kind. -/
structure IsTyped (f : Finding) : Prop where
  path : ∀ s ∈ f.path, s.IsStep
  message : f.message.IsText
  severity : ∃ s : Severity, f.severity = .str s.text

/-- A finding with no step in its place that has too many digits to be written. -/
def IsWritable (f : Finding) : Prop := ∀ s ∈ f.path, s.hasLongNumeral = false

end Finding

namespace Locator

variable {s : Value} {path : List Value}

theorem exists_index? (h : s.IsStep) : ∃ i, index? s = .ok i := by
  cases h with
  | key t => exact ⟨_, rfl⟩
  | index n => exact ⟨_, rfl⟩
  | truth b => exact ⟨_, rfl⟩

theorem exists_step (l : Locator) (h : s.IsStep) (hs : s.hasLongNumeral = false) (node : Yaml.Node) :
    ∃ found, l.step s node = .ok found := by
  cases node with
  | mapping head entries =>
    rw [step, hs, Bool.false_and, if_neg Bool.false_ne_true]
    exact ⟨_, rfl⟩
  | sequence head items =>
    obtain ⟨i, hi⟩ := exists_index? h
    rw [step, hi]
    exact ⟨_, rfl⟩
  | _ => exact ⟨none, rfl⟩

/-- Following a place whose steps can be written does not fail. -/
theorem exists_follow (l : Locator) (h : ∀ s ∈ path, s.IsStep)
    (hpath : ∀ s ∈ path, s.hasLongNumeral = false) (line : Nat) (node : Yaml.Node) :
    ∃ found, l.follow line node path = .ok found := by
  induction path generalizing line node with
  | nil => exact ⟨line, rfl⟩
  | cons s path ih =>
    obtain ⟨hs, hrest⟩ := List.forall_mem_cons.mp h
    obtain ⟨hswritable, hwritable⟩ := List.forall_mem_cons.mp hpath
    obtain ⟨found, hfound⟩ := l.exists_step hs hswritable node
    rw [follow, hfound]
    cases found with
    | none => exact ⟨line, rfl⟩
    | some next => exact ih hrest hwritable _ _

/-- A row of keys and indices that can be written always has a line. -/
theorem exists_lineOf (l : Locator) (h : ∀ s ∈ path, s.IsStep)
    (hpath : ∀ s ∈ path, s.hasLongNumeral = false) : ∃ line, l.lineOf path = .ok line := by
  rw [lineOf]
  cases l.document.root? with
  | none => exact ⟨_, rfl⟩
  | some root => exact l.exists_follow h hpath _ root

end Locator

namespace Diagnosis

variable {structural rules : List Finding} {locator : Locator} {version : Text} {r : Diagnosis}

/-- Typed findings are merged, whatever the text of the document is. -/
theorem exists_merge (h : ∀ f ∈ structural ++ rules, f.IsTyped)
    (hpath : ∀ f ∈ structural ++ rules, f.IsWritable) (version : Text) (locator : Locator) :
    ∃ r, merge version structural rules locator = .ok r := by
  refine exists_merge_iff.mpr fun f hf => ?_
  exact ⟨(h f hf).severity, locator.exists_lineOf (h f hf).path (hpath f hf)⟩

/-- Results whose messages are texts. -/
def AreTexts (results : List (Text × Diagnosis)) : Prop :=
  ∀ entry ∈ results, ∀ s, ∀ m ∈ entry.2.bucket s, m.message.IsText

/-- A report can be made of a result of typed findings among others whose messages are texts. -/
theorem reports_of_merge (h : ∀ f ∈ structural ++ rules, f.IsTyped)
    (hmerge : merge version structural rules locator = .ok r) {before after : List (Text × Diagnosis)}
    (hbefore : AreTexts before) (hafter : AreTexts after) (name : Text) :
    ∃ report, Report.make (before ++ (name, r) :: after) = .ok report := by
  refine ⟨_, Report.make_of_isText (List.forall_mem_append.mpr ⟨hbefore, List.forall_mem_cons.mpr
    ⟨fun s => ?_, hafter⟩⟩)⟩
  exact isText_of_merge hmerge (fun f hf => (h f (List.mem_append_left _ hf)).message)
    (fun f hf => (h f (List.mem_append_right _ hf)).message) s

end Diagnosis

end ApiLint
