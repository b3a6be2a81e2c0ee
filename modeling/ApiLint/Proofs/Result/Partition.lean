import ApiLint.Proofs.Lint.Typed
import Mathlib.Algebra.GroupWithZero.Nat

/-! Merging as a partition. Findings whose places have lines are merged exactly if each of them has one of
the four severities. The bucket of a severity is then the row of the messages that the findings of that
severity make, those of the structure check first. What a message says depends on its own finding and the
locator alone, so another finding in the place of one changes no other message (`merge_partitions`). -/
namespace ApiLint

variable {locator : Locator} {fs : List Finding}

/-- The message that a finding makes. A place without a line is taken as the document as a whole. -/
def Message.of (locator : Locator) (f : Finding) : Message :=
  ⟨f.path, f.message, f.rule, ((locator.lineOf f.path).toOption.getD Locator.wholeDocument : Nat)⟩

theorem Message.Tells.eq_of {f : Finding} {m : Message} (h : m.Tells locator f) :
    m = .of locator f := by
  obtain ⟨line, hline, rfl⟩ := h
  rw [Message.of, hline]
  rfl

theorem Message.eq_map_of_tells {ms : List Message}
    (h : List.Forall₂ (Message.Tells locator) fs ms) : ms = fs.map (.of locator) := by
  induction h with
  | nil => rfl
  | cons hm _ ih => rw [List.map_cons, ← hm.eq_of, ih]

/-- The messages that the findings of a severity make. -/
def Severity.messages (s : Severity) (locator : Locator) (fs : List Finding) : List Message :=
  (fs.filter (·.hasSeverity s)).map (.of locator)

theorem Severity.messages_append (s : Severity) (fs gs : List Finding) :
    s.messages locator (fs ++ gs) = s.messages locator fs ++ s.messages locator gs := by
  rw [messages, List.filter_append, List.map_append, ← messages, ← messages]

namespace Diagnosis

variable {version : Text} {structural rules : List Finding} {r : Diagnosis}

theorem sum_counts (r : Diagnosis) : r.counts.sum = r.total := by
  simp only [counts, total, List.sum_cons, List.sum_nil]
  omega

/-- A result that holds each finding once, by severity and in order, each with the line of its place. -/
structure Partitions (locator : Locator) (structural rules : List Finding) (r : Diagnosis) : Prop where
  bucket : ∀ s, r.bucket s = s.messages locator structural ++ s.messages locator rules
  tells : ∀ f ∈ structural ++ rules, (Message.of locator f).Tells locator f
  total : r.total = structural.length + rules.length
  counts : r.counts.sum = r.total
  /-- What is said of the document as a whole stands on no line. -/
  whole : ∀ s, ∀ m ∈ r.bucket s, m.path = [] → m.line = Locator.wholeDocument

theorem bucket_of_merge (h : merge version structural rules locator = .ok r) (s : Severity) :
    r.bucket s = s.messages locator (structural ++ rules) := by
  obtain ⟨ms, hms, htells⟩ := (extends_merge h).bucket s
  have hstart : bucket { version } s = [] := by cases s <;> rfl
  rw [hms, hstart, List.nil_append, Message.eq_map_of_tells htells, Severity.messages]

/-- What merging gives are the buckets of both kinds of findings, those of the structure in front. -/
theorem partitions_of_merge (h : merge version structural rules locator = .ok r) :
    r.Partitions locator structural rules where
  bucket s := by rw [bucket_of_merge h, Severity.messages_append]
  tells f hf := by
    obtain ⟨m, hm⟩ := (extends_merge h).exists_tells hf
    exact hm.eq_of ▸ hm
  total := by
    rw [(extends_merge h).total, List.length_append]
    exact Nat.zero_add _
  counts := sum_counts r
  whole s m hm hpath := by
    rw [bucket_of_merge h] at hm
    obtain ⟨f, -, rfl⟩ := List.mem_map.mp hm
    have hline : locator.lineOf f.path = .ok Locator.wholeDocument := by
      rw [show f.path = [] from hpath, Locator.lineOf_nil]
    rw [Message.of, hline]
    rfl

/-- The messages of a result around those that one finding makes. -/
theorem bucket_around {before after : List Finding} {f : Finding}
    (h : merge version structural rules locator = .ok r)
    (hall : structural ++ rules = before ++ f :: after) (s : Severity) :
    r.bucket s = s.messages locator before ++ s.messages locator [f] ++ s.messages locator after := by
  rw [bucket_of_merge h, hall, ← Severity.messages_append, ← Severity.messages_append,
    List.append_assoc, List.singleton_append]

/-- **Merging partitions what was found.** Findings whose places are keys and indices that can be written
are merged exactly if each has one of the four severities. The result holds the messages that they make,
by severity and in order, with nothing lost, doubled or added; and another finding in the place of one
changes what that one made and no other message. -/
theorem merge_partitions
    (hpath : ∀ f ∈ structural ++ rules, (∀ s ∈ f.path, s.IsStep) ∧ f.IsWritable) :
    ((∃ r, merge version structural rules locator = .ok r) ↔
        ∀ f ∈ structural ++ rules, ∃ s : Severity, f.severity = .str s.text) ∧
      ∀ r, merge version structural rules locator = .ok r →
        r.version = version ∧ r.Partitions locator structural rules ∧
        ∀ before f after f' structural' rules' r', structural ++ rules = before ++ f :: after →
          structural' ++ rules' = before ++ f' :: after →
          merge version structural' rules' locator = .ok r' → ∀ s,
            r.bucket s =
              s.messages locator before ++ s.messages locator [f] ++ s.messages locator after ∧
            r'.bucket s =
              s.messages locator before ++ s.messages locator [f'] ++ s.messages locator after := by
  refine ⟨?_, fun r h => ⟨(extends_merge h).version, partitions_of_merge h, ?_⟩⟩
  · rw [exists_merge_iff]
    refine forall₂_congr fun f hf => and_iff_left ?_
    exact locator.exists_lineOf (hpath f hf).1 (hpath f hf).2
  · intro before f after f' structural' rules' r' hall hall' h' s
    exact ⟨bucket_around h hall s, bucket_around h' hall' s⟩

/-- A document with a key on its second line. -/
def pairLocator : Locator :=
  ⟨.ofRoot (.mapping { mark := ⟨0, 0⟩ }
    [(.scalar { mark := ⟨0, 0⟩ } "openapi", .scalar { mark := ⟨0, 9⟩ } "3.0.0"),
      (.scalar { mark := ⟨1, 0⟩ } "info", .scalar { mark := ⟨1, 6⟩ } "none")])⟩

/-- What the structure check found there. -/
def pairFindings : List Finding :=
  [⟨[.str "info"], .str "no mapping", "structure", .str "error"⟩,
    ⟨[], .str "no paths", "structure", .str "warning"⟩]

/-- What the rule engine found there, with a place that does not exist. -/
def pairItems : List Finding :=
  [⟨[.str "info", .int 2], .str "odd", "shape", .str "error"⟩]

/-- Two findings on one line, of which the second has a place that does not exist. -/
theorem merge_partitions_sample :
    (∀ f ∈ pairFindings ++ pairItems, (∀ s ∈ f.path, s.IsStep) ∧ f.IsWritable) ∧
    ∃ r, merge "3.0.0" pairFindings pairItems pairLocator = .ok r ∧
      r.errors = [⟨[.str "info"], .str "no mapping", "structure", 2⟩,
        ⟨[.str "info", .int 2], .str "odd", "shape", 2⟩] ∧
      r.warnings = [⟨[], .str "no paths", "structure", 0⟩] ∧ r.total = 3 := by
  have hpath : ∀ f ∈ pairFindings ++ pairItems, (∀ s ∈ f.path, s.IsStep) ∧ f.IsWritable := by
    have hinfo : (Value.str "info").hasLongNumeral = false := rfl
    have htwo : (Value.int 2).hasLongNumeral = false := by decide +kernel
    refine List.forall_mem_append.mpr ⟨List.forall_mem_cons.mpr ⟨?_, List.forall_mem_singleton.mpr ?_⟩,
      List.forall_mem_singleton.mpr ?_⟩
    · exact ⟨List.forall_mem_singleton.mpr (.key _), List.forall_mem_singleton.mpr hinfo⟩
    · exact ⟨List.forall_mem_nil _, List.forall_mem_nil _⟩
    · exact ⟨List.forall_mem_cons.mpr ⟨.key _, List.forall_mem_singleton.mpr (.index _)⟩,
        List.forall_mem_cons.mpr ⟨hinfo, List.forall_mem_singleton.mpr htwo⟩⟩
  have hseverity : ∀ f ∈ pairFindings ++ pairItems, ∃ s : Severity, f.severity = .str s.text :=
    List.forall_mem_cons.mpr ⟨⟨.error, rfl⟩, List.forall_mem_cons.mpr ⟨⟨.warning, rfl⟩,
      List.forall_mem_singleton.mpr ⟨.error, rfl⟩⟩⟩
  obtain ⟨hiff, hmerged⟩ := @merge_partitions pairLocator "3.0.0" _ _ hpath
  obtain ⟨r, hr⟩ := hiff.mpr hseverity
  obtain ⟨-, hpartitions, -⟩ := hmerged r hr
  exact ⟨hpath, r, hr, hpartitions.bucket .error, hpartitions.bucket .warning, hpartitions.total⟩

end Diagnosis

end ApiLint
