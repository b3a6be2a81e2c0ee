import ApiLint.Proofs.Config.Grammar
import ApiLint.Proofs.Stable
import ApiLint.Proofs.Text.Order

/-! What is said about a configuration. The problems of a tree are its offences, each once, in the order
of their places; each is written with its place in front; and there are none exactly when the tree
conforms (`complaints_correct`). A problem that shows a whole number with too many digits cannot be
written, and then nothing is. -/
namespace ApiLint.Config

/-! ### Problems in their order -/

theorem mem_problems {v : Value} (hv : v.IsTree) {p : Problem} : p ∈ problems v ↔ Offends v p :=
  List.mem_mergeSort.trans ⟨offends_of_mem hv, mem_of_offends hv⟩

/-- Places are ordered by the code points of their steps. -/
theorem stepsLe_iff {ss ts : List Text} :
    stepsLe ss ts = true ↔ ss.map Text.codes ≤ ts.map Text.codes := by
  induction ss generalizing ts with
  | nil =>
    simp only [stepsLe, true_iff]
    exact not_lt.mp (List.not_lt_nil _)
  | cons s ss ih =>
    cases ts with
    | nil => simp [stepsLe]
    | cons t ts =>
      rw [stepsLe, List.map_cons, List.map_cons, cons_le_cons_iff]
      by_cases hst : s = t
      · simp only [hst, if_true, ih, lt_self_iff_false, true_and, false_or]
      · have hne : s.codes ≠ t.codes := fun h => hst (Text.codes_injective h)
        simp only [hst, if_false, Text.atMost_iff, hne, false_and, or_false, le_iff_lt_or_eq]

theorem problems_ascending (v : Value) :
    (problems v).Pairwise fun p q => p.steps.map Text.codes ≤ q.steps.map Text.codes :=
  (isStableSort_mergeSort (fun p : Problem => p.steps.map Text.codes) (fun _ _ => stepsLe_iff)
    _).inOrder

theorem distinct_problems {v : Value} (hv : v.IsTree) : Distinct (problems v) :=
  distinct_of_perm (List.mergeSort_perm _ _) (distinct_schema hv)

theorem problems_eq_nil {v : Value} (hv : v.Keyed Value.Apart) : problems v = [] ↔ Conforms v := by
  rw [← schema_eq_nil hv, problems, ← List.length_eq_zero_iff, List.length_mergeSort,
    List.length_eq_zero_iff]

/-! ### Messages -/

/-- Every place where something is wanted has a name, but for that of the whole value. -/
theorem joined_ne_nil_of_wants {place : List Value} {form : Form} (h : Wants place form)
    (hplace : place ≠ []) : Text.joined "." (place.map Value.text) ≠ [] := by
  have hscoped : ∃ scope rest, place = .str scope :: rest ∧ scope ≠ [] := by
    cases h with
    | root => exact absurd rfl hplace
    | scope hscope => exact ⟨_, _, rfl, Rule.scope_ne_nil hscope⟩
    | category hscope _ => exact ⟨_, _, rfl, Rule.scope_ne_nil hscope⟩
    | rule hscope _ _ => exact ⟨_, _, rfl, Rule.scope_ne_nil hscope⟩
  obtain ⟨scope, rest, rfl, hne⟩ := hscoped
  cases rest with
  | nil =>
    rw [Text.joined, List.map_singleton, List.intercalate_singleton]
    exact hne
  | cons key rest =>
    rw [Text.joined, List.map_cons, List.map_cons, List.intercalate_cons_cons, List.append_assoc]
    exact List.append_ne_nil_of_left_ne_nil hne _

/-- The complaint that an offence makes, with the place in front of it. -/
theorem message_of_offends {v : Value} {p : Problem} (h : Offends v p) :
    p.message = (if p.place = [] then ("<root>" : Text)
      else Text.joined "." (p.place.map Value.text)) ++ ": " ++ p.offence.message := by
  obtain ⟨form, part, hwants, -, -⟩ := h
  rw [Problem.message]
  congr 2
  by_cases hplace : p.place = []
  · rw [if_pos hplace, Problem.steps, hplace]
    rfl
  · have hne : Text.joined "." p.steps ≠ [] := joined_ne_nil_of_wants hwants hplace
    rw [if_neg hplace, if_neg fun hempty => hne (List.isEmpty_iff.mp hempty)]
    rfl

theorem complaints_eq_ok {v : Value} (hv : v.IsTree)
    (h : ∀ p, Offends v p → p.isWritable = true) :
    complaints v = .ok ((problems v).map Problem.message) :=
  if_pos (List.all_eq_true.mpr fun p hp => h p ((mem_problems hv).mp hp))

/-- One problem that cannot be written is enough for none to be. -/
theorem complaints_eq_error {v : Value} (hv : v.IsTree) {p : Problem} (hp : Offends v p)
    (h : p.isWritable = false) : complaints v = .error (.number .tooLarge) := by
  refine if_neg fun hall => ?_
  have := List.all_eq_true.mp hall p ((mem_problems hv).mpr hp)
  rw [h] at this
  cases this

theorem complaints_eq_nil {v : Value} (hv : v.Keyed Value.Apart) :
    complaints v = .ok [] ↔ Conforms v := by
  rw [← problems_eq_nil hv, complaints]
  constructor
  · intro h
    split at h
    · exact List.map_eq_nil_iff.mp (Except.ok.inj h)
    · cases h
  · intro h
    rw [h]
    rfl

/-- **What the complaints about a configuration are.** For each offence of a tree there is one, and
no two are about one place; they stand in the order of their places, each with its place in front.
They can be written exactly when every offence can; otherwise there is a failure in their stead. There
are none exactly when the tree conforms. -/
theorem complaints_correct {v : Value} (hv : v.IsTree) :
    (∃ found : List Problem,
      (∀ p, p ∈ found ↔ Offends v p) ∧ (found.map (·.place)).Nodup ∧
      found.Pairwise (fun p q => p.steps.map Text.codes ≤ q.steps.map Text.codes) ∧
      (∀ p ∈ found, p.message = (if p.place = [] then ("<root>" : Text)
        else Text.joined "." (p.place.map Value.text)) ++ ": " ++ p.offence.message) ∧
      (complaints v = .ok (found.map Problem.message) ↔ ∀ p, Offends v p → p.isWritable = true)) ∧
    ((∃ p, Offends v p ∧ p.isWritable = false) → complaints v = .error (.number .tooLarge)) ∧
    (complaints v = .ok [] ↔ Conforms v) := by
  refine ⟨⟨problems v, fun _ => mem_problems hv, distinct_problems hv, problems_ascending v,
    fun p hp => message_of_offends ((mem_problems hv).mp hp), ?_⟩, ?_, complaints_eq_nil hv.keyed⟩
  · constructor
    · intro hok p hp
      by_contra hnot
      rw [complaints_eq_error hv hp (Bool.eq_false_iff.mpr hnot)] at hok
      cases hok
    · exact complaints_eq_ok hv
  · intro hgiven
    obtain ⟨p, hp, h⟩ := hgiven
    exact complaints_eq_error hv hp h

theorem complaints_correct_sample :
    (ofRule "shared" "paths" "paths_case_convention" (.texts ["off"])).IsTree ∧
      complaints (ofRule "shared" "paths" "paths_case_convention" (.texts ["off"])) = .ok [] := by
  have htree := ofRule_isTree "shared" "paths" "paths_case_convention" (.texts ["off"])
  refine ⟨htree, (complaints_correct htree).2.2.mpr ?_⟩
  refine ofRule_conforms List.mem_cons_self (List.mem_of_getElem? (i := 3) rfl)
    (.declared (List.mem_of_getElem? (i := 2) rfl) rfl) (.inl rfl)

/-- A whole number with 3601 digits in the base 16, and 4335 in the base 10. -/
def longSample : Value := .int (Int.ofNat (Nat.pow 16 3600))

/-- A whole number with too many digits in the place of a status is an offence that cannot be
written. -/
theorem complaints_of_long_numeral :
    Offends (ofRule "shared" "operations" "no_summary" longSample)
        ⟨[.str "shared", .str "operations", .str "no_summary"], .notOneOf longSample statuses⟩ ∧
      complaints (ofRule "shared" "operations" "no_summary" longSample) =
        .error (.number .tooLarge) := by
  have hnot : ¬ RuleKind.status.Allows longSample := by
    intro h
    obtain ⟨s, -, heq⟩ := h
    cases heq
  have hoffends : Offends (ofRule "shared" "operations" "no_summary" longSample) _ :=
    ofRule_offends List.mem_cons_self (List.mem_of_getElem? (i := 0) rfl)
      (.declared (List.mem_of_getElem? (i := 4) rfl) rfl) hnot
  exact ⟨hoffends, complaints_eq_error (ofRule_isTree _ _ _ (.scalar rfl)) hoffends
    (by decide +kernel)⟩

end ApiLint.Config
