import ApiLint.Config.Default
import ApiLint.Proofs.Config.Complaints
import ApiLint.Proofs.Value.Layered

/-! The default configuration has three layers of names, and keeps to the grammar of configurations. -/
namespace ApiLint

/-- A record is layered as far down as the values of its fields are. -/
theorem Value.layered_record {n : Nat} {fields : List (Text × Value)} :
    (record fields).Layered AreNames (n + 1) ↔
      (fields.map (·.1)).Nodup ∧ ∀ field ∈ fields, field.2.Layered AreNames n := by
  have hkeys : (fields.map fun field => (str field.1, field.2)).map (·.1) =
      (fields.map (·.1)).map str := by
    simp only [List.map_map, Function.comp_def]
  constructor
  · intro h
    obtain ⟨entries, heq, ⟨names, hnames, hstr⟩, hentries⟩ := h
    obtain rfl := map.inj heq
    rw [hkeys, (List.map_injective_iff.mpr fun _ _ => str.inj).eq_iff] at hstr
    exact ⟨hstr ▸ hnames, fun field hfield => hentries _ (List.mem_map_of_mem hfield)⟩
  · intro h
    exact ⟨_, rfl, ⟨_, h.1, hkeys⟩, List.forall_mem_map.mpr h.2⟩

theorem Value.layered_str (s : Text) : (str s).Layered AreNames 0 :=
  ⟨.scalar rfl, Value.noConfusion⟩

namespace RuleKind

theorem allows_status {s : Text} : status.Allows (.str s) ↔ s ∈ statuses := by
  simp only [Allows, Value.str.injEq, exists_eq_right']

theorem allows_case_off : case.Allows (.texts ["off"]) :=
  .inl rfl

theorem allows_case {s c : Text} (hs : s ∈ statuses) (hc : c ∈ cases) :
    case.Allows (.texts [s, c]) :=
  .inr ⟨s, hs, c, hc, rfl⟩

theorem allows_propertyType_off : propertyType.Allows (.texts ["off"]) :=
  .inl rfl

end RuleKind

namespace Config

/-! ### Layers -/

theorem layered_category {name : Text} {rules : List (Text × Value)} :
    (category name rules).2.Layered Value.AreNames 1 ↔
      (rules.map (·.1)).Nodup ∧ ∀ rule ∈ rules, rule.2.Layered Value.AreNames 0 :=
  Value.layered_record

theorem layered_scope {name : Text} {categories : List (Text × Value)} :
    (scope name categories).2.Layered Value.AreNames 2 ↔
      (categories.map (·.1)).Nodup ∧ ∀ c ∈ categories, c.2.Layered Value.AreNames 1 :=
  Value.layered_record

theorem layered_is (name status : Text) : (is name status).2.Layered Value.AreNames 0 :=
  Value.layered_str status

theorem layered_isList (name : Text) (names : List Text) :
    (isList name names).2.Layered Value.AreNames 0 :=
  ⟨.texts names, Value.noConfusion⟩

theorem defaults_layered : defaults.Layered Value.AreNames 3 := by
  simp only [defaults, Value.layered_record, layered_scope, layered_category, layered_is,
    layered_isList, List.forall_mem_cons, List.not_mem_nil, false_imp_iff, implies_true, and_true]
  simp [scope, category, is, isList]

/-! ### Grammar -/

theorem categoryConforms_of_declared {scope name : Text} {rules : List Rule}
    {fields : List (Text × Value)}
    (h : ∀ f ∈ fields, ∃ rule ∈ rules, f.1 = rule.name ∧ rule.kind.Allows f.2) :
    CategoryConforms scope rules (category name fields).2 := by
  refine ⟨_, rfl, List.forall_mem_map.mpr fun f hf => ?_⟩
  obtain ⟨rule, hrule, hname, hallows⟩ := h f hf
  exact ⟨rule.kind, .declared hrule (congrArg Value.str hname), hallows⟩

theorem scopeConforms_of_declared {name : Text} {categories : List (Text × List Rule)}
    {fields : List (Text × Value)}
    (h : ∀ f ∈ fields, ∃ rules, (f.1, rules) ∈ categories ∧ CategoryConforms name rules f.2) :
    ScopeConforms name categories (scope name fields).2 := by
  refine ⟨_, rfl, List.forall_mem_map.mpr fun f hf => ?_⟩
  obtain ⟨rules, hrules, hconforms⟩ := h f hf
  exact ⟨f.1, rules, hrules, rfl, hconforms⟩

/-- The built-in configuration has only declared names with allowed values; checked rule by rule, and
not by running the check on it. -/
theorem defaults_conforms : Conforms defaults := by
  have hcase : RuleKind.case.Allows (.texts ["off", "lower_camel_case"]) :=
    RuleKind.allows_case (by simp [statuses]) (by simp [cases])
  refine ⟨_, rfl, List.forall_mem_map.mpr ?_⟩
  simp only [List.forall_mem_cons, List.not_mem_nil, false_imp_iff, implies_true, and_true]
  refine ⟨⟨"shared", _, .head _, rfl, scopeConforms_of_declared ?_⟩,
    ⟨"swagger2", _, .tail _ (.head _), rfl, scopeConforms_of_declared ?_⟩,
    ⟨"oas3", _, .tail _ (.tail _ (.head _)), rfl, scopeConforms_of_declared ?_⟩,
    ⟨"spectral", _, .tail _ (.tail _ (.tail _ (.head _))), rfl, scopeConforms_of_declared ?_⟩⟩
  all_goals
    simp only [List.forall_mem_cons, List.not_mem_nil, false_imp_iff, implies_true, and_true]
  · refine ⟨⟨_, List.mem_of_getElem? (i := 0) rfl, categoryConforms_of_declared ?_⟩,
      ⟨_, List.mem_of_getElem? (i := 1) rfl, categoryConforms_of_declared ?_⟩,
      ⟨_, List.mem_of_getElem? (i := 2) rfl, categoryConforms_of_declared ?_⟩,
      ⟨_, List.mem_of_getElem? (i := 3) rfl, categoryConforms_of_declared ?_⟩,
      ⟨_, List.mem_of_getElem? (i := 4) rfl, categoryConforms_of_declared ?_⟩,
      ⟨_, List.mem_of_getElem? (i := 6) rfl, categoryConforms_of_declared ?_⟩,
      ⟨_, List.mem_of_getElem? (i := 7) rfl, categoryConforms_of_declared ?_⟩,
      ⟨_, List.mem_of_getElem? (i := 5) rfl, categoryConforms_of_declared ?_⟩,
      ⟨_, List.mem_of_getElem? (i := 8) rfl, categoryConforms_of_declared ?_⟩⟩
    all_goals
      simp [is, isList, Rule.sharedOperations, Rule.sharedPagination, Rule.sharedParameters,
        Rule.sharedPaths, Rule.sharedResponses, Rule.sharedSecurityDefinitions,
        Rule.sharedSecurity, Rule.sharedSchemas, Rule.sharedWalker, Rule.status, Rule.case,
        Rule.propertyType, RuleKind.allows_status, RuleKind.allows_case_off,
        RuleKind.allows_propertyType_off, hcase, statuses]
  · refine ⟨_, List.mem_of_getElem? (i := 0) rfl, categoryConforms_of_declared ?_⟩
    simp [is, Rule.swagger2Operations, Rule.status, RuleKind.allows_status, statuses]
  · refine ⟨⟨_, List.mem_of_getElem? (i := 0) rfl, categoryConforms_of_declared ?_⟩,
      ⟨_, List.mem_of_getElem? (i := 1) rfl, categoryConforms_of_declared ?_⟩,
      ⟨_, List.mem_of_getElem? (i := 2) rfl, categoryConforms_of_declared ?_⟩⟩
    all_goals
      simp [is, Rule.oas3Operations, Rule.oas3Responses, Rule.oas3Schemas, Rule.status,
        RuleKind.allows_status, statuses]
  · refine ⟨_, List.mem_of_getElem? (i := 0) rfl, categoryConforms_of_declared ?_⟩
    simp [is, Rule.engineRules, Rule.oas, Rule.ibm, RuleKind.allows_status, statuses]

end Config

end ApiLint
