import ApiLint.Config.Grammar
import ApiLint.Proofs.Config.Schema
import ApiLint.Proofs.Rule

/-! What offends in a configuration, and what conforms. The grammar wants something at the place of the
whole value, of a declared scope, of a declared category and of each rule, and nothing anywhere else
(`Wants`). A value offends at a place to which keys lead in it when it has not there what is wanted
(`Offends`), and conforms when every key is one that the declared rules know and every value is what
its key asks for (`Conforms`). The schema of configurations finds the offences, and nothing exactly in
what conforms. -/
namespace ApiLint

/-- Which values a rule may have. -/
def RuleKind.Allows : RuleKind → Value → Prop
  | status, v => ∃ s ∈ statuses, v = .str s
  | case, v => v = .texts [offStatus] ∨ ∃ s ∈ statuses, ∃ c ∈ cases, v = .texts [s, c]
  | propertyType, v =>
    v = .texts [offStatus] ∨ ∃ s ∈ statuses, ∃ names : List Text,
      (∀ name ∈ names, name ∈ excludedProperties) ∧ v = .list [.str s, .texts names]

/-- What is wrong with a value that a rule may not have. -/
def RuleKind.offence : RuleKind → Value → Config.Offence
  | status, v => .notOneOf v statuses
  | case, v | propertyType, v => .noneOf v

namespace Config

/-! ### What conforms -/

/-- The kind of the value under a key of a category: that of the declared rule with this name, or a
status under any other key of a category that is open. -/
inductive KindAt (scope : Text) (rules : List Rule) (key : Value) : RuleKind → Prop
  | declared {rule : Rule} (hrule : rule ∈ rules) (hkey : key = .str rule.name) :
      KindAt scope rules key rule.kind
  | other (hopen : scope ∈ Rule.extensibleScopes) (hkey : ∀ rule ∈ rules, key ≠ .str rule.name) :
      KindAt scope rules key .status

/-- The rules of a category have values that they may have. -/
def CategoryConforms (scope : Text) (rules : List Rule) (v : Value) : Prop :=
  ∃ entries, v = .map entries ∧ ∀ e ∈ entries, ∃ kind, KindAt scope rules e.1 kind ∧ kind.Allows e.2

/-- A scope has declared categories only. -/
def ScopeConforms (scope : Text) (categories : List (Text × List Rule)) (v : Value) : Prop :=
  ∃ entries, v = .map entries ∧ ∀ e ∈ entries, ∃ category rules,
    (category, rules) ∈ categories ∧ e.1 = .str category ∧ CategoryConforms scope rules e.2

/-- A configuration has declared scopes only. -/
def Conforms (v : Value) : Prop :=
  ∃ entries, v = .map entries ∧ ∀ e ∈ entries, ∃ scope categories,
    (scope, categories) ∈ Rule.catalogue ∧ e.1 = .str scope ∧ ScopeConforms scope categories e.2

/-! ### What offends -/

/-- What the value at a place should be. -/
inductive Form
  /-- A mapping with known keys; a closed one has no others. -/
  | mapping (known : List Text) (closed : Prop)
  /-- The value of a rule. -/
  | rule (kind : RuleKind)

/-- What is wrong with a value that should have a form. -/
def Form.Breaks : Form → Value → Offence → Prop
  | mapping known closed, v, offence => Misshapen known closed v offence
  | rule kind, v, offence => ¬ kind.Allows v ∧ offence = kind.offence v

/-- What the value at a place of a configuration should be. -/
inductive Wants : List Value → Form → Prop
  | root : Wants [] (.mapping (Rule.catalogue.map (·.1)) True)
  | scope {scope : Text} {categories : List (Text × List Rule)}
      (hscope : (scope, categories) ∈ Rule.catalogue) :
      Wants [.str scope] (.mapping (categories.map (·.1)) True)
  | category {scope category : Text} {categories : List (Text × List Rule)} {rules : List Rule}
      (hscope : (scope, categories) ∈ Rule.catalogue) (hcategory : (category, rules) ∈ categories) :
      Wants [.str scope, .str category]
        (.mapping (rules.map (·.name)) (scope ∉ Rule.extensibleScopes))
  | rule {scope category : Text} {categories : List (Text × List Rule)} {rules : List Rule}
      {key : Value} {kind : RuleKind} (hscope : (scope, categories) ∈ Rule.catalogue)
      (hcategory : (category, rules) ∈ categories) (hkey : KindAt scope rules key kind) :
      Wants [.str scope, .str category, key] (.rule kind)

/-- A problem is an offence of a value: at its place the value has not what it should have. -/
def Offends (v : Value) (p : Problem) : Prop :=
  ∃ form part, Wants p.place form ∧ v.Leads p.place part ∧ form.Breaks part p.offence

/-! ### Values of rules -/

/-- A list of values that are all among some names is a list of such names. -/
theorem each_oneOf_eq_nil {names : List Text} {v : Value} (hv : v.Keyed Value.Apart) :
    (Schema.each (.oneOf names)).problems v = [] ↔
      ∃ ts : List Text, (∀ t ∈ ts, t ∈ names) ∧ v = .texts ts := by
  rw [Schema.each_eq_nil hv]
  simp only [Schema.oneOf_eq_nil]
  constructor
  · intro h
    obtain ⟨items, rfl, hitems⟩ := h
    clear hv
    induction items with
    | nil => exact ⟨[], List.forall_mem_nil _, rfl⟩
    | cons x items ih =>
      obtain ⟨⟨t, ht, rfl⟩, hrest⟩ := List.forall_mem_cons.mp hitems
      obtain ⟨ts, hts, heq⟩ := ih hrest
      refine ⟨t :: ts, List.forall_mem_cons.mpr ⟨ht, hts⟩, ?_⟩
      rw [Value.list.inj heq]
      rfl
  · intro h
    obtain ⟨ts, hts, rfl⟩ := h
    refine ⟨_, rfl, fun x hx => ?_⟩
    obtain ⟨t, ht, rfl⟩ := List.mem_map.mp hx
    exact ⟨t, hts t ht, rfl⟩

/-- A value has no problems when it is of its kind. -/
theorem kindSchema_eq_nil {kind : RuleKind} {v : Value} (hv : v.Keyed Value.Apart) :
    (kindSchema kind).problems v = [] ↔ kind.Allows v := by
  cases kind with
  | status => exact Schema.oneOf_eq_nil
  | case =>
    rw [kindSchema, Schema.either_eq_nil, Schema.exactly_eq_nil hv, Schema.pair_eq_nil hv]
    refine or_congr Iff.rfl ?_
    simp only [statusSchema, Schema.oneOf_eq_nil]
    constructor
    · intro h
      obtain ⟨_, _, rfl, ⟨s, hs, rfl⟩, c, hc, rfl⟩ := h
      exact ⟨s, hs, c, hc, rfl⟩
    · intro h
      obtain ⟨s, hs, c, hc, rfl⟩ := h
      exact ⟨_, _, rfl, ⟨s, hs, rfl⟩, c, hc, rfl⟩
  | propertyType =>
    rw [kindSchema, Schema.either_eq_nil, Schema.exactly_eq_nil hv, Schema.pair_eq_nil hv]
    refine or_congr Iff.rfl ?_
    simp only [statusSchema, Schema.oneOf_eq_nil]
    constructor
    · intro h
      obtain ⟨_, b, rfl, ⟨s, hs, rfl⟩, hb⟩ := h
      have hkeyed : b.Keyed Value.Apart := hv.item (List.mem_cons_of_mem _ (List.mem_singleton_self b))
      obtain ⟨names, hnames, rfl⟩ := (each_oneOf_eq_nil hkeyed).mp hb
      exact ⟨s, hs, names, hnames, rfl⟩
    · intro h
      obtain ⟨s, hs, names, hnames, rfl⟩ := h
      exact ⟨_, _, rfl, ⟨s, hs, rfl⟩,
        (each_oneOf_eq_nil (.texts names)).mpr ⟨names, hnames, rfl⟩⟩

/-- A value that is not of its kind is one problem, of its own place. -/
theorem mem_problems_kind {kind : RuleKind} {v : Value} (hv : v.IsTree) {p : Problem} :
    p ∈ (kindSchema kind).problems v ↔ p = ⟨[], kind.offence v⟩ ∧ ¬ kind.Allows v := by
  rw [← kindSchema_eq_nil hv.keyed]
  cases kind with
  | status => exact Schema.mem_problems_oneOf
  | case => exact Schema.mem_problems_either
  | propertyType => exact Schema.mem_problems_either

theorem distinct_kind {kind : RuleKind} {v : Value} : Distinct ((kindSchema kind).problems v) := by
  cases kind with
  | status => exact Schema.distinct_oneOf
  | case => exact Schema.distinct_either
  | propertyType => exact Schema.distinct_either

/-! ### Categories -/

section Category

variable {scope : Text} {rules : List Rule} {v : Value}

/-- A declared rule has the schema of its kind; any other has that of a status, and only in an open
scope. -/
theorem governs_category {key : Value} {schema : Schema} :
    Schema.Governs (rules.map fun rule => (rule.name, ruleSchema rule))
        (if scope ∈ Rule.extensibleScopes then some statusSchema else none) key schema ↔
      ∃ kind, KindAt scope rules key kind ∧ schema = kindSchema kind := by
  constructor
  · intro h
    cases h with
    | property hproperty hkey =>
      obtain ⟨rule, hrule, heq⟩ := List.mem_map.mp hproperty
      cases heq
      exact ⟨_, .declared hrule hkey, rfl⟩
    | other hothers hkey =>
      rw [Option.ite_none_right_eq_some] at hothers
      refine ⟨_, .other hothers.1 fun rule hrule => hkey _ ?_, (Option.some.inj hothers.2).symm⟩
      exact List.mem_map_of_mem (List.mem_map_of_mem hrule)
  · intro hgiven
    obtain ⟨kind, hkind, rfl⟩ := hgiven
    cases hkind with
    | declared hrule hkey => exact .property (List.mem_map_of_mem hrule) hkey
    | other hopen hkey =>
      refine .other (if_pos hopen) fun name hname => ?_
      rw [List.map_map] at hname
      obtain ⟨rule, hrule, rfl⟩ := List.mem_map.mp hname
      exact hkey rule hrule

/-- The problems of a category are those of its own shape and those of the values of its rules. -/
theorem mem_problems_category (hv : v.IsTree) {p : Problem} :
    p ∈ (categorySchema scope rules).problems v ↔
      p.place = [] ∧ Misshapen (rules.map (·.name)) (scope ∉ Rule.extensibleScopes) v p.offence ∨
        ∃ key part kind, v.Holds key part ∧ KindAt scope rules key kind ∧ ¬ kind.Allows part ∧
          p = ⟨[key], kind.offence part⟩ := by
  rw [categorySchema, Schema.mem_problems_mapping hv]
  simp only [governs_category, List.map_map, Function.comp_def, ite_eq_right_iff, reduceCtorEq,
    imp_false]
  refine or_congr Iff.rfl ⟨?_, ?_⟩
  · intro h
    obtain ⟨key, part, _, q, hpart, ⟨kind, hkind, rfl⟩, hq, rfl⟩ := h
    obtain ⟨rfl, hallows⟩ := (mem_problems_kind (hpart.isTree hv)).mp hq
    exact ⟨key, part, kind, hpart, hkind, hallows, rfl⟩
  · intro h
    obtain ⟨key, part, kind, hpart, hkind, hallows, rfl⟩ := h
    exact ⟨key, part, _, _, hpart, ⟨kind, hkind, rfl⟩,
      (mem_problems_kind (hpart.isTree hv)).mpr ⟨rfl, hallows⟩, rfl⟩

/-- A category without problems is one that conforms, and conversely. -/
theorem categorySchema_eq_nil (hv : v.Keyed Value.Apart) (hnames : (rules.map (·.name)).Nodup) :
    (categorySchema scope rules).problems v = [] ↔ CategoryConforms scope rules v := by
  rw [categorySchema, Schema.mapping_eq_nil hv (by rwa [List.map_map])]
  refine exists_congr fun entries => and_congr_right ?_
  intro heq
  obtain rfl := heq
  refine forall₂_congr fun e he => ?_
  simp only [governs_category]
  constructor
  · intro h
    obtain ⟨_, ⟨kind, hkind, rfl⟩, hnil⟩ := h
    exact ⟨kind, hkind, (kindSchema_eq_nil (hv.entry he)).mp hnil⟩
  · intro h
    obtain ⟨kind, hkind, hallows⟩ := h
    exact ⟨_, ⟨kind, hkind, rfl⟩, (kindSchema_eq_nil (hv.entry he)).mpr hallows⟩

theorem distinct_category (hv : v.IsTree) (hnames : (rules.map (·.name)).Nodup) :
    Distinct ((categorySchema scope rules).problems v) := by
  refine Schema.distinct_mapping hv (by rwa [List.map_map]) fun key part schema _ hgoverns => ?_
  obtain ⟨kind, -, rfl⟩ := governs_category.mp hgoverns
  exact distinct_kind

end Category

/-! ### Scopes and the whole -/

section Scope

variable {scope : Text} {categories : List (Text × List Rule)} {v : Value}

theorem mem_problems_scope (hv : v.IsTree) {p : Problem} :
    p ∈ (scopeSchema scope categories).problems v ↔
      p.place = [] ∧ Misshapen (categories.map (·.1)) True v p.offence ∨
        ∃ category rules, (category, rules) ∈ categories ∧ ∃ part q, v.Holds (.str category) part ∧
          q ∈ (categorySchema scope rules).problems part ∧ q.under (.str category) = p := by
  rw [scopeSchema, Schema.mem_problems_closed hv, Prod.exists]

theorem scopeSchema_eq_nil (hv : v.Keyed Value.Apart) (hscope : (scope, categories) ∈ Rule.catalogue) :
    (scopeSchema scope categories).problems v = [] ↔ ScopeConforms scope categories v := by
  rw [scopeSchema, Schema.closed_eq_nil hv (Rule.categories_nodup hscope)]
  refine exists_congr fun entries => and_congr_right ?_
  intro heq
  obtain rfl := heq
  refine forall₂_congr fun e he => ?_
  rw [Prod.exists]
  refine exists₂_congr fun category rules => and_congr_right fun hcategory => and_congr Iff.rfl ?_
  exact categorySchema_eq_nil (hv.entry he) (Rule.rules_nodup hscope hcategory)

theorem distinct_scope (hv : v.IsTree) (hscope : (scope, categories) ∈ Rule.catalogue) :
    Distinct ((scopeSchema scope categories).problems v) :=
  Schema.distinct_closed hv (Rule.categories_nodup hscope) fun _ hcategory _ hpart =>
    distinct_category (hpart.isTree hv) (Rule.rules_nodup hscope hcategory)

end Scope

section Whole

variable {v : Value}

theorem mem_problems_schema (hv : v.IsTree) {p : Problem} :
    p ∈ schema.problems v ↔
      p.place = [] ∧ Misshapen (Rule.catalogue.map (·.1)) True v p.offence ∨
        ∃ scope categories, (scope, categories) ∈ Rule.catalogue ∧ ∃ part q,
          v.Holds (.str scope) part ∧ q ∈ (scopeSchema scope categories).problems part ∧
            q.under (.str scope) = p := by
  rw [schema, Schema.mem_problems_closed hv, Prod.exists]

theorem schema_eq_nil (hv : v.Keyed Value.Apart) : schema.problems v = [] ↔ Conforms v := by
  rw [schema, Schema.closed_eq_nil hv Rule.scopes_nodup]
  refine exists_congr fun entries => and_congr_right ?_
  intro heq
  obtain rfl := heq
  refine forall₂_congr fun e he => ?_
  rw [Prod.exists]
  refine exists₂_congr fun scope categories => and_congr_right fun hscope => and_congr Iff.rfl ?_
  exact scopeSchema_eq_nil (hv.entry he) hscope

theorem distinct_schema (hv : v.IsTree) : Distinct (schema.problems v) :=
  Schema.distinct_closed hv Rule.scopes_nodup fun _ hscope _ hpart =>
    distinct_scope (hpart.isTree hv) hscope

/-- The problems of a category are those of the whole, seen through two keys. -/
theorem mem_problems_of_category {scope category : Text} {categories : List (Text × List Rule)}
    {rules : List Rule} {part part' : Value} {q : Problem} (hv : v.IsTree)
    (hscope : (scope, categories) ∈ Rule.catalogue) (hcategory : (category, rules) ∈ categories)
    (hpart : v.Holds (.str scope) part) (hpart' : part.Holds (.str category) part')
    (hq : q ∈ (categorySchema scope rules).problems part') :
    (q.under (.str category)).under (.str scope) ∈ schema.problems v := by
  have hq' : q.under (.str category) ∈ (scopeSchema scope categories).problems part :=
    (mem_problems_scope (hpart.isTree hv)).mpr
      (.inr ⟨category, rules, hcategory, part', q, hpart', hq, rfl⟩)
  exact (mem_problems_schema hv).mpr (.inr ⟨scope, categories, hscope, part, _, hpart, hq', rfl⟩)

/-- What the schema finds is an offence. -/
theorem offends_of_mem (hv : v.IsTree) {p : Problem} (hp : p ∈ schema.problems v) : Offends v p := by
  obtain ⟨hplace, hmis⟩ | ⟨scope, categories, hscope, part, q, hpart, hq, rfl⟩ :=
    (mem_problems_schema hv).mp hp
  · obtain ⟨place, offence⟩ := p
    subst hplace
    exact ⟨_, v, .root, rfl, hmis⟩
  have hpartTree := hpart.isTree hv
  obtain ⟨hplace, hmis⟩ | ⟨category, rules, hcategory, part', r, hpart', hr, rfl⟩ :=
    (mem_problems_scope hpartTree).mp hq
  · obtain ⟨place, offence⟩ := q
    subst hplace
    exact ⟨_, part, .scope hscope, ⟨part, hpart, rfl⟩, hmis⟩
  obtain ⟨hplace, hmis⟩ | ⟨key, w, kind, hw, hkind, hallows, rfl⟩ :=
    (mem_problems_category (hpart'.isTree hpartTree)).mp hr
  · obtain ⟨place, offence⟩ := r
    subst hplace
    exact ⟨_, part', .category hscope hcategory, ⟨part, hpart, part', hpart', rfl⟩, hmis⟩
  · exact ⟨_, w, .rule hscope hcategory hkind, ⟨part, hpart, part', hpart', w, hw, rfl⟩,
      hallows, rfl⟩

/-- The schema finds every offence. -/
theorem mem_of_offends (hv : v.IsTree) {p : Problem} (hp : Offends v p) : p ∈ schema.problems v := by
  obtain ⟨place, offence⟩ := p
  obtain ⟨form, w, hwants, hleads, hbreaks⟩ := hp
  cases hwants with
  | root =>
    cases hleads
    exact (mem_problems_schema hv).mpr (.inl ⟨rfl, hbreaks⟩)
  | @scope scope categories hscope =>
    obtain ⟨part, hpart, rfl⟩ := hleads
    have hq : ⟨[], offence⟩ ∈ (scopeSchema scope categories).problems part :=
      (mem_problems_scope (hpart.isTree hv)).mpr (.inl ⟨rfl, hbreaks⟩)
    exact (mem_problems_schema hv).mpr (.inr ⟨_, _, hscope, part, _, hpart, hq, rfl⟩)
  | category hscope hcategory =>
    obtain ⟨part, hpart, part', hpart', rfl⟩ := hleads
    have htree := hpart'.isTree (hpart.isTree hv)
    have hq := (mem_problems_category (p := ⟨[], offence⟩) htree).mpr (.inl ⟨rfl, hbreaks⟩)
    exact mem_problems_of_category hv hscope hcategory hpart hpart' hq
  | rule hscope hcategory hkind =>
    obtain ⟨part, hpart, part', hpart', w, hw, rfl⟩ := hleads
    obtain ⟨hallows, rfl⟩ := hbreaks
    have htree := hpart'.isTree (hpart.isTree hv)
    have hq := (mem_problems_category htree).mpr (.inr ⟨_, w, _, hw, hkind, hallows, rfl⟩)
    exact mem_problems_of_category hv hscope hcategory hpart hpart' hq

end Whole

/-! ### Configurations of one rule -/

/-- A configuration of one rule. -/
def ofRule (scope category name : Text) (v : Value) : Value :=
  .record [(scope, .record [(category, .record [(name, v)])])]

theorem ofRule_isTree (scope category name : Text) {v : Value} (hv : v.IsTree) :
    (ofRule scope category name v).IsTree :=
  hv.single.single.single

section OfRule

variable {scope category name : Text} {categories : List (Text × List Rule)} {rules : List Rule}
  {kind : RuleKind} {v : Value}

theorem ofRule_conforms (hscope : (scope, categories) ∈ Rule.catalogue)
    (hcategory : (category, rules) ∈ categories) (hkey : KindAt scope rules (.str name) kind)
    (h : kind.Allows v) : Conforms (ofRule scope category name v) := by
  refine ⟨_, rfl, List.forall_mem_singleton.mpr ⟨scope, categories, hscope, rfl, ?_⟩⟩
  refine ⟨_, rfl, List.forall_mem_singleton.mpr ⟨category, rules, hcategory, rfl, ?_⟩⟩
  exact ⟨_, rfl, List.forall_mem_singleton.mpr ⟨kind, hkey, h⟩⟩

theorem ofRule_offends (hscope : (scope, categories) ∈ Rule.catalogue)
    (hcategory : (category, rules) ∈ categories) (hkey : KindAt scope rules (.str name) kind)
    (h : ¬ kind.Allows v) :
    Offends (ofRule scope category name v)
      ⟨[.str scope, .str category, .str name], kind.offence v⟩ := by
  refine ⟨_, v, .rule hscope hcategory hkey, ?_, h, rfl⟩
  exact ⟨_, Value.holds_map.mpr (List.mem_singleton_self _),
    _, Value.holds_map.mpr (List.mem_singleton_self _),
    _, Value.holds_map.mpr (List.mem_singleton_self _), rfl⟩

end OfRule

end Config

end ApiLint
