import ApiLint.Config.Schema
import ApiLint.Proofs.Value.Keyed
import Mathlib.Data.List.Nodup

/-! What a schema finds in a value. The problems of a mapping are those of its own place and those of
its parts, each part under the schema that governs its key; the other schemas find one problem or
none. In a tree no place is named twice, as long as a mapping names each of its properties once. A
value without problems has an end (`ends`), and so it is looked at as it stands. -/
namespace ApiLint.Config

/-! ### Rows of problems -/

/-- No two problems have one place. -/
def Distinct (problems : List Problem) : Prop :=
  (problems.map (·.place)).Nodup

theorem distinct_of_perm {ps qs : List Problem} (hperm : ps.Perm qs) (h : Distinct qs) :
    Distinct ps :=
  (hperm.map _).nodup_iff.mpr h

theorem distinct_singleton (p : Problem) : Distinct [p] :=
  List.nodup_singleton _

/-- A test finds one problem or none. -/
theorem ite_nil_eq_nil {c : Prop} [Decidable c] {p : Problem} :
    (if c then [] else [p]) = [] ↔ c := by
  split <;> simp [*]

theorem distinct_ite_nil {c : Prop} [Decidable c] {p : Problem} :
    Distinct (if c then [] else [p]) := by
  split
  · exact List.nodup_nil
  · exact distinct_singleton p

theorem mem_ite_nil {c : Prop} [Decidable c] {p q : Problem} :
    q ∈ (if c then [] else [p]) ↔ q = p ∧ (if c then [] else [p]) ≠ [] := by
  split <;> simp

/-- The problems of some parts, each seen from the value that holds the part under a key. -/
def gather (parts : List (Value × List Problem)) : List Problem :=
  parts.flatMap fun part => part.2.map (·.under part.1)

theorem gather_append (parts parts' : List (Value × List Problem)) :
    gather (parts ++ parts') = gather parts ++ gather parts' :=
  List.flatMap_append

theorem mem_gather {parts : List (Value × List Problem)} {p : Problem} :
    p ∈ gather parts ↔ ∃ part ∈ parts, ∃ q ∈ part.2, q.under part.1 = p := by
  simp only [gather, List.mem_flatMap, List.mem_map]

/-- The problems of parts with different keys are distinct when those of each part are. -/
theorem distinct_gather {parts : List (Value × List Problem)} (hkeys : (parts.map (·.1)).Nodup)
    (hparts : ∀ part ∈ parts, Distinct part.2) : Distinct (gather parts) := by
  have hplaces : (gather parts).map (·.place) =
      parts.flatMap fun part => (part.2.map (·.place)).map (part.1 :: ·) := by
    rw [gather, List.map_flatMap]
    simp only [List.map_map, Function.comp_def, Problem.under]
  rw [Distinct, hplaces, List.nodup_flatMap]
  refine ⟨fun part hpart => (hparts part hpart).map (List.cons_injective), ?_⟩
  refine (List.pairwise_map.mp hkeys).imp fun {a b} hne => List.disjoint_left.mpr ?_
  intro place ha hb
  obtain ⟨_, -, rfl⟩ := List.mem_map.mp ha
  obtain ⟨_, -, heq⟩ := List.mem_map.mp hb
  exact hne (List.cons.inj heq).1.symm

/-! ### Mappings -/

/-- An entry is left to the other keys when its own is the name of no property. -/
theorem mem_unknownEntries {known : List Text} {entries : Entries} {e : Value × Value} :
    e ∈ unknownEntries known entries ↔ e ∈ entries ∧ ∀ name ∈ known, e.1 ≠ .str name := by
  simp only [unknownEntries, List.mem_filter, Bool.not_eq_true', List.any_eq_false,
    Bool.not_eq_true, Value.same_str_eq_false, ne_eq]

/-- What is wrong with a value that should be a mapping: it is none, or, where no other keys are
allowed, it has some. -/
inductive Misshapen (known : List Text) (closed : Prop) : Value → Offence → Prop
  | notMapping {v : Value} (h : ∀ entries, v ≠ .map entries) :
      Misshapen known closed v (.notMapping v)
  | unknownKeys {entries : Entries} (hclosed : closed) (h : unknownEntries known entries ≠ []) :
      Misshapen known closed (.map entries)
        (.unknownKeys ((unknownEntries known entries).map (·.1)))

/-- The only thing that can be wrong with the shape of a mapping is a key that it may not have. -/
theorem misshapen_map {known : List Text} {closed : Prop} {entries : Entries} {offence : Offence} :
    Misshapen known closed (.map entries) offence ↔
      closed ∧ unknownEntries known entries ≠ [] ∧
        offence = .unknownKeys ((unknownEntries known entries).map (·.1)) := by
  constructor
  · intro hmis
    cases hmis with
    | notMapping h => exact absurd rfl (h entries)
    | unknownKeys hclosed h => exact ⟨hclosed, h, rfl⟩
  · intro hgiven
    obtain ⟨hclosed, h, rfl⟩ := hgiven
    exact .unknownKeys hclosed h

theorem misshapen_of_not_map {known : List Text} {closed : Prop} {v : Value} {offence : Offence}
    (h : ∀ entries, v ≠ .map entries) :
    Misshapen known closed v offence ↔ offence = .notMapping v := by
  constructor
  · intro hmis
    cases hmis with
    | notMapping _ => rfl
    | unknownKeys _ _ => exact absurd rfl (h _)
  · intro heq
    obtain rfl := heq
    exact .notMapping h

namespace Schema

/-- Which schema the value under a key of a mapping has to satisfy. -/
inductive Governs (properties : List (Text × Schema)) (others : Option Schema) (key : Value)
    (schema : Schema) : Prop
  | property {name : Text} (h : (name, schema) ∈ properties) (hkey : key = .str name)
  | other (h : others = some schema) (hkey : ∀ name ∈ properties.map (·.1), key ≠ .str name)

variable {properties : List (Text × Schema)} {others : Option Schema} {v : Value}

/-- The parts of a mapping that properties are for. -/
def propertyParts (properties : List (Text × Schema)) (entries : Entries) :
    List (Value × List Problem) :=
  properties.map fun p =>
    (.str p.1, ((entries.find? (.str p.1)).map p.2.problems).getD [])

/-- The parts of a mapping that no property is for, each under one schema. -/
def otherParts (known : List Text) (schema : Schema) (entries : Entries) :
    List (Value × List Problem) :=
  (unknownEntries known entries).map fun e => (e.1, schema.problems e.2)

theorem propertyProblems_eq (properties : List (Text × Schema)) (entries : Entries) :
    propertyProblems properties entries = gather (propertyParts properties entries) := by
  induction properties with
  | nil => simp only [propertyProblems, propertyParts, gather, List.map_nil, List.flatMap_nil]
  | cons p properties ih =>
    obtain ⟨name, schema⟩ := p
    rw [propertyProblems, ih]
    show _ = (((entries.find? (.str name)).map schema.problems).getD []).map (·.under (.str name)) ++
      gather (propertyParts properties entries)
    cases entries.find? (.str name) <;> rfl

theorem otherProblems_some (known : List Text) (schema : Schema) (entries : Entries) :
    otherProblems (otherCheck (some schema)) (unknownEntries known entries) =
      gather (otherParts known schema entries) := by
  rw [gather, otherParts, List.flatMap_map]
  rfl

theorem problems_map (entries : Entries) :
    (mapping properties others).problems (.map entries) =
      gather (propertyParts properties entries) ++
        otherProblems (otherCheck others) (unknownEntries (properties.map (·.1)) entries) := by
  rw [problems, ← propertyProblems_eq]
  rfl

theorem problems_of_not_map (hv : v.IsTree) (h : ∀ entries, v ≠ .map entries) :
    (mapping properties others).problems v = [⟨[], .notMapping v⟩] := by
  rw [problems, hv.opened]
  cases v <;> first | rfl | exact absurd rfl (h _)

/-- The properties find the problems of the values under their names. -/
theorem mem_propertyParts {entries : Entries} (hkeys : (entries.map (·.1)).Pairwise Value.Apart)
    {p : Problem} :
    p ∈ gather (propertyParts properties entries) ↔
      ∃ name schema part q, (name, schema) ∈ properties ∧ (.str name, part) ∈ entries ∧
        q ∈ schema.problems part ∧ q.under (.str name) = p := by
  simp only [mem_gather, propertyParts, List.mem_map, exists_exists_and_eq_and]
  constructor
  · intro h
    obtain ⟨⟨name, schema⟩, hproperty, q, hq, rfl⟩ := h
    cases hfind : entries.find? (.str name) with
    | none => simp only [hfind, Option.map_none, Option.getD_none, List.not_mem_nil] at hq
    | some part =>
      simp only [hfind, Option.map_some, Option.getD_some] at hq
      exact ⟨name, schema, part, q, hproperty, (Entries.find?_str hkeys).mp hfind, hq, rfl⟩
  · intro h
    obtain ⟨name, schema, part, q, hproperty, hpart, hq, rfl⟩ := h
    refine ⟨(name, schema), hproperty, q, ?_, rfl⟩
    rw [(Entries.find?_str hkeys).mpr hpart]
    exact hq

/-- The keys that no property is for are a problem of the mapping itself where they are not allowed;
elsewhere their values are checked. -/
theorem mem_otherProblems {known : List Text} {entries : Entries} {p : Problem} :
    p ∈ otherProblems (otherCheck others) (unknownEntries known entries) ↔
      p.place = [] ∧ Misshapen known (others = none) (.map entries) p.offence ∨
        ∃ key part schema q, (key, part) ∈ entries ∧ others = some schema ∧
          (∀ name ∈ known, key ≠ .str name) ∧ q ∈ schema.problems part ∧ q.under key = p := by
  rw [misshapen_map]
  cases others with
  | none =>
    obtain ⟨place, offence⟩ := p
    simp only [otherCheck, otherProblems, reduceCtorEq, false_and, and_false, exists_false, or_false,
      true_and]
    by_cases hnil : unknownEntries known entries = []
    · simp only [hnil, List.isEmpty_nil, if_true, List.not_mem_nil, ne_eq, not_true_eq_false,
        false_and, and_false]
    · rw [if_neg fun hempty => hnil (List.isEmpty_iff.mp hempty), List.mem_singleton,
        Problem.mk.injEq]
      simp only [hnil, ne_eq, not_false_eq_true, true_and]
  | some schema =>
    simp only [otherProblems_some, mem_gather, otherParts, List.mem_map, mem_unknownEntries,
      exists_exists_and_eq_and, reduceCtorEq, false_and, and_false, false_or]
    constructor
    · intro h
      obtain ⟨⟨key, part⟩, ⟨hpart, hkey⟩, q, hq, rfl⟩ := h
      exact ⟨key, part, schema, q, hpart, rfl, hkey, hq, rfl⟩
    · intro h
      obtain ⟨key, part, schema', q, hpart, hschema, hkey, hq, rfl⟩ := h
      cases hschema
      exact ⟨(key, part), ⟨hpart, hkey⟩, q, hq, rfl⟩

/-- What a schema finds in a mapping: what is wrong with its shape, and the problems of its parts. -/
theorem mem_problems_map {entries : Entries} (hkeys : (entries.map (·.1)).Pairwise Value.Apart)
    {p : Problem} :
    p ∈ (mapping properties others).problems (.map entries) ↔
      p.place = [] ∧ Misshapen (properties.map (·.1)) (others = none) (.map entries) p.offence ∨
        ∃ key part schema q, (key, part) ∈ entries ∧ Governs properties others key schema ∧
          q ∈ schema.problems part ∧ q.under key = p := by
  simp only [problems_map, List.mem_append, mem_propertyParts hkeys, mem_otherProblems]
  constructor
  · intro h
    rcases h with ⟨name, schema, part, q, hproperty, hpart, hq, rfl⟩ | hshape |
      ⟨key, part, schema, q, hpart, hothers, hkey, hq, rfl⟩
    · exact .inr ⟨_, part, schema, q, hpart, .property hproperty rfl, hq, rfl⟩
    · exact .inl hshape
    · exact .inr ⟨key, part, schema, q, hpart, .other hothers hkey, hq, rfl⟩
  · intro h
    rcases h with hshape | ⟨key, part, schema, q, hpart, hgoverns, hq, rfl⟩
    · exact .inr (.inl hshape)
    · cases hgoverns with
      | property hproperty hkey =>
        subst hkey
        exact .inl ⟨_, schema, part, q, hproperty, hpart, hq, rfl⟩
      | other hothers hkey =>
        exact .inr (.inr ⟨key, part, schema, q, hpart, hothers, hkey, hq, rfl⟩)

/-- What a schema finds in a tree that should be a mapping. -/
theorem mem_problems_mapping (hv : v.IsTree) {p : Problem} :
    p ∈ (mapping properties others).problems v ↔
      p.place = [] ∧ Misshapen (properties.map (·.1)) (others = none) v p.offence ∨
        ∃ key part schema q, v.Holds key part ∧ Governs properties others key schema ∧
          q ∈ schema.problems part ∧ q.under key = p := by
  by_cases hmap : ∃ entries, v = .map entries
  · obtain ⟨entries, rfl⟩ := hmap
    simp only [mem_problems_map hv.keysApart, Value.holds_map]
  · have hne : ∀ entries, v ≠ .map entries := not_exists.mp hmap
    have hparts : ∀ key part, ¬ v.Holds key part := by
      intro key part h
      obtain ⟨entries, hv, -⟩ := h
      exact hne entries hv
    obtain ⟨place, offence⟩ := p
    simp only [problems_of_not_map hv hne, List.mem_singleton, Problem.mk.injEq,
      misshapen_of_not_map hne, hparts, false_and, exists_false, or_false]

/-- Where properties have different names, one schema alone governs a key. -/
theorem Governs.unique {key : Value} {schema schema' : Schema}
    (hnames : (properties.map (·.1)).Nodup) (h : Governs properties others key schema)
    (h' : Governs properties others key schema') : schema = schema' := by
  cases h with
  | @property name hproperty hkey =>
    cases h' with
    | @property name' hproperty' hkey' =>
      obtain rfl := Value.str.inj (hkey.symm.trans hkey')
      exact congrArg Prod.snd (List.inj_on_of_nodup_map hnames hproperty hproperty' rfl)
    | other _ hnone => exact absurd hkey (hnone _ (List.mem_map_of_mem hproperty))
  | other hothers hnone =>
    cases h' with
    | property hproperty hkey => exact absurd hkey (hnone _ (List.mem_map_of_mem hproperty))
    | other hothers' _ => exact Option.some.inj (hothers.symm.trans hothers')

theorem Governs.sizeOf_lt {key : Value} {schema : Schema}
    (h : Governs properties others key schema) :
    sizeOf schema < 1 + sizeOf properties + sizeOf others := by
  cases h with
  | @property name hproperty _ =>
    have hless : sizeOf (name, schema) < sizeOf properties := List.sizeOf_lt_of_mem hproperty
    rw [Prod.mk.sizeOf_spec] at hless
    omega
  | other hothers _ =>
    rw [hothers, Option.some.sizeOf_spec]
    omega

/-- A key that no schema governs is unknown, and no other keys are allowed. -/
theorem governs_or_unknown (properties : List (Text × Schema)) (others : Option Schema)
    (key : Value) :
    (∃ schema, Governs properties others key schema) ∨
      others = none ∧ ∀ name ∈ properties.map (·.1), key ≠ .str name := by
  by_cases hkey : ∀ name ∈ properties.map (·.1), key ≠ .str name
  · cases others with
    | none => exact .inr ⟨rfl, hkey⟩
    | some schema => exact .inl ⟨schema, .other rfl hkey⟩
  · push Not at hkey
    obtain ⟨name, hname, hkey⟩ := hkey
    obtain ⟨⟨_, schema⟩, hproperty, rfl⟩ := List.mem_map.mp hname
    exact .inl ⟨schema, .property hproperty hkey⟩

/-- In a mapping without problems each value satisfies the schema that governs its key, and each key is
governed by one. -/
theorem governed_of_map_eq_nil {entries : Entries}
    (hkeys : (entries.map (·.1)).Pairwise Value.Apart)
    (h : (mapping properties others).problems (.map entries) = []) :
    ∀ e ∈ entries, ∃ schema, Governs properties others e.1 schema ∧ schema.problems e.2 = [] := by
  have hnone := List.eq_nil_iff_forall_not_mem.mp h
  simp only [mem_problems_map hkeys] at hnone
  intro e he
  rcases governs_or_unknown properties others e.1 with ⟨schema, hgoverns⟩ | ⟨hclosed, hkey⟩
  · refine ⟨schema, hgoverns, List.eq_nil_iff_forall_not_mem.mpr fun q hq => ?_⟩
    exact hnone _ (.inr ⟨e.1, e.2, schema, q, he, hgoverns, hq, rfl⟩)
  · have hunknown := List.ne_nil_of_mem (mem_unknownEntries.mpr ⟨he, hkey⟩)
    exact absurd (.inl ⟨rfl, .unknownKeys hclosed hunknown⟩) (hnone ⟨[], _⟩)

/-- A mapping has no problems exactly if each entry has a schema and fits it. -/
theorem map_eq_nil {entries : Entries} (hkeys : (entries.map (·.1)).Pairwise Value.Apart)
    (hnames : (properties.map (·.1)).Nodup) :
    (mapping properties others).problems (.map entries) = [] ↔
      ∀ e ∈ entries, ∃ schema, Governs properties others e.1 schema ∧ schema.problems e.2 = [] := by
  refine ⟨governed_of_map_eq_nil hkeys, fun hparts => List.eq_nil_iff_forall_not_mem.mpr ?_⟩
  intro p hp
  rcases (mem_problems_map hkeys).mp hp with ⟨-, hmis⟩ | ⟨key, part, schema, q, hpart, hgoverns, hq, -⟩
  · obtain ⟨hclosed, hunknown, -⟩ := misshapen_map.mp hmis
    obtain ⟨e, he⟩ := List.exists_mem_of_ne_nil _ hunknown
    obtain ⟨hmem, hkey⟩ := mem_unknownEntries.mp he
    obtain ⟨schema, hgoverns, -⟩ := hparts e hmem
    cases hgoverns with
    | property hproperty heq => exact hkey _ (List.mem_map_of_mem hproperty) heq
    | other hothers _ => cases hclosed.symm.trans hothers
  · obtain ⟨schema', hgoverns', hnil⟩ := hparts _ hpart
    rw [hgoverns.unique hnames hgoverns', hnil] at hq
    cases hq

theorem propertyParts_nodup (entries : Entries) (hnames : (properties.map (·.1)).Nodup) :
    ((propertyParts properties entries).map (·.1)).Nodup := by
  have hkeys : (propertyParts properties entries).map (·.1) =
      (properties.map (·.1)).map Value.str := by
    simp only [propertyParts, List.map_map, Function.comp_def]
  rw [hkeys]
  exact hnames.map fun _ _ h => Value.str.inj h

/-- The keys of all parts of a mapping differ. -/
theorem parts_nodup {schema : Schema} {entries : Entries} (hkeys : (entries.map (·.1)).Nodup)
    (hnames : (properties.map (·.1)).Nodup) :
    ((propertyParts properties entries ++
      otherParts (properties.map (·.1)) schema entries).map (·.1)).Nodup := by
  rw [List.map_append]
  refine (propertyParts_nodup entries hnames).append ?_ (List.disjoint_left.mpr ?_)
  · rw [otherParts, List.map_map]
    exact hkeys.sublist (List.filter_sublist.map _)
  · intro key hproperty hother
    obtain ⟨_, hpart, rfl⟩ := List.mem_map.mp hproperty
    obtain ⟨p, hp, rfl⟩ := List.mem_map.mp hpart
    obtain ⟨_, hpart', heq⟩ := List.mem_map.mp hother
    obtain ⟨e, he, rfl⟩ := List.mem_map.mp hpart'
    exact (mem_unknownEntries.mp he).2 p.1 (List.mem_map_of_mem hp) heq

/-- Parts that properties are for have distinct keys, and so their problems have distinct places. -/
theorem distinct_of_mem_propertyParts {entries : Entries}
    (hkeys : (entries.map (·.1)).Pairwise Value.Apart)
    (hparts : ∀ name part schema, (.str name, part) ∈ entries → (name, schema) ∈ properties →
      Distinct (schema.problems part)) :
    ∀ part ∈ propertyParts properties entries, Distinct part.2 := by
  intro part hpart
  obtain ⟨⟨name, schema⟩, hproperty, rfl⟩ := List.mem_map.mp hpart
  cases hfind : entries.find? (.str name) with
  | none =>
    rw [Option.map_none, Option.getD_none]
    exact List.nodup_nil
  | some part =>
    rw [Option.map_some, Option.getD_some]
    exact hparts name part schema ((Entries.find?_str hkeys).mp hfind) hproperty

/-- The problem of unknown keys is the only one of the mapping's own place. -/
theorem distinct_append_unknown {parts : List (Value × List Problem)} {entries : Entries}
    (h : Distinct (gather parts)) :
    Distinct (gather parts ++ otherProblems (otherCheck none) entries) := by
  simp only [otherCheck, otherProblems]
  split
  · rwa [List.append_nil]
  · rw [Distinct, List.map_append]
    refine h.append (distinct_singleton _) (List.disjoint_left.mpr ?_)
    intro place hplace hroot
    obtain ⟨p, hp, rfl⟩ := List.mem_map.mp hplace
    obtain ⟨part, -, q, -, rfl⟩ := mem_gather.mp hp
    cases List.mem_singleton.mp hroot

/-- A mapping with different keys has distinct problems when its parts have. -/
theorem distinct_mapping (hv : v.IsTree) (hnames : (properties.map (·.1)).Nodup)
    (hparts : ∀ key part schema, v.Holds key part → Governs properties others key schema →
      Distinct (schema.problems part)) :
    Distinct ((mapping properties others).problems v) := by
  by_cases hmap : ∃ entries, v = .map entries
  · obtain ⟨entries, rfl⟩ := hmap
    have hproperties : ∀ part ∈ propertyParts properties entries, Distinct part.2 :=
      distinct_of_mem_propertyParts hv.keysApart fun _ part schema hpart hproperty =>
        hparts _ part schema (Value.holds_map.mpr hpart) (.property hproperty rfl)
    rw [problems_map]
    cases others with
    | none =>
      exact distinct_append_unknown
        (distinct_gather (propertyParts_nodup entries hnames) hproperties)
    | some schema =>
      rw [otherProblems_some, ← gather_append]
      refine distinct_gather (parts_nodup hv.keys hnames) fun part hpart => ?_
      rcases List.mem_append.mp hpart with hproperty | hother
      · exact hproperties part hproperty
      · obtain ⟨e, he, rfl⟩ := List.mem_map.mp hother
        obtain ⟨hmem, hkey⟩ := mem_unknownEntries.mp he
        exact hparts e.1 e.2 schema (Value.holds_map.mpr hmem) (.other rfl hkey)
  · rw [problems_of_not_map hv (not_exists.mp hmap)]
    exact distinct_singleton _

/-! ### Values without problems -/

theorem oneOf_eq_nil {texts : List Text} :
    (oneOf texts).problems v = [] ↔ ∃ t ∈ texts, v = .str t := by
  rw [problems, ite_nil_eq_nil, List.any_eq_true]
  simp only [Value.same_str]

theorem either_eq_nil {first second : Schema} :
    (either first second).problems v = [] ↔ first.problems v = [] ∨ second.problems v = [] := by
  rw [problems, ite_nil_eq_nil, Bool.or_eq_true, List.isEmpty_iff, List.isEmpty_iff]

theorem exactly_opened_eq_nil {texts : List Text} :
    (exactly texts).problems v = [] ↔ v.opened = .texts texts := by
  rw [problems, ite_nil_eq_nil, Value.same_texts]

/-- The schema of a pair sees through a label around the pair. -/
theorem pair_opened_eq_nil {first second : Schema} :
    (pair first second).problems v = [] ↔
      ∃ a b, v.opened = .list [a, b] ∧ first.problems a = [] ∧ second.problems b = [] := by
  rw [problems]
  split
  · next heq =>
    simp only [heq, List.append_eq_nil_iff, List.map_eq_nil_iff, Value.list.injEq, List.cons.injEq,
      and_true, and_assoc, exists_and_left, exists_eq_left']
  · next hother =>
    refine ⟨fun h => absurd h (List.cons_ne_nil _ _), ?_⟩
    intro hgiven
    obtain ⟨a, b, heq, -⟩ := hgiven
    exact absurd heq (hother a b)

/-- The schema of a list sees through a label around the list. -/
theorem each_opened_eq_nil {item : Schema} :
    (each item).problems v = [] ↔
      ∃ items, v.opened = .list items ∧ ∀ x ∈ items, item.problems x = [] := by
  rw [problems]
  split
  · next items heq =>
    simp only [heq, List.flatten_eq_nil_iff, List.forall_mem_map, List.map_eq_nil_iff,
      Value.list.injEq, exists_eq_left']
    conv_rhs => rw [← List.zipIdx_map_fst 0 items, List.forall_mem_map]
  · next hother =>
    refine ⟨fun h => absurd h (List.cons_ne_nil _ _), ?_⟩
    intro hgiven
    obtain ⟨items, heq, -⟩ := hgiven
    exact absurd heq (hother items)

/-- The schema of a mapping sees through a label around the mapping. -/
theorem mapping_opened_eq_nil :
    (mapping properties others).problems v = [] ↔
      ∃ entries, v.opened = .map entries ∧
        (mapping properties others).problems (.map entries) = [] := by
  rw [problems]
  split
  · next entries heq =>
    simp only [heq, problems_map, propertyProblems_eq, Value.map.injEq, exists_eq_left']
  · next hother =>
    refine ⟨fun h => absurd h (List.cons_ne_nil _ _), ?_⟩
    intro hgiven
    obtain ⟨entries, heq, -⟩ := hgiven
    exact absurd heq (hother entries)

/-- No value that satisfies a schema contains itself. -/
def Ends (schema : Schema) : Prop :=
  ∀ v : Value, v.Keyed Value.Apart → schema.problems v = [] → v.isEndless {} = false

theorem ends_oneOf (texts : List Text) : Ends (oneOf texts) := by
  intro v _ h
  obtain ⟨t, -, rfl⟩ := oneOf_eq_nil.mp h
  rfl

theorem ends_exactly (texts : List Text) : Ends (exactly texts) := by
  intro v hv h
  refine hv.isEndless_of_opened ?_
  rw [exactly_opened_eq_nil.mp h]
  exact Value.isEndless_texts texts

theorem ends_pair {first second : Schema} (hfirst : Ends first) (hsecond : Ends second) :
    Ends (pair first second) := by
  intro v hv h
  obtain ⟨a, b, hopened, ha, hb⟩ := pair_opened_eq_nil.mp h
  have hparts : (Value.list [a, b]).Keyed Value.Apart := hopened ▸ hv.opened
  refine hv.isEndless_of_opened (hopened ▸ Value.isEndless_list fun x hx => ?_)
  rcases List.mem_pair.mp hx with rfl | rfl
  · exact hfirst _ (hparts.item hx) ha
  · exact hsecond _ (hparts.item hx) hb

theorem ends_each {item : Schema} (hitem : Ends item) : Ends (each item) := by
  intro v hv h
  obtain ⟨items, hopened, hitems⟩ := each_opened_eq_nil.mp h
  have hparts : (Value.list items).Keyed Value.Apart := hopened ▸ hv.opened
  refine hv.isEndless_of_opened (hopened ▸ Value.isEndless_list fun x hx => ?_)
  exact hitem x (hparts.item hx) (hitems x hx)

theorem ends_either {first second : Schema} (hfirst : Ends first) (hsecond : Ends second) :
    Ends (either first second) := by
  intro v hv h
  rcases either_eq_nil.mp h with h | h
  · exact hfirst v hv h
  · exact hsecond v hv h

theorem ends_mapping (h : ∀ key schema, Governs properties others key schema → Ends schema) :
    Ends (mapping properties others) := by
  intro v hv hnil
  obtain ⟨entries, hopened, hmap⟩ := mapping_opened_eq_nil.mp hnil
  have hparts : (Value.map entries).Keyed Value.Apart := hopened ▸ hv.opened
  refine hv.isEndless_of_opened (hopened ▸ Value.isEndless_map fun e he => ?_)
  obtain ⟨schema, hgoverns, hschema⟩ := governed_of_map_eq_nil hparts.keys hmap e he
  exact h e.1 schema hgoverns e.2 (hparts.entry he) hschema

/-- A schema leads only so far into a value, and a value that contains itself goes on. -/
theorem ends : (schema : Schema) → Ends schema
  | oneOf texts => ends_oneOf texts
  | exactly texts => ends_exactly texts
  | pair first second => ends_pair (ends first) (ends second)
  | each item => ends_each (ends item)
  | either first second => ends_either (ends first) (ends second)
  | mapping properties others => ends_mapping fun _ schema hgoverns =>
    have := hgoverns.sizeOf_lt
    ends schema
termination_by schema => sizeOf schema

theorem opened_eq_self {schema : Schema} (hv : v.Keyed Value.Apart) (h : schema.problems v = []) :
    v.opened = v :=
  hv.opened_eq_self (ends schema v hv h)

theorem exactly_eq_nil {texts : List Text} (hv : v.Keyed Value.Apart) :
    (exactly texts).problems v = [] ↔ v = .texts texts := by
  constructor
  · intro h
    rw [← opened_eq_self hv h]
    exact exactly_opened_eq_nil.mp h
  · intro h
    obtain rfl := h
    exact exactly_opened_eq_nil.mpr rfl

theorem pair_eq_nil {first second : Schema} (hv : v.Keyed Value.Apart) :
    (pair first second).problems v = [] ↔
      ∃ a b, v = .list [a, b] ∧ first.problems a = [] ∧ second.problems b = [] := by
  constructor
  · intro h
    rw [← opened_eq_self hv h]
    exact pair_opened_eq_nil.mp h
  · intro hgiven
    obtain ⟨a, b, rfl, ha, hb⟩ := hgiven
    exact pair_opened_eq_nil.mpr ⟨a, b, rfl, ha, hb⟩

theorem each_eq_nil {item : Schema} (hv : v.Keyed Value.Apart) :
    (each item).problems v = [] ↔
      ∃ items, v = .list items ∧ ∀ x ∈ items, item.problems x = [] := by
  constructor
  · intro h
    rw [← opened_eq_self hv h]
    exact each_opened_eq_nil.mp h
  · intro hgiven
    obtain ⟨items, rfl, hitems⟩ := hgiven
    exact each_opened_eq_nil.mpr ⟨items, rfl, hitems⟩

/-- A value has no problems when it is a mapping in which each value satisfies the schema that governs
its key, and each key is governed by one. -/
theorem mapping_eq_nil (hv : v.Keyed Value.Apart) (hnames : (properties.map (·.1)).Nodup) :
    (mapping properties others).problems v = [] ↔
      ∃ entries, v = .map entries ∧ ∀ e ∈ entries,
        ∃ schema, Governs properties others e.1 schema ∧ schema.problems e.2 = [] := by
  constructor
  · intro h
    obtain ⟨entries, hopened, hmap⟩ := mapping_opened_eq_nil.mp h
    obtain rfl := (opened_eq_self hv h).symm.trans hopened
    exact ⟨entries, rfl, governed_of_map_eq_nil hv.keys hmap⟩
  · intro hgiven
    obtain ⟨entries, rfl, hparts⟩ := hgiven
    exact (map_eq_nil hv.keys hnames).mpr hparts

/-! ### The other schemas -/

/-- A value that may be one of some texts has one problem when it is none of them. -/
theorem mem_problems_oneOf {texts : List Text} {p : Problem} :
    p ∈ (oneOf texts).problems v ↔ p = ⟨[], .notOneOf v texts⟩ ∧ (oneOf texts).problems v ≠ [] := by
  rw [problems, mem_ite_nil]

/-- A value that may satisfy one of two schemas has one problem when it satisfies neither. -/
theorem mem_problems_either {first second : Schema} {p : Problem} :
    p ∈ (either first second).problems v ↔
      p = ⟨[], .noneOf v⟩ ∧ (either first second).problems v ≠ [] := by
  rw [problems, mem_ite_nil]

theorem distinct_oneOf {texts : List Text} : Distinct ((oneOf texts).problems v) := by
  rw [problems]
  exact distinct_ite_nil

theorem distinct_either {first second : Schema} : Distinct ((either first second).problems v) := by
  rw [problems]
  exact distinct_ite_nil

/-! ### Mappings with known keys only -/

section Closed

variable {α : Type} {named : List (Text × α)} {form : Text × α → Schema}

/-- A closed schema governs exactly the keys that it names. -/
theorem governs_closed {key : Value} {schema : Schema} :
    Governs (named.map fun c => (c.1, form c)) none key schema ↔
      ∃ c ∈ named, key = .str c.1 ∧ schema = form c := by
  constructor
  · intro h
    cases h with
    | property hproperty hkey =>
      obtain ⟨c, hc, heq⟩ := List.mem_map.mp hproperty
      cases heq
      exact ⟨c, hc, hkey, rfl⟩
    | other hothers _ => cases hothers
  · intro hgiven
    obtain ⟨c, hc, hkey, rfl⟩ := hgiven
    exact .property (List.mem_map_of_mem hc) hkey

/-- The problems of a closed mapping: its own shape, and those of its named parts, each seen from above.
-/
theorem mem_problems_closed (hv : v.IsTree) {p : Problem} :
    p ∈ (mapping (named.map fun c => (c.1, form c)) none).problems v ↔
      p.place = [] ∧ Misshapen (named.map (·.1)) True v p.offence ∨
        ∃ c ∈ named, ∃ part q, v.Holds (.str c.1) part ∧ q ∈ (form c).problems part ∧
          q.under (.str c.1) = p := by
  rw [mem_problems_mapping hv]
  simp only [governs_closed, List.map_map, Function.comp_def]
  refine or_congr Iff.rfl ⟨?_, ?_⟩
  · intro h
    obtain ⟨_, part, _, q, hpart, ⟨c, hc, rfl, rfl⟩, hq, hunder⟩ := h
    exact ⟨c, hc, part, q, hpart, hq, hunder⟩
  · intro h
    obtain ⟨c, hc, part, q, hpart, hq, hunder⟩ := h
    exact ⟨_, part, _, q, hpart, ⟨c, hc, rfl, rfl⟩, hq, hunder⟩

/-- A closed mapping without problems has named keys only, each with a value without problems. -/
theorem closed_eq_nil (hv : v.Keyed Value.Apart) (hnames : (named.map (·.1)).Nodup) :
    (mapping (named.map fun c => (c.1, form c)) none).problems v = [] ↔
      ∃ entries, v = .map entries ∧ ∀ e ∈ entries,
        ∃ c ∈ named, e.1 = .str c.1 ∧ (form c).problems e.2 = [] := by
  rw [mapping_eq_nil hv (by rwa [List.map_map])]
  simp only [governs_closed]
  refine exists_congr fun entries => and_congr_right fun _ => forall₂_congr fun e _ => ?_
  constructor
  · intro h
    obtain ⟨_, ⟨c, hc, hkey, rfl⟩, hnil⟩ := h
    exact ⟨c, hc, hkey, hnil⟩
  · intro h
    obtain ⟨c, hc, hkey, hnil⟩ := h
    exact ⟨_, ⟨c, hc, hkey, rfl⟩, hnil⟩

theorem distinct_closed (hv : v.IsTree) (hnames : (named.map (·.1)).Nodup)
    (hparts : ∀ c ∈ named, ∀ part, v.Holds (.str c.1) part → Distinct ((form c).problems part)) :
    Distinct ((mapping (named.map fun c => (c.1, form c)) none).problems v) := by
  refine distinct_mapping hv (by rwa [List.map_map]) fun key part schema hpart hgoverns => ?_
  obtain ⟨c, hc, rfl, rfl⟩ := governs_closed.mp hgoverns
  exact hparts c hc part hpart

end Closed

end Schema

end ApiLint.Config
