import ApiLint.Proofs.Config.Basic

/-! What a configuration says of its rules is what the value says that it was made of. A place of a value is
read name by name (`readAt`), and that can be done before freezing as well as after it
(`RowsAre.readAt_frozen`, by induction on the place). So a configuration answers as the value itself would
(`ofValue_mirrors`): with the same values, frozen, or with the same misuses. -/
namespace ApiLint

/-- The kind that a value of a kind has when its lists have become tuples. -/
def frozenKind (kind : String) : String :=
  if kind = "list" then "tuple" else kind

/-- The same misuse of a value whose lists have become tuples. Only the name of a kind is another one. -/
def Misuse.frozen : Misuse → Misuse
  | notMapping kind operation => notMapping (frozenKind kind) operation
  | notIterable kind => notIterable (frozenKind kind)
  | notKey kind => notKey (frozenKind kind)
  | notText kind => notText (frozenKind kind)
  | notChangeable kind => notChangeable (frozenKind kind)
  | noParts kind => noParts (frozenKind kind)
  | notNumber kind => notNumber (frozenKind kind)
  | notClearable kind => notClearable (frozenKind kind)
  | notPairs => notPairs
  | noItem => noItem
  | noPlace kind => noPlace (frozenKind kind)
  | noEntry key => noEntry key
  | infinitePlace => infinitePlace

/-- What comes of a frozen value where `x` comes of the value itself; `f` says what a result becomes. -/
def frozenAnswer {α β : Type} (f : α → β) (x : Except Misuse α) : Except Misuse β :=
  (x.map f).mapError Misuse.frozen

/-- An attempt that goes on with a frozen result goes on as it would with the result itself. -/
theorem bind_frozenAnswer {α α' β β' : Type} {f : α → α'} {g : β → β'} {x : Except Misuse α}
    {next : α → Except Misuse β} {next' : α' → Except Misuse β'}
    (h : ∀ a, x = .ok a → next' (f a) = frozenAnswer g (next a)) :
    frozenAnswer f x >>= next' = frozenAnswer g (x >>= next) := by
  cases x with
  | error m => rfl
  | ok a => exact h a rfl

/-- A row of attempts, each with a frozen value. -/
theorem mapM_frozenAnswer {α α' β β' : Type} {f : α → α'} {g : β → β'} {attempt : α → Except Misuse β}
    {attempt' : α' → Except Misuse β'} {xs : List α}
    (h : ∀ a ∈ xs, attempt' (f a) = frozenAnswer g (attempt a)) :
    (xs.map f).mapM attempt' = frozenAnswer (List.map g) (xs.mapM attempt) := by
  induction xs with
  | nil => rfl
  | cons a xs ih =>
    obtain ⟨ha, hxs⟩ := List.forall_mem_cons.mp h
    rw [List.map_cons, List.mapM_cons, List.mapM_cons, ha, ih hxs]
    refine bind_frozenAnswer fun b _ => ?_
    exact bind_frozenAnswer fun bs _ => rfl

namespace Value

/-! ### Reading a value as it is -/

/-- What stands at a place of names. Where a name is missing nothing stands further in, and only a mapping
can be asked for a name. -/
def readAt : List Text → Value → Except Misuse (Option Value)
  | [], v => .ok (some v)
  | name :: place, map entries =>
    match Entries.find? (str name) entries with
    | some w => readAt place w
    | none => .ok none
  | _ :: _, v => .error (.notMapping v.kindName "get")

/-- The value at a place; null if there is none. -/
def valueAt (place : List Text) (v : Value) : Except Misuse Value :=
  (v.readAt place).map (·.getD null)

/-- The status in the value at a place; off if there is none. -/
def statusAt (place : List Text) (v : Value) : Except Misuse Value := do
  match ← v.valueAt place with
  | null => return str offStatus
  | w => statusIn w

/-- The names in a mapping and the statuses in their values. -/
def statusesIn : Value → Except Misuse Entries
  | map entries => entries.mapM fun e => return (e.1, ← statusIn e.2)
  | v => .error (.notMapping v.kindName "items")

/-- The names in the mapping at a place and the statuses in their values; none if there is no mapping. -/
def statusesAt (place : List Text) (v : Value) : Except Misuse Entries := do
  statusesIn ((← v.readAt place).getD (map []))

theorem readAt_cons_cons (name next : Text) (place : List Text) (v : Value) :
    v.readAt (name :: next :: place) =
      v.readAt [name] >>= fun part => (part.getD (map [])).readAt (next :: place) := by
  cases v with
  | map entries =>
    rw [readAt, readAt]
    cases Entries.find? (str name) entries <;> rfl
  | _ => rfl

theorem valueAt_cons_cons (name next : Text) (place : List Text) (v : Value) :
    v.valueAt (name :: next :: place) =
      v.readAt [name] >>= fun part => (part.getD (map [])).valueAt (next :: place) := by
  rw [valueAt, readAt_cons_cons]
  cases v.readAt [name] <;> rfl

theorem statusesAt_cons_cons (name next : Text) (place : List Text) (v : Value) :
    v.statusesAt (name :: next :: place) =
      v.readAt [name] >>= fun part => (part.getD (map [])).statusesAt (next :: place) := by
  rw [statusesAt, readAt_cons_cons]
  cases v.readAt [name] <;> rfl

/-! ### Reading a frozen value -/

namespace RowsAre

variable {v w : Value}

/-- What stands under a name of a frozen value is what stands there in the value itself, frozen. -/
theorem lookup_frozen (h : v.RowsAre list) (name : Text) :
    v.frozen.lookup (str name) = frozenAnswer (Option.map frozen) (v.readAt [name]) := by
  cases h with
  | scalar h => cases v <;> first | rfl | cases h
  | @map entries _ =>
    have hfind : Entries.find? (str name) (frozenEntries entries) =
        (Entries.find? (str name) entries).map frozen := by
      rw [frozenEntries_eq, Entries.find?_map_snd]
    rw [readAt, frozen]
    show Except.ok (Entries.find? (str name) (frozenEntries entries)) = _
    rw [hfind]
    cases Entries.find? (str name) entries <;> rfl
  | _ => rfl

/-- What stands at a place has rows of the same kind. -/
protected theorem readAt (h : v.RowsAre list) {place : List Text}
    (hw : v.readAt place = .ok (some w)) : w.RowsAre list := by
  induction place generalizing v with
  | nil =>
    obtain rfl := Option.some.inj (Except.ok.inj hw)
    exact h
  | cons name place ih =>
    cases h with
    | scalar h => cases v <;> first | cases hw | cases h
    | map hentries =>
      rw [Value.readAt] at hw
      split at hw
      · next u hfind =>
        obtain ⟨_, hmem, -⟩ := Entries.exists_of_find? hfind
        exact ih (hentries _ hmem) hw
      · cases hw
    | _ => cases hw

protected theorem valueAt (h : v.RowsAre list) {place : List Text} (hw : v.valueAt place = .ok w) :
    w.RowsAre list := by
  obtain ⟨found, hfound, rfl⟩ := Except.map_eq_ok.mp hw
  cases found with
  | none => exact .scalar rfl
  | some u => exact h.readAt hfound

/-- What stands under a name, or an empty mapping, can be frozen before it is read or afterwards. -/
theorem part_or_empty (h : v.RowsAre list) {name : Text} {found : Option Value}
    (hfound : v.readAt [name] = .ok found) :
    (found.getD (Value.map [])).RowsAre list ∧
      (found.map frozen).getD (Value.map []) = (found.getD (Value.map [])).frozen := by
  cases found with
  | none => exact ⟨.map (List.forall_mem_nil _), rfl⟩
  | some w => exact ⟨h.readAt hfound, rfl⟩

/-- The status in a frozen value is the one in the value itself, frozen. -/
theorem statusIn_frozen (h : v.RowsAre list) :
    statusIn v.frozen = frozenAnswer frozen (statusIn v) := by
  cases h with
  | scalar h => cases v <;> first | rfl | cases h
  | @rowOf items _ => cases items <;> rfl
  | _ => rfl

/-- A frozen configuration has the same statuses. -/
theorem statusesIn_frozen (h : v.RowsAre list) :
    statusesIn v.frozen = frozenAnswer frozenEntries (statusesIn v) := by
  cases h with
  | scalar h => cases v <;> first | rfl | cases h
  | @map entries hentries =>
    have hfrozen : frozenEntries = List.map fun e : Value × Value => (e.1, e.2.frozen) :=
      funext frozenEntries_eq
    rw [frozen, statusesIn, statusesIn, hfrozen]
    refine mapM_frozenAnswer fun e he => ?_
    rw [(hentries e he).statusIn_frozen]
    exact bind_frozenAnswer fun status _ => rfl
  | _ => rfl

end RowsAre

end Value

/-! ### What a configuration says -/

namespace Config

open Value (frozenEntries)

variable {c : Config}

section Answers
variable (h : c.given.RowsAre .list)
include h

/-- The value of a rule. -/
theorem value_frozen (scope category rule : Text) :
    c.value (.str scope) (.str category) (.str rule) =
      frozenAnswer Value.frozen (c.given.valueAt [scope, category, rule]) := by
  rw [value, rules, h.lookup_frozen, Value.valueAt_cons_cons]
  refine bind_frozenAnswer fun categories hcategories => ?_
  obtain ⟨hcategories, hfrozen⟩ := h.part_or_empty hcategories
  dsimp only
  rw [hfrozen, hcategories.lookup_frozen, Value.valueAt_cons_cons]
  refine bind_frozenAnswer fun rules hrules => ?_
  obtain ⟨hrules, hfrozen⟩ := hcategories.part_or_empty hrules
  rw [hfrozen, hrules.lookup_frozen, Value.valueAt]
  cases Value.readAt [rule] (rules.getD (.map [])) with
  | error m => rfl
  | ok found => cases found <;> rfl

/-- The status of a rule. -/
theorem status_frozen (scope category rule : Text) :
    c.status (.str scope) (.str category) (.str rule) =
      frozenAnswer Value.frozen (c.given.statusAt [scope, category, rule]) := by
  rw [status, value_frozen h, Value.statusAt]
  refine bind_frozenAnswer fun v hv => ?_
  have hstatus := (h.valueAt hv).statusIn_frozen
  cases h.valueAt hv with
  | scalar hscalar => cases v <;> first | rfl | cases hscalar
  | _ => exact hstatus

/-- The rules of the rule engine. -/
theorem engineRules_frozen :
    c.engineRules = frozenAnswer frozenEntries (c.given.statusesAt ["spectral", "rules"]) := by
  rw [engineRules, rules, h.lookup_frozen, Value.statusesAt_cons_cons]
  refine bind_frozenAnswer fun categories hcategories => ?_
  obtain ⟨hcategories, hfrozen⟩ := h.part_or_empty hcategories
  dsimp only
  rw [hfrozen, hcategories.lookup_frozen, Value.statusesAt]
  refine bind_frozenAnswer fun rules hrules => ?_
  obtain ⟨hrules, hfrozen⟩ := hcategories.part_or_empty hrules
  rw [hfrozen, ← hrules.statusesIn_frozen]
  generalize rules.getD (.map []) = v at hrules
  cases hrules with
  | scalar hscalar => cases v <;> first | rfl | cases hscalar
  | _ => rfl

end Answers

/-- A configuration says what the value says that it was made of, frozen. Where the value cannot be read as
one of a configuration, it fails with the same misuse. -/
structure Mirrors (c : Config) (x : Value) : Prop where
  /-- A copy is the value itself: the entries stand in their order, and every list is a list again. -/
  copy : c.toValue = .ok x
  rows : c.rules.RowsAre .tuple
  value : ∀ scope category rule : Text, c.value (.str scope) (.str category) (.str rule) =
    frozenAnswer Value.frozen (x.valueAt [scope, category, rule])
  status : ∀ scope category rule : Text, c.status (.str scope) (.str category) (.str rule) =
    frozenAnswer Value.frozen (x.statusAt [scope, category, rule])
  engineRules : c.engineRules = frozenAnswer frozenEntries (x.statusesAt ["spectral", "rules"])

/-- **Freezing loses nothing and changes no answer.** A value that is built of mappings, lists and scalars
can be made a configuration. A copy of the configuration is that very value, and each question about its
rules has the answer that the value itself gives. -/
theorem ofValue_mirrors {x : Value} (h : x.RowsAre .list) (source : Option Path) :
    ∃ c, ofValue x source = .ok c ∧ c.source = source ∧ Mirrors c x := by
  refine ⟨⟨x, source⟩, ofValue_of_rowsAre h source, rfl, ?_⟩
  exact
    { copy := toValue_of_rowsAre h
      rows := h.frozen
      value := value_frozen h
      status := status_frozen h
      engineRules := engineRules_frozen h }

/-- Rules with lists inside each other, one without a status, and a list in the place of a scope. -/
def listedRules : Value :=
  .record [("spectral", .record [("rules", .record
      [("typed-enum", .list [.str "warning", .list [.record [("of", .list [])]]]),
        ("openapi-tags", .list [])])]),
    ("oas3", .list [.str "off"])]

/-- Every row of the sample is a list, which is what freezing can be undone for. -/
theorem rowsAre_listedRules : listedRules.RowsAre .list := by
  have hstatus : ∀ s : Text, (Value.str s).RowsAre .list := fun _ => .scalar rfl
  have hempty : (Value.list []).RowsAre .list := .rowOf (List.forall_mem_nil _)
  have hof : (Value.record [("of", .list [])]).RowsAre .list :=
    .record (List.forall_mem_singleton.mpr hempty)
  have henum : (Value.list [.str "warning", .list [.record [("of", .list [])]]]).RowsAre .list :=
    .rowOf (List.forall_mem_cons.mpr ⟨hstatus _, List.forall_mem_singleton.mpr
      (.rowOf (List.forall_mem_singleton.mpr hof))⟩)
  have hrules : (Value.record
      [("typed-enum", .list [.str "warning", .list [.record [("of", .list [])]]]),
        ("openapi-tags", .list [])]).RowsAre .list :=
    .record (List.forall_mem_cons.mpr ⟨henum, List.forall_mem_singleton.mpr hempty⟩)
  exact .record (List.forall_mem_cons.mpr ⟨.record (List.forall_mem_singleton.mpr hrules),
    List.forall_mem_singleton.mpr (.rowOf (List.forall_mem_singleton.mpr (hstatus _)))⟩)

theorem ofValue_mirrors_sample : listedRules.RowsAre .list ∧
    ∃ c, ofValue listedRules = .ok c ∧ c.toValue = .ok listedRules ∧
      c.status (.str "spectral") (.str "rules") (.str "typed-enum") = .ok (.str "warning") ∧
      c.status (.str "spectral") (.str "rules") (.str "openapi-tags") = .error .noItem ∧
      c.value (.str "oas3") (.str "schemas") (.str "snake_case_only") =
        .error (.notMapping "tuple" "get") := by
  obtain ⟨c, hc, -, hmirrors⟩ := ofValue_mirrors rowsAre_listedRules none
  refine ⟨rowsAre_listedRules, c, hc, hmirrors.copy, ?_, ?_, ?_⟩
  · rw [hmirrors.status]
    rfl
  · rw [hmirrors.status]
    rfl
  · rw [hmirrors.value]
    rfl

end Config

end ApiLint
