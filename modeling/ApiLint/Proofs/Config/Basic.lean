import ApiLint.Proofs.Config.Grammar
import ApiLint.Proofs.Except
import ApiLint.Proofs.Value.Layered

/-! What is read from a configuration whose values have three layers: the value of a rule is the one at
its place, frozen, or null (`value_eq`), and the rules of the rule engine are the entries of theirs, if
all of them are texts (`engineRules_eq`). What stands at a place of a configuration that conforms is
what the declared scope, category and kind ask for. -/
namespace ApiLint

namespace Value

variable {P : List Value → Prop} {n : Nat} {v w : Value} {key : Value}

theorem isKey_str (t : Text) : (str t).isKey = true := rfl

/-- What is under a key, or an empty mapping. -/
def partAt (v key : Value) : Value :=
  (v.under? [key]).getD (.map [])

theorem under?_cons_cons (key key' : Value) (place : List Value) (v : Value) :
    v.under? (key :: key' :: place) = (v.partAt key).under? (key' :: place) := by
  rw [← List.singleton_append, under?_append, partAt]
  cases v.under? [key] <;> rfl

theorem entriesAt_eq {key' : Value} {entries : Entries}
    (h : (v.partAt key).partAt key' = .map entries) : v.entriesAt [key, key'] = entries := by
  rw [entriesAt, under?_cons_cons]
  rw [partAt] at h
  cases hw : (v.partAt key).under? [key'] with
  | none =>
    rw [hw] at h
    exact map.inj h
  | some w =>
    rw [hw] at h
    obtain rfl : w = map entries := h
    rfl

theorem find?_of_under? {entries : Entries} (h : (Value.map entries).under? [key] = some w) :
    Entries.find? key entries = some w := by
  obtain ⟨_, hfind, hsome⟩ := Option.bind_eq_some_iff.mp h
  obtain rfl := Option.some.inj hsome
  exact hfind

theorem Layered.under? (h : v.Layered P (n + 1)) (hw : v.under? [key] = some w) :
    w.Layered P n := by
  obtain ⟨entries, rfl, -, hentries⟩ := h
  obtain ⟨_, hmem, -⟩ := Entries.exists_of_find? (find?_of_under? hw)
  exact hentries _ hmem

theorem Layered.partAt (hP : P []) (h : v.Layered P (n + 2)) (key : Value) :
    (v.partAt key).Layered P (n + 1) := by
  rw [Value.partAt]
  cases hw : v.under? [key] with
  | none => exact ⟨[], rfl, hP, List.forall_mem_nil _⟩
  | some w => exact h.under? hw

/-- What is under a key of a frozen value is what was under it, frozen. -/
theorem Layered.lookup_frozen (h : v.Layered P (n + 1)) {key : Value} (hkey : key.isKey = true) :
    v.frozen.lookup key = .ok ((v.under? [key]).map frozen) := by
  obtain ⟨entries, rfl, -, -⟩ := h
  have hunder : (Value.map entries).under? [key] = Entries.find? key entries := by
    rw [under?_cons]
    cases Entries.find? key entries <;> rfl
  rw [frozen, frozenEntries_eq, hunder, ← Entries.find?_map_snd]
  exact if_pos hkey

theorem frozen_partAt (v key : Value) :
    ((v.under? [key]).map frozen).getD (.map []) = (v.partAt key).frozen := by
  rw [partAt]
  cases v.under? [key] <;> rfl

end Value

namespace Config

open Value (under? partAt)

variable {P : List Value → Prop} {c : Config}

/-- What is built of its parts can be frozen. -/
theorem ofValue_of_rowsAre {v : Value} (h : v.RowsAre .list) (source : Option Path) :
    ofValue v source = .ok ⟨v, source⟩ := by
  rw [ofValue, h.isEndless fun _ => Value.isEndless_list, if_neg Bool.false_ne_true]

/-- A copy of a configuration is what was given. -/
theorem toValue_of_rowsAre (h : c.given.RowsAre .list) : c.toValue = .ok c.given := by
  rw [toValue, rules, h.frozen.isEndless fun _ => Value.isEndless_tuple,
    if_neg Bool.false_ne_true, h.thawed_frozen]

/-- The value of a rule is the one at its place, frozen. -/
theorem value_eq (hP : P []) (h : c.given.Layered P 3) (scope category rule : Text) :
    c.value (.str scope) (.str category) (.str rule) =
      .ok (((c.given.under? [.str scope, .str category, .str rule]).map Value.frozen).getD .null) := by
  have hscope := h.partAt hP (.str scope)
  have hcategories := h.lookup_frozen (Value.isKey_str scope)
  have hrules := hscope.lookup_frozen (Value.isKey_str category)
  have hrule := (hscope.partAt hP (.str category)).lookup_frozen (Value.isKey_str rule)
  simp only [value, rules, hcategories, Value.frozen_partAt, hrules, hrule, bind, Except.bind, pure,
    Except.pure, Value.under?_cons_cons]

/-- A configured rule has the status in its value. -/
theorem status_of_value {scope category rule v : Value}
    (hvalue : c.value scope category rule = .ok v) (hnull : v ≠ .null) :
    c.status scope category rule = statusIn v := by
  rw [status, hvalue]
  cases v with
  | null => exact absurd rfl hnull
  | _ => rfl

/-- The rules of the rule engine are the entries of theirs, if their values are texts. -/
theorem engineRules_eq (hP : P []) (h : c.given.Layered P 3)
    (hstatus : ∀ e ∈ c.given.entriesAt [.str "spectral", .str "rules"], ∃ s, e.2 = .str s) :
    c.engineRules = .ok (c.given.entriesAt [.str "spectral", .str "rules"]) := by
  have hscope := h.partAt hP (.str "spectral")
  have hcategories := h.lookup_frozen (Value.isKey_str "spectral")
  have hrules := hscope.lookup_frozen (Value.isKey_str "rules")
  obtain ⟨entries, hentries, -, -⟩ := hscope.partAt hP (.str "rules")
  rw [Value.entriesAt_eq hentries] at hstatus ⊢
  have hfrozen : (Value.map entries).frozen = .map entries := by
    rw [Value.frozen, Value.frozenEntries_eq, Value.map.injEq]
    refine (List.map_congr_left fun e he => ?_).trans (List.map_id' entries)
    obtain ⟨s, hs⟩ := hstatus e he
    exact Prod.ext rfl (by rw [hs]; rfl)
  simp only [engineRules, rules, hcategories, Value.frozen_partAt, hrules, bind, Except.bind,
    hentries, hfrozen]
  refine Except.mapM_eq_ok.mpr (List.forall₂_same.mpr fun e he => ?_)
  obtain ⟨key, w⟩ := e
  obtain ⟨s, rfl⟩ := hstatus _ he
  rfl

/-! ### Places of what conforms -/

section Conforms

variable {v w : Value} {scope category : Text} {categories : List (Text × List Rule)}
  {rules : List Rule} {rule : Value}

theorem Conforms.under? (h : Conforms v) (hw : v.under? [.str scope] = some w) :
    ∃ categories, (scope, categories) ∈ Rule.catalogue ∧ ScopeConforms scope categories w := by
  obtain ⟨entries, rfl, hentries⟩ := h
  obtain ⟨_, hmem, hsame⟩ := Entries.exists_of_find? (Value.find?_of_under? hw)
  obtain ⟨scope', categories, hscope, hkey, hconforms⟩ := hentries _ hmem
  obtain rfl := Value.str.inj (hkey.symm.trans (Value.same_str.mp hsame))
  exact ⟨categories, hscope, hconforms⟩

theorem ScopeConforms.under? (h : ScopeConforms scope categories v)
    (hw : v.under? [.str category] = some w) :
    ∃ rules, (category, rules) ∈ categories ∧ CategoryConforms scope rules w := by
  obtain ⟨entries, rfl, hentries⟩ := h
  obtain ⟨_, hmem, hsame⟩ := Entries.exists_of_find? (Value.find?_of_under? hw)
  obtain ⟨category', rules, hcategory, hkey, hconforms⟩ := hentries _ hmem
  obtain rfl := Value.str.inj (hkey.symm.trans (Value.same_str.mp hsame))
  exact ⟨rules, hcategory, hconforms⟩

theorem CategoryConforms.under? (h : CategoryConforms scope rules v)
    (hw : v.under? [rule] = some w) : ∃ kind : RuleKind, kind.Allows w := by
  obtain ⟨entries, rfl, hentries⟩ := h
  obtain ⟨_, hmem, -⟩ := Entries.exists_of_find? (Value.find?_of_under? hw)
  obtain ⟨kind, -, hallows⟩ := hentries _ hmem
  exact ⟨kind, hallows⟩

/-- The value at the place of a rule is one that some rule may have. -/
theorem Conforms.allows (h : Conforms v)
    (hw : v.under? [.str scope, .str category, rule] = some w) : ∃ kind : RuleKind, kind.Allows w := by
  rw [← List.singleton_append, Value.under?_append] at hw
  obtain ⟨part, hpart, hw⟩ := Option.bind_eq_some_iff.mp hw
  rw [← List.singleton_append, Value.under?_append] at hw
  obtain ⟨part', hpart', hw⟩ := Option.bind_eq_some_iff.mp hw
  obtain ⟨categories, -, hscope⟩ := h.under? hpart
  obtain ⟨rules, -, hcategory⟩ := hscope.under? hpart'
  exact hcategory.under? hw

/-- All rules of the rule engine have a status, those that are not declared among them. -/
theorem Conforms.engineStatus (h : Conforms v) :
    ∀ e ∈ v.entriesAt [.str "spectral", .str "rules"], ∃ s ∈ statuses, e.2 = .str s := by
  intro e he
  rw [Value.entriesAt] at he
  split at he
  · next entries hw =>
    rw [← List.singleton_append, Value.under?_append] at hw
    obtain ⟨part, hpart, hw⟩ := Option.bind_eq_some_iff.mp hw
    obtain ⟨categories, hcategories, hscope⟩ := h.under? hpart
    obtain ⟨rules, hrules, entries', heq, hentries⟩ := hscope.under? hw
    obtain rfl := Value.map.inj heq
    obtain ⟨kind, hkind, hallows⟩ := hentries e he
    have hstatus : kind = .status := by
      cases hkind with
      | declared hrule _ => exact Rule.kind_of_engineRule hcategories hrules hrule
      | other _ _ => rfl
    subst hstatus
    exact hallows
  · cases he

end Conforms

end Config

end ApiLint
