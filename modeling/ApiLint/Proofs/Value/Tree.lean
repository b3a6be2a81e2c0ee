import ApiLint.Proofs.Value.Keys
import Mathlib.Data.List.Nodup

/-! Values that are trees: no part contains itself, and a mapping has each key once. -/
namespace ApiLint

namespace Value

def isScalar : Value → Bool
  | list _ | tuple _ | set _ | map _ | loop _ _ | again _ => false
  | _ => true

/-- A tree of mappings, lists and scalars. -/
inductive IsTree : Value → Prop
  | scalar {v : Value} (h : v.isScalar = true) : IsTree v
  | list {items : List Value} (h : ∀ v ∈ items, IsTree v) : IsTree (.list items)
  | map {entries : Entries} (hkeys : (entries.map (·.1)).Nodup) (h : ∀ e ∈ entries, IsTree e.2) :
      IsTree (.map entries)

namespace IsTree

theorem opened {v : Value} (h : v.IsTree) : v.opened = v := by
  cases h with
  | scalar h => cases v <;> first | rfl | cases h
  | list _ => rfl
  | map _ _ => rfl

theorem keys {entries : Entries} (h : (Value.map entries).IsTree) :
    (entries.map (·.1)).Nodup := by
  cases h with
  | scalar h => cases h
  | map hkeys _ => exact hkeys

theorem keysApart {entries : Entries} (h : (Value.map entries).IsTree) :
    (entries.map (·.1)).Pairwise Apart :=
  List.Pairwise.imp apart_of_ne h.keys

theorem entry {entries : Entries} (h : (Value.map entries).IsTree) {key v : Value}
    (hv : (key, v) ∈ entries) : v.IsTree := by
  cases h with
  | scalar h => cases h
  | map _ h => exact h _ hv

theorem texts (ts : List Text) : (Value.texts ts).IsTree := by
  refine .list fun v hv => ?_
  obtain ⟨t, -, rfl⟩ := List.mem_map.mp hv
  exact .scalar rfl

theorem record {fields : List (Text × Value)} (hnames : (fields.map (·.1)).Nodup)
    (h : ∀ field ∈ fields, field.2.IsTree) : (Value.record fields).IsTree := by
  refine .map ?_ fun e he => ?_
  · have hkeys : (fields.map fun field => (str field.1, field.2)).map (·.1) =
        (fields.map (·.1)).map str := by
      simp only [List.map_map, Function.comp_def]
    rw [hkeys]
    exact hnames.map fun _ _ heq => str.inj heq
  · obtain ⟨field, hfield, rfl⟩ := List.mem_map.mp he
    exact h field hfield

/-- A mapping with one textual key. -/
theorem single {name : Text} {v : Value} (h : v.IsTree) : (Value.record [(name, v)]).IsTree :=
  record (List.nodup_singleton _) fun _ hfield => List.mem_singleton.mp hfield ▸ h

end IsTree

/-- A mapping has a value under a key. -/
def Holds (v key part : Value) : Prop :=
  ∃ entries, v = .map entries ∧ (key, part) ∈ entries

/-- The keys of a place lead through mappings to a part. -/
def Leads : Value → List Value → Value → Prop
  | v, [], part => v = part
  | v, key :: place, part => ∃ w, v.Holds key w ∧ w.Leads place part

theorem Holds.isTree {v key part : Value} (h : v.Holds key part) (hv : v.IsTree) : part.IsTree := by
  obtain ⟨entries, rfl, hpart⟩ := h
  exact hv.entry hpart

@[simp] theorem holds_map {entries : Entries} {key part : Value} :
    (Value.map entries).Holds key part ↔ (key, part) ∈ entries := by
  simp only [Holds, Value.map.injEq, exists_eq_left']

end Value

end ApiLint
