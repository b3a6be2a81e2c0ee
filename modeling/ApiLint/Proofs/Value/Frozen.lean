import ApiLint.Config.Basic
import ApiLint.Proofs.Value.Keyed

/-! Freezing and thawing. Freezing makes tuples of the lists of a value and changes nothing else
(`RowsAre.frozen`), thawing undoes it (`RowsAre.thawed_frozen`), and neither walk is endless, since a value
that is built of its parts does not contain itself (`RowsAre.isEndless`). -/
namespace ApiLint.Value

/-! ### Rows and entries -/

theorem frozenItems_eq (items : List Value) : frozenItems items = items.map frozen := by
  induction items with
  | nil => rfl
  | cons x items ih => rw [frozenItems, ih, List.map_cons]

theorem thawedItems_eq (items : List Value) : thawedItems items = items.map thawed := by
  induction items with
  | nil => rfl
  | cons x items ih => rw [thawedItems, ih, List.map_cons]

theorem frozenEntries_eq (entries : Entries) :
    frozenEntries entries = entries.map fun e => (e.1, e.2.frozen) := by
  induction entries with
  | nil => rfl
  | cons e entries ih => rw [frozenEntries, ih, List.map_cons]

theorem thawedEntries_eq (entries : Entries) :
    thawedEntries entries = entries.map fun e => (e.1, e.2.thawed) := by
  induction entries with
  | nil => rfl
  | cons e entries ih => rw [thawedEntries, ih, List.map_cons]

theorem isEndless_tuple {reach : Reach} {items : List Value}
    (h : ∀ v ∈ items, v.isEndless reach = false) : (tuple items).isEndless reach = false := by
  rw [isEndless, anyEndless_eq_any, Bool.and_eq_false_iff, List.any_eq_false]
  exact .inr fun v hv => Bool.not_eq_true _ ▸ h v hv

/-! ### Values with rows of one kind -/

/-- A value that is built of mappings, rows of one kind, and scalars and sets, which stay with all that is in
them. `row` makes a row of that kind of its items. The keys of mappings may be any. -/
inductive RowsAre (row : List Value → Value) : Value → Prop
  | scalar {v : Value} (h : v.isScalar = true) : RowsAre row v
  | set {items : List Value} : RowsAre row (.set items)
  | rowOf {items : List Value} (h : ∀ v ∈ items, RowsAre row v) : RowsAre row (row items)
  | map {entries : Entries} (h : ∀ e ∈ entries, RowsAre row e.2) : RowsAre row (.map entries)

namespace RowsAre

variable {row : List Value → Value} {v : Value}

theorem record {fields : List (Text × Value)} (h : ∀ field ∈ fields, field.2.RowsAre row) :
    (Value.record fields).RowsAre row :=
  .map (List.forall_mem_map.mpr h)

theorem isEndless {reach : Reach} (hrow : ∀ items : List Value,
    (∀ v ∈ items, v.isEndless reach = false) → (row items).isEndless reach = false)
    (h : v.RowsAre row) : v.isEndless reach = false := by
  induction h with
  | @scalar v h => cases v <;> first | rfl | cases h
  | set => rfl
  | rowOf _ ih => exact hrow _ ih
  | map _ ih => exact isEndless_map ih

/-- **All lists become tuples.** -/
protected theorem frozen (h : v.RowsAre list) : v.frozen.RowsAre tuple := by
  induction h with
  | @scalar v h => cases v <;> first | exact .scalar rfl | cases h
  | set => exact .set
  | rowOf _ ih =>
    rw [Value.frozen, frozenItems_eq]
    exact .rowOf (List.forall_mem_map.mpr ih)
  | map _ ih =>
    rw [Value.frozen, frozenEntries_eq]
    exact .map (List.forall_mem_map.mpr ih)

/-- **What is frozen and thawed again is the same value**, its entries in their order. -/
theorem thawed_frozen (h : v.RowsAre list) : v.frozen.thawed = v := by
  induction h with
  | @scalar v h => cases v <;> first | rfl | cases h
  | set => rfl
  | @rowOf items _ ih =>
    have hitems : (items.map Value.frozen).map thawed = items := by
      rw [List.map_map]
      exact (List.map_congr_left ih).trans (List.map_id' items)
    rw [Value.frozen, thawed, frozenItems_eq, thawedItems_eq, hitems]
  | @map entries _ ih =>
    have hentries : (entries.map fun e => (e.1, e.2.frozen)).map (fun e => (e.1, e.2.thawed)) =
        entries := by
      rw [List.map_map, List.map_congr_left fun e he => ?_, List.map_id']
      exact Prod.ext rfl (ih e he)
    rw [Value.frozen, thawed, frozenEntries_eq, thawedEntries_eq, hentries]

end RowsAre

end ApiLint.Value
