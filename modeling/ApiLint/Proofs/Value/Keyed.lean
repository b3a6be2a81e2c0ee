import ApiLint.Proofs.Value.Tree

/-! Values that a reader can give: the keys of every mapping differ, and what is called a loop comes
back to itself. Such a value stays one when a loop is written out by a step (`Keyed.opened`), and a
loop that is written out is still endless, so that a value without loops is found to be one by looking at its
opened form (`Keyed.opened_eq_self`). -/
namespace ApiLint

namespace Value

/-! ### Walks over values -/

theorem anyEndless_eq_any (reach : Reach) (items : List Value) :
    anyEndless reach items = items.any (isEndless reach) := by
  induction items with
  | nil => rfl
  | cons x items ih => rw [anyEndless, ih, List.any_cons]

theorem anyEntryEndless_eq_any (reach : Reach) (entries : Entries) :
    anyEntryEndless reach entries = entries.any fun e => e.2.isEndless reach := by
  induction entries with
  | nil => rfl
  | cons e entries ih => rw [anyEntryEndless, ih, List.any_cons]

theorem fillItems_eq (label : Nat) (whole : Value) (items : List Value) :
    fillItems label whole items = items.map (fill label whole) := by
  induction items with
  | nil => rfl
  | cons x items ih => rw [fillItems, ih, List.map_cons]

theorem fillEntries_eq (label : Nat) (whole : Value) (entries : Entries) :
    fillEntries label whole entries = entries.map fun e => (e.1, fill label whole e.2) := by
  induction entries with
  | nil => rfl
  | cons e entries ih => rw [fillEntries, ih, List.map_cons]

theorem any_imp {α : Type} {items : List α} {p q : α → Bool}
    (h : ∀ x ∈ items, p x = true → q x = true) : items.any p = true → items.any q = true := by
  intro hany
  obtain ⟨x, hx, hp⟩ := List.any_eq_true.mp hany
  exact List.any_eq_true.mpr ⟨x, hx, h x hx hp⟩

theorem isEndless_list {reach : Reach} {items : List Value}
    (h : ∀ v ∈ items, v.isEndless reach = false) : (list items).isEndless reach = false := by
  rw [isEndless, anyEndless_eq_any, Bool.and_eq_false_iff, List.any_eq_false]
  exact .inr fun v hv => Bool.not_eq_true _ ▸ h v hv

theorem isEndless_map {reach : Reach} {entries : Entries}
    (h : ∀ e ∈ entries, e.2.isEndless reach = false) : (map entries).isEndless reach = false := by
  rw [isEndless, anyEntryEndless_eq_any, List.any_eq_false]
  exact fun e he => Bool.not_eq_true _ ▸ h e he

theorem isEndless_texts {reach : Reach} (ts : List Text) : (texts ts).isEndless reach = false := by
  refine isEndless_list fun v hv => ?_
  obtain ⟨t, -, rfl⟩ := List.mem_map.mp hv
  rfl

theorem keys_fillEntries (label : Nat) (whole : Value) (entries : Entries) :
    (fillEntries label whole entries).map (·.1) = entries.map (·.1) := by
  rw [fillEntries_eq, List.map_map]
  rfl

/-! ### Keyed values -/

/-- A value in which the keys of every mapping are related in pairs, the earlier one to the later one,
and every loop comes back to itself. -/
inductive Keyed (R : Value → Value → Prop) : Value → Prop
  | scalar {v : Value} (h : v.isScalar = true) : Keyed R v
  | list {items : List Value} (h : ∀ v ∈ items, Keyed R v) : Keyed R (.list items)
  | tuple {items : List Value} (h : ∀ v ∈ items, Keyed R v) : Keyed R (.tuple items)
  /-- The items of a set are keys themselves, and have no mappings in them. -/
  | set {items : List Value} : Keyed R (.set items)
  | map {entries : Entries} (hkeys : (entries.map (·.1)).Pairwise R)
      (h : ∀ e ∈ entries, Keyed R e.2) : Keyed R (.map entries)
  | loop {label : Nat} {body : Value} (h : Keyed R body) (hendless : body.isEndless {} = true) :
      Keyed R (.loop label body)
  | again {label : Nat} : Keyed R (.again label)

/-- A value as the readers give it: no two keys of a mapping are the same. -/
def IsSound (v : Value) : Prop :=
  v.Keyed Differ

namespace Keyed

variable {R R' : Value → Value → Prop} {v w : Value}

theorem imp (hR : ∀ k l, R k l → R' k l) (h : v.Keyed R) : v.Keyed R' := by
  induction h with
  | scalar h => exact .scalar h
  | list _ ih => exact .list ih
  | tuple _ ih => exact .tuple ih
  | set => exact .set
  | map hkeys _ ih => exact .map (List.Pairwise.imp (hR _ _) hkeys) ih
  | loop _ hendless ih => exact .loop ih hendless
  | again => exact .again

theorem keys {entries : Entries} (h : (Value.map entries).Keyed R) :
    (entries.map (·.1)).Pairwise R := by
  cases h with
  | scalar h => cases h
  | map hkeys _ => exact hkeys

theorem entry {entries : Entries} (h : (Value.map entries).Keyed R) {e : Value × Value}
    (he : e ∈ entries) : e.2.Keyed R := by
  cases h with
  | scalar h => cases h
  | map _ h => exact h e he

theorem item {items : List Value} (h : (Value.list items).Keyed R) (hv : v ∈ items) :
    v.Keyed R := by
  cases h with
  | scalar h => cases h
  | list h => exact h v hv

/-- With something endless in place of a label, what is endless stays so. -/
theorem fill {label : Nat} (hw : w.Keyed R) (hendless : w.isEndless {} = true) (hv : v.Keyed R) :
    (fill label w v).Keyed R ∧
      (v.isEndless {} = true → (Value.fill label w v).isEndless {} = true) := by
  induction hv with
  | @scalar v h =>
    have hself : Value.fill label w v = v := by
      cases v <;> first | rfl | cases h
    rw [hself]
    exact ⟨.scalar h, id⟩
  | @list items _ ih =>
    simp only [Value.fill, fillItems_eq, isEndless, Bool.true_and, anyEndless_eq_any, List.any_map]
    exact ⟨.list (List.forall_mem_map.mpr fun x hx => (ih x hx).1),
      any_imp fun x hx => (ih x hx).2⟩
  | @tuple items _ ih =>
    simp only [Value.fill, fillItems_eq, isEndless, Bool.true_and, anyEndless_eq_any, List.any_map]
    exact ⟨.tuple (List.forall_mem_map.mpr fun x hx => (ih x hx).1),
      any_imp fun x hx => (ih x hx).2⟩
  | set => exact ⟨.set, id⟩
  | @map entries hkeys _ ih =>
    have hkeys' : ((fillEntries label w entries).map (·.1)).Pairwise R := by
      rwa [keys_fillEntries]
    rw [fillEntries_eq] at hkeys'
    simp only [Value.fill, fillEntries_eq, isEndless, anyEntryEndless_eq_any, List.any_map]
    exact ⟨.map hkeys' (List.forall_mem_map.mpr fun e he => (ih e he).1),
      any_imp fun e he => (ih e he).2⟩
  | @loop l body h hbody ih =>
    rw [Value.fill]
    split
    · exact ⟨.loop h hbody, id⟩
    · exact ⟨.loop ih.1 (ih.2 hbody), fun _ => ih.2 hbody⟩
  | @again l =>
    rw [Value.fill]
    split
    · exact ⟨hw, fun _ => hendless⟩
    · exact ⟨.again, id⟩

theorem texts (ts : List Text) : (Value.texts ts).Keyed R := by
  refine .list fun v hv => ?_
  obtain ⟨t, -, rfl⟩ := List.mem_map.mp hv
  exact .scalar rfl

theorem opened (h : v.Keyed R) : v.opened.Keyed R := by
  cases h with
  | @scalar v h => cases v <;> first | exact .scalar h | cases h
  | list h => exact .list h
  | tuple h => exact .tuple h
  | set => exact .set
  | map hkeys h => exact .map hkeys h
  | loop h hendless => exact (fill (.loop h hendless) hendless h).1
  | again => exact .again

/-- What has an end is no loop. -/
theorem opened_eq_self (h : v.Keyed R) (hend : v.isEndless {} = false) : v.opened = v := by
  cases h with
  | @scalar v h => cases v <;> first | rfl | cases h
  | loop _ hendless =>
    rw [isEndless, hendless] at hend
    cases hend
  | list _ | tuple _ | set | map _ _ | again => rfl

theorem isEndless_of_opened (h : v.Keyed R) (hend : v.opened.isEndless {} = false) :
    v.isEndless {} = false := by
  cases h with
  | @scalar v h => cases v <;> first | exact hend | cases h
  | @loop label body h hendless =>
    have hopened : (Value.loop label body).opened.isEndless {} = true :=
      (fill (.loop h hendless) hendless h).2 hendless
    rw [hopened] at hend
    cases hend
  | list _ | tuple _ | set | map _ _ | again => exact hend

end Keyed

/-- What has each key once in every mapping has no text twice. -/
theorem IsTree.keyed {v : Value} (h : v.IsTree) : v.Keyed Apart := by
  induction h with
  | scalar h => exact .scalar h
  | list _ ih => exact .list ih
  | map hkeys _ ih => exact .map (List.Pairwise.imp apart_of_ne hkeys) ih

namespace IsSound

variable {v : Value} {entries : Entries}

theorem keyed (h : v.IsSound) : v.Keyed Apart :=
  Keyed.imp (fun _ _ => Differ.apart) h

theorem find? {key : Value} (h : (map entries).IsSound) (hfind : Entries.find? key entries = some v) :
    v.IsSound := by
  obtain ⟨_, hmem, -⟩ := Entries.exists_of_find? hfind
  exact h.entry hmem

theorem get? {w : Value} {name : Text} (h : v.IsSound) (hget : v.get? name = some w) :
    w.IsSound := by
  unfold Value.get? at hget
  split at hget
  · next entries heq =>
    have hopened : (map entries).IsSound := heq ▸ h.opened
    exact hopened.find? hget
  · cases hget

theorem empty : (map []).IsSound :=
  .map List.Pairwise.nil (List.forall_mem_nil _)

theorem labelled {label : Nat} (h : v.IsSound) : (labelled label v).IsSound := by
  unfold Value.labelled
  split
  · next hendless => exact .loop h hendless
  · exact h

theorem put {key : Value} (h : (map entries).IsSound) (hv : v.IsSound) :
    (map (entries.put key v)).IsSound := by
  refine .map (Entries.differ_put h.keys) fun e he => ?_
  rcases Entries.mem_put he with hmem | ⟨-, heq⟩
  · exact h.entry hmem
  · rw [heq]
    exact hv

theorem ofPairs {pairs : List (Value × Value)} (h : ∀ pair ∈ pairs, pair.2.IsSound) :
    (map (Entries.ofPairs pairs)).IsSound :=
  Entries.ofPairs_induction (P := fun entries => (map entries).IsSound) empty
    fun _ hentries pair hpair => hentries.put (h pair hpair)

end IsSound

end Value

end ApiLint
