import ApiLint.Document.Reference
import ApiLint.Proofs.Except
import ApiLint.Proofs.Value.Tree
import Mathlib.Algebra.GroupWithZero.Nat
import Mathlib.Logic.Relation

/-! Where the references of a document lead. A reference leads to those that stand in what it names.
No more different references can be followed than the document has mappings (`length_held_le`), and the
order of the entries of a mapping plays no part (`Mirrors.of_swaps`). -/
namespace ApiLint

namespace Value

/-- A value no part of which contains itself. -/
inductive IsFinite : Value → Prop
  | scalar {v : Value} (h : v.isScalar = true) : IsFinite v
  | list {items : List Value} (h : ∀ v ∈ items, IsFinite v) : IsFinite (.list items)
  | tuple {items : List Value} (h : ∀ v ∈ items, IsFinite v) : IsFinite (.tuple items)
  | set {items : List Value} (h : ∀ v ∈ items, IsFinite v) : IsFinite (.set items)
  | map {entries : Entries} (h : ∀ e ∈ entries, IsFinite e.2) : IsFinite (.map entries)

namespace IsFinite

variable {v : Value}

theorem opened (h : v.IsFinite) : v.opened = v := by
  cases h with
  | scalar h => cases v <;> first | rfl | cases h
  | _ => rfl

theorem item {items : List Value} (h : (Value.list items).IsFinite) (hv : v ∈ items) :
    v.IsFinite := by
  cases h with
  | scalar h => cases h
  | list h => exact h v hv

theorem entry {entries : Entries} (h : (Value.map entries).IsFinite) {e : Value × Value}
    (he : e ∈ entries) : e.2.IsFinite := by
  cases h with
  | scalar h => cases h
  | map h => exact h e he

end IsFinite

theorem IsTree.isFinite {v : Value} (h : v.IsTree) : v.IsFinite := by
  induction h with
  | scalar h => exact .scalar h
  | list _ ih => exact .list ih
  | map _ _ ih => exact .map ih

end Value

namespace Reference

variable {document v part : Value} {r s token : Text}

/-! ### The references of a value -/

theorem refsOfItems_eq (items : List Value) : refsOfItems items = items.flatMap refs := by
  induction items with
  | nil => rfl
  | cons x items ih => rw [refsOfItems, ih, List.flatMap_cons]

/-- The entries of a mapping that a walk looks into. -/
def searched (entries : Entries) : Entries :=
  entries.filter fun e => !e.1.same keyword

/-- The references of a mapping are those in the values that a walk searches. -/
theorem refsOfEntries_eq (entries : Entries) :
    refsOfEntries entries = (searched entries).flatMap fun e => refs e.2 := by
  induction entries with
  | nil => rfl
  | cons e entries ih =>
    obtain ⟨k, v⟩ := e
    rw [refsOfEntries, searched, List.filter_cons]
    cases k.same keyword with
    | true => exact ih
    | false =>
      simp only [Bool.false_eq_true, if_false, Bool.not_false, if_true, List.flatMap_cons]
      rw [ih, searched]

mutual

/-- The local references in a value, those under the keyword included. -/
def held : Value → List Text
  | .map entries => (local? entries).toList ++ heldInEntries entries
  | .list items => heldInItems items
  | _ => []
termination_by structural v => v

def heldInItems : List Value → List Text
  | [] => []
  | x :: xs => held x ++ heldInItems xs

def heldInEntries : List (Value × Value) → List Text
  | [] => []
  | (_, v) :: es => held v ++ heldInEntries es

end

theorem heldInItems_eq (items : List Value) : heldInItems items = items.flatMap held := by
  induction items with
  | nil => rfl
  | cons x items ih => rw [heldInItems, ih, List.flatMap_cons]

theorem heldInEntries_eq (entries : Entries) :
    heldInEntries entries = entries.flatMap fun e => held e.2 := by
  induction entries with
  | nil => rfl
  | cons e entries ih => rw [heldInEntries, ih, List.flatMap_cons]

theorem mappingsInItems_eq (items : List Value) :
    mappingsInItems items = (items.map mappings).sum := by
  induction items with
  | nil => rfl
  | cons x items ih => rw [mappingsInItems, ih, List.map_cons, List.sum_cons]

theorem mappingsInEntries_eq (entries : Entries) :
    mappingsInEntries entries = (entries.map fun e => mappings e.2).sum := by
  induction entries with
  | nil => rfl
  | cons e entries ih => rw [mappingsInEntries, ih, List.map_cons, List.sum_cons]

theorem held_list (items : List Value) : held (.list items) = items.flatMap held := by
  rw [held, heldInItems_eq]

theorem held_map (entries : Entries) :
    held (.map entries) = (local? entries).toList ++ entries.flatMap fun e => held e.2 := by
  rw [held, heldInEntries_eq]

theorem refs_list (items : List Value) : refs (.list items) = items.flatMap refs := by
  rw [refs, refsOfItems_eq]

theorem refs_map (entries : Entries) :
    refs (.map entries) =
      (local? entries).toList ++ (searched entries).flatMap fun e => refs e.2 := by
  rw [refs, refsOfEntries_eq]

theorem length_flatMap_le {α : Type} {f : α → List Text} {g : α → Nat} {xs : List α}
    (h : ∀ x ∈ xs, (f x).length ≤ g x) : (xs.flatMap f).length ≤ (xs.map g).sum := by
  induction xs with
  | nil => exact Nat.le_refl 0
  | cons x xs ih =>
    obtain ⟨hx, hxs⟩ := List.forall_mem_cons.mp h
    rw [List.flatMap_cons, List.length_append, List.map_cons, List.sum_cons]
    exact Nat.add_le_add hx (ih hxs)

/-- Each mapping holds one reference at most. -/
theorem length_held_le (hv : v.IsFinite) : (held v).length ≤ mappings v := by
  induction hv with
  | @scalar v h => cases v <;> first | exact Nat.zero_le _ | cases h
  | @list items _ ih =>
    rw [held_list, mappings, mappingsInItems_eq]
    exact length_flatMap_le ih
  | tuple | set => exact Nat.zero_le _
  | @map entries _ ih =>
    have hlocal : (local? entries).toList.length ≤ 1 := by
      cases local? entries <;> simp
    have hentries := length_flatMap_le ih
    rw [held_map, mappings, mappingsInEntries_eq, List.length_append]
    omega

/-- What a walk finds in a value, the value holds. -/
theorem mem_held_of_mem_refs (hv : v.IsFinite) (hr : r ∈ refs v) : r ∈ held v := by
  induction hv with
  | @scalar v h => cases v <;> first | cases hr | cases h
  | @list items _ ih =>
    rw [refs_list] at hr
    rw [held_list]
    obtain ⟨x, hx, hr⟩ := List.mem_flatMap.mp hr
    exact List.mem_flatMap.mpr ⟨x, hx, ih x hx hr⟩
  | tuple | set => cases hr
  | @map entries _ ih =>
    rw [refs_map] at hr
    rw [held_map]
    refine List.mem_append.mpr ((List.mem_append.mp hr).imp_right fun hr => ?_)
    obtain ⟨e, he, hr⟩ := List.mem_flatMap.mp hr
    have hmem := (List.mem_filter.mp he).1
    exact List.mem_flatMap.mpr ⟨e, hmem, ih e hmem hr⟩

/-! ### Following -/

/-- The part that a step leads to is finite, and its references are held by the whole. -/
theorem held_step (hv : v.IsFinite) (h : step v token = .ok (some part)) :
    part.IsFinite ∧ ∀ s ∈ held part, s ∈ held v := by
  rw [step, hv.opened] at h
  split at h
  · next entries =>
    obtain ⟨k, hmem, -⟩ := Entries.exists_of_find? (Except.ok.inj h)
    refine ⟨hv.entry hmem, ?_⟩
    rw [held_map]
    exact fun r hr => List.mem_append_right _ (List.mem_flatMap.mpr ⟨_, hmem, hr⟩)
  · next items =>
    split at h
    · obtain ⟨n, -, hn⟩ := Except.map_eq_ok.mp h
      have hmem := List.mem_of_getElem? hn
      refine ⟨hv.item hmem, ?_⟩
      rw [held_list]
      exact fun r hr => List.mem_flatMap.mpr ⟨_, hmem, hr⟩
    · cases h
  · cases h

/-- What a reference leads to is finite and holds no reference that the value did not hold. -/
theorem held_follow {tokens : List Text} (hv : v.IsFinite) (h : follow v tokens = .ok (some part)) :
    part.IsFinite ∧ ∀ s ∈ held part, s ∈ held v := by
  induction tokens generalizing v with
  | nil =>
    cases h
    exact ⟨hv, fun _ => id⟩
  | cons token tokens ih =>
    rw [follow] at h
    split at h
    · cases h
    · cases h
    · next hstep =>
      obtain ⟨hnext, hsub⟩ := held_step hv hstep
      obtain ⟨hpart, hsub'⟩ := ih hnext h
      exact ⟨hpart, fun s hs => hsub s (hsub' s hs)⟩

/-- What a reference names is finite, and its references are held by the document. -/
theorem held_resolve (hdocument : document.IsFinite) (h : resolve document r = .ok (some part)) :
    part.IsFinite ∧ ∀ s ∈ held part, s ∈ held document :=
  held_follow hdocument h

/-- A reference leads to another one if that stands in what the first one names. -/
def Leads (document : Value) (r s : Text) : Prop :=
  ∃ target, resolve document r = .ok (some target) ∧ s ∈ refs target

/-- A reference that stands in a document, or is led to from one that does. -/
def Reaches (document : Value) (s : Text) : Prop :=
  ∃ r ∈ refs document, Relation.ReflTransGen (Leads document) r s

/-! ### The order of entries -/

/-- One mapping inside a value has two neighbouring entries, with different keys, in the other order. -/
inductive Swaps : Value → Value → Prop
  | entries {before after : Entries} {a b : Value × Value} (h : a.1 ≠ b.1) :
      Swaps (.map (before ++ a :: b :: after)) (.map (before ++ b :: a :: after))
  | item {before after : List Value} {v w : Value} (h : Swaps v w) :
      Swaps (.list (before ++ v :: after)) (.list (before ++ w :: after))
  | entry {before after : Entries} {k v w : Value} (h : Swaps v w) :
      Swaps (.map (before ++ (k, v) :: after)) (.map (before ++ (k, w) :: after))

/-- What is found under a text does not depend on the order of two entries. -/
theorem find?_swap {before after : Entries} {a b : Value × Value} (h : a.1 ≠ b.1) (t : Text) :
    Entries.find? (.str t) (before ++ a :: b :: after) =
      Entries.find? (.str t) (before ++ b :: a :: after) := by
  rw [Entries.find?_append, Entries.find?_append]
  congr 1
  obtain ⟨k, v⟩ := a
  obtain ⟨l, w⟩ := b
  simp only [Entries.find?, Value.same_str]
  by_cases hk : k = .str t
  · have hl : l ≠ .str t := fun hl => h (hk.trans hl.symm)
    rw [if_pos hk, if_neg hl, if_pos hk]
  · rw [if_neg hk, if_neg hk]

/-- A value that has been put in place of another one is found where that was found. -/
theorem find?_replaced (before after : Entries) (k v w : Value) (t : Text) :
    Entries.find? (.str t) (before ++ (k, v) :: after) =
        Entries.find? (.str t) (before ++ (k, w) :: after) ∨
      Entries.find? (.str t) (before ++ (k, v) :: after) = some v ∧
        Entries.find? (.str t) (before ++ (k, w) :: after) = some w := by
  rw [Entries.find?_append, Entries.find?_append]
  cases Entries.find? (.str t) before with
  | some u => exact .inl rfl
  | none =>
    simp only [Entries.find?, Option.none_or]
    split
    · exact .inr ⟨rfl, rfl⟩
    · exact .inl rfl

theorem getElem?_replaced (before after : List Value) (v w : Value) (n : Nat) :
    (before ++ v :: after)[n]? = (before ++ w :: after)[n]? ∨
      (before ++ v :: after)[n]? = some v ∧ (before ++ w :: after)[n]? = some w := by
  obtain hlt | rfl | hgt := Nat.lt_trichotomy n before.length
  · rw [List.getElem?_append_left hlt, List.getElem?_append_left hlt]
    exact .inl rfl
  · exact .inr ⟨by simp, by simp⟩
  · obtain ⟨k, hk⟩ : ∃ k, n - before.length = k + 1 := ⟨n - before.length - 1, by omega⟩
    rw [List.getElem?_append_right (Nat.le_of_lt hgt),
      List.getElem?_append_right (Nat.le_of_lt hgt), hk]
    exact .inl rfl

theorem Swaps.ne_str {v w : Value} (h : Swaps v w) : (∀ t, v ≠ .str t) ∧ ∀ t, w ≠ .str t := by
  cases h <;> exact ⟨nofun, nofun⟩

theorem local?_eq_of_ne_str {entries : Entries} {v : Value}
    (h : Entries.find? keyword entries = some v) (hv : ∀ t, v ≠ .str t) : local? entries = none := by
  rw [local?, h]
  cases v <;> first | rfl | exact absurd rfl (hv _)

theorem local?_of_swaps {entries entries' : Entries} (h : Swaps (.map entries) (.map entries')) :
    local? entries = local? entries' := by
  cases h with
  | entries hne => rw [local?, local?, keyword, find?_swap hne]
  | @entry before after k v w hvw =>
    obtain hsame | ⟨hv, hw⟩ := find?_replaced before after k v w "$ref"
    · rw [local?, local?, keyword, hsame]
    · rw [local?_eq_of_ne_str hv hvw.ne_str.1, local?_eq_of_ne_str hw hvw.ne_str.2]

/-- The order of entries does not matter to which references are there. -/
theorem mem_refs_of_swaps {v w : Value} (h : Swaps v w) : r ∈ refs v ↔ r ∈ refs w := by
  induction h with
  | @entries before after a b hne =>
    have hperm : (searched (before ++ a :: b :: after)).Perm (searched (before ++ b :: a :: after)) :=
      ((List.Perm.swap b a after).append_left before).filter _
    rw [refs_map, refs_map, local?_of_swaps (.entries hne), List.mem_append, List.mem_append,
      (hperm.flatMap_right _).mem_iff]
  | item _ ih =>
    simp only [refs_list, List.flatMap_append, List.flatMap_cons, List.mem_append, ih]
  | @entry before after k v w h ih =>
    rw [refs_map, refs_map, local?_of_swaps (.entry h)]
    simp only [searched, List.filter_append, List.filter_cons, List.flatMap_append, List.mem_append]
    cases k.same keyword <;> simp [ih]

/-- Two answers of the same kind: both fail, both find nothing, or the two things that they find are the
same but for a swap. -/
inductive Alike : Except Failure (Option Value) → Except Failure (Option Value) → Prop
  | error (e : Failure) : Alike (.error e) (.error e)
  | none : Alike (.ok none) (.ok none)
  | same (v : Value) : Alike (.ok (some v)) (.ok (some v))
  | swapped {v w : Value} (h : Swaps v w) : Alike (.ok (some v)) (.ok (some w))

theorem Alike.refl (x : Except Failure (Option Value)) : Alike x x := by
  cases x with
  | error e => exact .error e
  | ok found =>
    cases found with
    | none => exact .none
    | some v => exact .same v

/-- A step leads to the same part, to parts that differ in the order of entries, nowhere, or fails
alike. -/
theorem step_of_swaps {v w : Value} (h : Swaps v w) (token : Text) :
    Alike (step v token) (step w token) := by
  cases h with
  | entries hne =>
    show Alike (.ok (Entries.find? _ _)) (.ok (Entries.find? _ _))
    rw [find?_swap hne]
    exact .refl _
  | @item before after v w h =>
    show Alike (if isIndex token then (index token).map _ else .ok none)
      (if isIndex token then (index token).map _ else .ok none)
    split
    · cases index token with
      | error e => exact .error e
      | ok n =>
        show Alike (.ok (before ++ v :: after)[n]?) (.ok (before ++ w :: after)[n]?)
        obtain hsame | ⟨hv, hw⟩ := getElem?_replaced before after v w n
        · rw [hsame]
          exact .refl _
        · rw [hv, hw]
          exact .swapped h
    · exact .none
  | @entry before after k v w h =>
    show Alike (.ok (Entries.find? _ _)) (.ok (Entries.find? _ _))
    obtain hsame | ⟨hv, hw⟩ := find?_replaced before after k v w token
    · rw [hsame]
      exact .refl _
    · rw [hv, hw]
      exact .swapped h

/-- So does a whole row of steps. -/
theorem follow_of_swaps {v w : Value} (h : Swaps v w) (tokens : List Text) :
    Alike (follow v tokens) (follow w tokens) := by
  induction tokens generalizing v w with
  | nil => exact .swapped h
  | cons token tokens ih =>
    have hstep := step_of_swaps h token
    rw [follow, follow]
    generalize step v token = x at hstep
    generalize step w token = y at hstep
    cases hstep with
    | error e => exact .error e
    | none => exact .none
    | same part => exact .refl _
    | swapped h => exact ih h

/-- What a reference names in a document, and in one with two entries swapped. -/
theorem resolve_of_swaps {document' : Value} (h : Swaps document document') (r : Text) :
    Alike (resolve document r) (resolve document' r) :=
  follow_of_swaps h _

/-- Swapping entries keeps a value finite. -/
theorem Swaps.isFinite {v w : Value} (h : Swaps v w) (hv : v.IsFinite) : w.IsFinite := by
  induction h with
  | @entries before after a b hne =>
    have hperm : (before ++ b :: a :: after).Perm (before ++ a :: b :: after) :=
      (List.Perm.swap a b after).append_left before
    exact .map fun e he => hv.entry (hperm.mem_iff.mp he)
  | @item before after v w h ih =>
    refine .list fun x hx => ?_
    rcases List.mem_append.mp hx with hx | hx
    · exact hv.item (List.mem_append_left _ hx)
    · rcases List.mem_cons.mp hx with rfl | hx
      · exact ih (hv.item (List.mem_append_right _ List.mem_cons_self))
      · exact hv.item (List.mem_append_right _ (List.mem_cons_of_mem _ hx))
  | @entry before after k v w h ih =>
    refine .map fun e he => ?_
    rcases List.mem_append.mp he with he | he
    · exact hv.entry (List.mem_append_left _ he)
    · rcases List.mem_cons.mp he with rfl | he
      · exact ih (hv.entry (e := (k, v)) (List.mem_append_right _ List.mem_cons_self))
      · exact hv.entry (List.mem_append_right _ (List.mem_cons_of_mem _ he))

/-- A document whose references stand and lead as those of another one. -/
structure Mirrors (document document' : Value) : Prop where
  isFinite : document.IsFinite → document'.IsFinite
  refs : ∀ r, r ∈ refs document' ↔ r ∈ refs document
  leads : ∀ r s, Leads document' r s ↔ Leads document r s
  resolves : ∀ r, (∃ found, resolve document' r = .ok found) ↔ ∃ found, resolve document r = .ok found

namespace Mirrors

variable {document' document'' : Value}

theorem refl (document : Value) : Mirrors document document :=
  ⟨id, fun _ => Iff.rfl, fun _ _ => Iff.rfl, fun _ => Iff.rfl⟩

theorem trans (h : Mirrors document document') (h' : Mirrors document' document'') :
    Mirrors document document'' where
  isFinite hfinite := h'.isFinite (h.isFinite hfinite)
  refs r := (h'.refs r).trans (h.refs r)
  leads r s := (h'.leads r s).trans (h.leads r s)
  resolves r := (h'.resolves r).trans (h.resolves r)

/-- The order of entries plays no part. -/
theorem of_swaps (h : Swaps document document') : Mirrors document document' where
  isFinite := h.isFinite
  refs r := (mem_refs_of_swaps h).symm
  leads r s := by
    have hresolve := resolve_of_swaps h r
    unfold Leads
    generalize resolve document r = x at hresolve
    generalize resolve document' r = y at hresolve
    cases hresolve with
    | error | none | same => exact Iff.rfl
    | swapped h =>
      simp only [Except.ok.injEq, Option.some.injEq, exists_eq_left']
      exact (mem_refs_of_swaps h).symm
  resolves r := by
    have hresolve := resolve_of_swaps h r
    generalize resolve document r = x at hresolve
    generalize resolve document' r = y at hresolve
    cases hresolve with
    | error | none | same => exact Iff.rfl
    | swapped => exact ⟨fun _ => ⟨_, rfl⟩, fun _ => ⟨_, rfl⟩⟩

theorem of_reorders (h : Relation.ReflTransGen Swaps document document') :
    Mirrors document document' := by
  induction h with
  | refl => exact .refl _
  | tail _ hswap ih => exact ih.trans (.of_swaps hswap)

theorem leads_eq (h : Mirrors document document') : Leads document' = Leads document :=
  funext₂ fun r s => propext (h.leads r s)

theorem reaches (h : Mirrors document document') (s : Text) :
    Reaches document' s ↔ Reaches document s := by
  simp only [Reaches, h.refs, h.leads_eq]

end Mirrors

end Reference

end ApiLint
