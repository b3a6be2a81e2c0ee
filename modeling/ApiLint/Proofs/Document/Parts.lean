import ApiLint.Proofs.Document.References
import Mathlib.Algebra.Order.BigOperators.Group.List
import Mathlib.Algebra.Order.Group.Nat

/-! The parts of a value that a walk looks at, and what they are in the whole: they are finite where the
whole is, the whole holds their references (`held_part`), and it has more values in it than all of them
together (`nodes_parts`). What a reference names has no more values in it than the document has
(`nodes_follow`). -/
namespace ApiLint.Reference

variable {v part : Value} {r token : Text} {tokens : List Text}

/-! ### The parts of a value -/

/-- The reference that a value holds itself, if it is a mapping that holds one. -/
def own (v : Value) : List Text :=
  match v.opened with
  | .map entries => (local? entries).toList
  | _ => []

theorem length_own_le (v : Value) : (own v).length ≤ 1 := by
  rw [own]
  split
  · next entries _ => cases local? entries <;> simp
  · exact Nat.zero_le 1

theorem parts_scalar (h : v.isScalar = true) : parts v = [] := by
  cases v <;> first | rfl | cases h

/-- What holds of a value because it holds of the parts that a walk looks at, holds of all finite
values. -/
@[elab_as_elim]
theorem parts_induction {motive : Value → Prop} (hv : v.IsFinite)
    (h : ∀ v, v.IsFinite → (∀ part ∈ parts v, motive part) → motive v) : motive v := by
  induction hv with
  | @scalar v hscalar =>
    exact h v (.scalar hscalar) (parts_scalar hscalar ▸ List.forall_mem_nil _)
  | list hitems ih => exact h _ (.list hitems) ih
  | tuple hitems _ => exact h _ (.tuple hitems) (List.forall_mem_nil _)
  | set hitems _ => exact h _ (.set hitems) (List.forall_mem_nil _)
  | map hentries ih =>
    refine h _ (.map hentries) fun part hpart => ?_
    obtain ⟨e, he, rfl⟩ := List.mem_map.mp hpart
    exact ih e (List.mem_filter.mp he).1

theorem refs_eq (hv : v.IsFinite) : refs v = own v ++ (parts v).flatMap refs := by
  cases hv with
  | scalar hscalar => cases v <;> first | rfl | cases hscalar
  | list => exact refs_list _
  | tuple | set => rfl
  | map =>
    rw [refs_map]
    exact congrArg _ (List.flatMap_map _ _ _).symm

theorem part_isFinite (hv : v.IsFinite) (hpart : part ∈ parts v) : part.IsFinite := by
  cases hv with
  | scalar hscalar => exact absurd (parts_scalar hscalar ▸ hpart) List.not_mem_nil
  | list h => exact h part hpart
  | tuple | set => cases hpart
  | map h =>
    obtain ⟨e, he, rfl⟩ := List.mem_map.mp hpart
    exact h e (List.mem_filter.mp he).1

/-- The references of a part are held by the whole. -/
theorem held_part (hv : v.IsFinite) (hpart : part ∈ parts v) : ∀ s ∈ held part, s ∈ held v := by
  intro s hs
  cases hv with
  | scalar hscalar => exact absurd (parts_scalar hscalar ▸ hpart) List.not_mem_nil
  | list =>
    rw [held_list]
    exact List.mem_flatMap.mpr ⟨part, hpart, hs⟩
  | tuple | set => cases hpart
  | map =>
    obtain ⟨e, he, rfl⟩ := List.mem_map.mp hpart
    rw [held_map]
    exact List.mem_append_right _ (List.mem_flatMap.mpr ⟨e, (List.mem_filter.mp he).1, hs⟩)

theorem own_held (hv : v.IsFinite) (hr : r ∈ own v) : r ∈ held v :=
  mem_held_of_mem_refs hv (refs_eq hv ▸ List.mem_append_left _ hr)

/-! ### The number of values in a value -/

mutual

/-- The number of values in a value, itself included. -/
def nodes : Value → Nat
  | .map entries => nodesInEntries entries + 1
  | .list items => nodesInItems items + 1
  | _ => 1
termination_by structural v => v

def nodesInItems : List Value → Nat
  | [] => 0
  | x :: xs => nodes x + nodesInItems xs

def nodesInEntries : List (Value × Value) → Nat
  | [] => 0
  | (_, v) :: es => nodes v + nodesInEntries es

end

theorem nodes_list (items : List Value) : nodes (.list items) = (items.map nodes).sum + 1 := by
  rw [nodes, Nat.add_right_cancel_iff]
  induction items with
  | nil => rfl
  | cons x items ih => rw [nodesInItems, ih, List.map_cons, List.sum_cons]

theorem nodes_map (entries : Entries) :
    nodes (.map entries) = (entries.map fun e => nodes e.2).sum + 1 := by
  rw [nodes, Nat.add_right_cancel_iff]
  induction entries with
  | nil => rfl
  | cons e entries ih => rw [nodesInEntries, ih, List.map_cons, List.sum_cons]

/-- The parts that a walk looks at are fewer than all values in the whole. -/
theorem nodes_parts (hv : v.IsFinite) : ((parts v).map nodes).sum < nodes v := by
  cases hv with
  | scalar hscalar => cases v <;> first | exact Nat.zero_lt_one | cases hscalar
  | list =>
    rw [nodes_list]
    exact Nat.lt_succ_self _
  | tuple | set => exact Nat.zero_lt_one
  | @map entries =>
    have hsub : (searched entries).Sublist entries := List.filter_sublist
    have hle := (hsub.map fun e => nodes e.2).sum_le_sum fun _ _ => Nat.zero_le _
    have hparts : (parts (.map entries)).map nodes = (searched entries).map fun e => nodes e.2 :=
      List.map_map
    rw [nodes_map, hparts]
    exact Nat.lt_succ_of_le hle

/-- A step leads to a part that is no larger than the value. -/
theorem nodes_step (hv : v.IsFinite) (h : step v token = .ok (some part)) :
    nodes part ≤ nodes v := by
  rw [step, hv.opened] at h
  split at h
  · next entries =>
    obtain ⟨k, hmem, -⟩ := Entries.exists_of_find? (Except.ok.inj h)
    rw [nodes_map]
    exact Nat.le_succ_of_le (List.le_sum_of_mem (List.mem_map_of_mem hmem))
  · next items =>
    split at h
    · obtain ⟨n, -, hn⟩ := Except.map_eq_ok.mp h
      rw [nodes_list]
      exact Nat.le_succ_of_le (List.le_sum_of_mem (List.mem_map_of_mem (List.mem_of_getElem? hn)))
    · cases h
  · cases h

/-- Following a reference inside a finite value leads to a part that is no larger. -/
theorem nodes_follow (hv : v.IsFinite) (h : follow v tokens = .ok (some part)) :
    nodes part ≤ nodes v := by
  induction tokens generalizing v with
  | nil =>
    cases h
    exact Nat.le_refl _
  | cons token tokens ih =>
    rw [follow] at h
    split at h
    · cases h
    · cases h
    · next hstep =>
      exact (ih (held_step hv hstep).1 h).trans (nodes_step hv hstep)

end ApiLint.Reference
