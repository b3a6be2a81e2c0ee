import Mathlib.Data.List.Basic
import Mathlib.Order.Defs.Unbundled

/-! Stable sorts. Where a row is put in the order of keys and what has the same key keeps its order,
nothing is left to choice: there is exactly one such row (`IsStableSort.unique`), and a merge sort finds
it (`isStableSort_mergeSort`). So a second sort changes nothing, and what keeps the keys can be done
before a sort as well as behind it. -/
namespace ApiLint

variable {α κ : Type} [DecidableEq κ] {r : κ → κ → Prop} {key : α → κ} {xs ys zs : List α}

/-- A row is put in the order of keys: it keeps what it has, the keys stand in their order, and what has
the same key stands as before. -/
structure IsStableSort (r : κ → κ → Prop) (key : α → κ) (xs ys : List α) : Prop where
  perm : ys.Perm xs
  inOrder : ys.Pairwise fun a b => r (key a) (key b)
  stable : ∀ k, ys.filter (key · = k) = xs.filter (key · = k)

theorem mem_iff_of_filter (h : ∀ k, ys.filter (key · = k) = zs.filter (key · = k)) (a : α) :
    a ∈ ys ↔ a ∈ zs := by
  have hfilter : a ∈ ys.filter (key · = key a) ↔ a ∈ zs.filter (key · = key a) := by rw [h]
  simpa using hfilter

/-- Two rows in the order of keys are the same if they agree on each key alone. -/
theorem eq_of_inOrder [Std.Antisymm r] (hy : ys.Pairwise fun a b => r (key a) (key b))
    (hz : zs.Pairwise fun a b => r (key a) (key b))
    (h : ∀ k, ys.filter (key · = k) = zs.filter (key · = k)) : ys = zs := by
  have hmem := mem_iff_of_filter h
  induction ys generalizing zs with
  | nil =>
    exact (List.eq_nil_iff_forall_not_mem.mpr fun a ha => List.not_mem_nil ((hmem a).mpr ha)).symm
  | cons y ys ih =>
    cases zs with
    | nil => exact absurd ((hmem y).mp List.mem_cons_self) List.not_mem_nil
    | cons z zs =>
      -- Either head is among the elements of the other row, so neither key comes before the other.
      have hkey : key y = key z := by
        obtain rfl | hyz := List.mem_cons.mp ((hmem y).mp List.mem_cons_self)
        · rfl
        obtain rfl | hzy := List.mem_cons.mp ((hmem z).mpr List.mem_cons_self)
        · rfl
        exact Std.Antisymm.antisymm _ _ (List.rel_of_pairwise_cons hy hzy)
          (List.rel_of_pairwise_cons hz hyz)
      have hhead := h (key y)
      rw [List.filter_cons_of_pos (by simp), List.filter_cons_of_pos (by simp [hkey])] at hhead
      obtain ⟨rfl, -⟩ := List.cons.inj hhead
      have htail : ∀ k, ys.filter (key · = k) = zs.filter (key · = k) := by
        intro k
        have hk := h k
        rw [List.filter_cons, List.filter_cons] at hk
        split at hk
        · exact (List.cons.inj hk).2
        · exact hk
      exact congrArg (y :: ·) (ih hy.of_cons hz.of_cons htail (mem_iff_of_filter htail))

namespace IsStableSort

/-- **There is only one stable sort of a row.** -/
theorem unique [Std.Antisymm r] (hy : IsStableSort r key xs ys) (hz : IsStableSort r key xs zs) :
    ys = zs :=
  eq_of_inOrder hy.inOrder hz.inOrder fun k => (hy.stable k).trans (hz.stable k).symm

/-- What stands in its order is its own stable sort. -/
theorem refl (h : xs.Pairwise fun a b => r (key a) (key b)) : IsStableSort r key xs xs :=
  ⟨.refl xs, h, fun _ => rfl⟩

/-- A change of the elements that keeps their keys can be made before the sort as well. -/
theorem map (h : IsStableSort r key xs ys) {f : α → α} (hf : ∀ a, key (f a) = key a) :
    IsStableSort r key (xs.map f) (ys.map f) where
  perm := h.perm.map f
  inOrder := by
    rw [List.pairwise_map]
    simpa only [hf] using h.inOrder
  stable k := by
    rw [List.filter_map, List.filter_map]
    simp only [Function.comp_def, hf, h.stable]

end IsStableSort

/-- A merge sort is stable. -/
theorem isStableSort_mergeSort [IsTrans κ r] [Std.Total r] (key : α → κ) {le : α → α → Bool}
    (hle : ∀ a b, le a b = true ↔ r (key a) (key b)) (xs : List α) :
    IsStableSort r key xs (xs.mergeSort le) := by
  have htrans : ∀ a b c, le a b = true → le b c = true → le a c = true := fun a b c hab hbc =>
    (hle a c).mpr (IsTrans.trans _ _ _ ((hle a b).mp hab) ((hle b c).mp hbc))
  have htotal : ∀ a b, (le a b || le b a) = true := fun a b => by
    rw [Bool.or_eq_true, hle, hle]
    exact Std.Total.total _ _
  refine ⟨List.mergeSort_perm xs le,
    (List.pairwise_mergeSort htrans htotal xs).imp fun hab => (hle _ _).mp hab, fun k => ?_⟩
  -- What has one key is sorted as it stands, so it is a part of the sorted row in this order.
  have hsame : (xs.filter (key · = k)).Pairwise fun a b => le a b = true := by
    refine List.pairwise_of_forall_mem_list fun a ha b hb => (hle a b).mpr ?_
    rw [of_decide_eq_true (List.mem_filter.mp ha).2, of_decide_eq_true (List.mem_filter.mp hb).2]
    exact (Std.Total.total k k).elim id id
  have hsub : (xs.filter (key · = k)).Sublist (xs.mergeSort le) :=
    List.sublist_mergeSort htrans htotal hsame List.filter_sublist
  have hfilter := hsub.filter (key · = k)
  rw [List.filter_filter] at hfilter
  simp only [Bool.and_self] at hfilter
  exact (hfilter.eq_of_length ((List.mergeSort_perm xs le).filter _).length_eq.symm).symm

end ApiLint
