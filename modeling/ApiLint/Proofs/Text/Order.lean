import ApiLint.Text.Order
import Mathlib.Data.List.Induction
import Mathlib.Data.List.Lex
import Mathlib.Data.List.Nodup
import Mathlib.Order.Lattice

/-! The order of texts. A text is compared by the numbers of its code points, and these rows of
numbers are compared as words in a dictionary: no two texts have the same row, so that the order is
a total one. Texts that are kept once stay in the order in which they came up. -/
namespace ApiLint

/-- Rows with a first part are compared by it, and by the rest where it is the same. -/
theorem cons_le_cons_iff {α : Type} [LinearOrder α] {a b : α} {as bs : List α} :
    a :: as ≤ b :: bs ↔ a < b ∨ a = b ∧ as ≤ bs := by
  rw [le_iff_lt_or_eq, le_iff_lt_or_eq, List.cons_lt_cons_iff, List.cons.injEq]
  tauto

/-- Half of a pair has a code of its own, which no character has. -/
theorem CodePoint.code_injective : Function.Injective CodePoint.code := by
  intro p q h
  cases p with
  | char c =>
    cases q with
    | char d => rw [Char.toNat_inj.mp h]
    | half offset =>
      -- No character has a number between those of the halves.
      have hvalid : c.toNat.isValidChar := c.valid
      simp only [code, firstHalf] at h
      have := offset.isLt
      rcases hvalid with hlow | hhigh <;> omega
  | half offset =>
    cases q with
    | char d =>
      have hvalid : d.toNat.isValidChar := d.valid
      simp only [code, firstHalf] at h
      have := offset.isLt
      rcases hvalid with hlow | hhigh <;> omega
    | half offset' =>
      rw [Fin.ext (Nat.add_left_cancel h)]

namespace Text

def codes (t : Text) : List Nat :=
  t.map CodePoint.code

theorem codes_injective : Function.Injective codes :=
  List.map_injective_iff.mpr CodePoint.code_injective

theorem atMost_iff {s t : Text} : atMost s t = true ↔ s.codes ≤ t.codes := by
  induction s generalizing t with
  | nil =>
    simp only [atMost, true_iff]
    exact not_lt.mp (List.not_lt_nil _)
  | cons c s ih =>
    cases t with
    | nil => simp [atMost, codes]
    | cons d t =>
      simp only [atMost, codes, List.map_cons, cons_le_cons_iff, Bool.or_eq_true, Bool.and_eq_true,
        decide_eq_true_eq, CodePoint.code_injective.eq_iff, ih]

/-! ### Texts in order -/

theorem sorted_pairwise (texts : List Text) :
    (sorted texts).Pairwise fun s t => s.codes ≤ t.codes := by
  have htrans : ∀ s t u : Text, atMost s t = true → atMost t u = true → atMost s u = true :=
    fun s t u hst htu => atMost_iff.mpr ((atMost_iff.mp hst).trans (atMost_iff.mp htu))
  have htotal : ∀ s t : Text, (atMost s t || atMost t s) = true := fun s t =>
    Bool.or_eq_true_iff.mpr ((le_total s.codes t.codes).imp atMost_iff.mpr atMost_iff.mpr)
  exact (List.pairwise_mergeSort htrans htotal texts).imp atMost_iff.mp

theorem sorted_eq {texts row : List Text} (hperm : texts.Perm row)
    (hrow : row.Pairwise fun s t => s.codes ≤ t.codes) : sorted texts = row :=
  ((sorted_perm texts).trans hperm).eq_of_pairwise
    (fun _ _ _ _ hst hts => codes_injective (le_antisymm hst hts)) (sorted_pairwise texts) hrow

/-- Texts in order are in strict order when none of them came twice. -/
theorem sorted_strict_iff {texts : List Text} :
    ((sorted texts).Pairwise fun s t => s.codes < t.codes) ↔ texts.Nodup := by
  rw [← (sorted_perm texts).nodup_iff]
  constructor
  · intro hless
    exact hless.imp fun {s t} hst (heq : s = t) => absurd hst (heq ▸ lt_irrefl s.codes)
  · intro hnodup
    refine (List.Pairwise.and hnodup (sorted_pairwise texts)).imp fun hgiven => ?_
    exact lt_of_le_of_ne hgiven.2 fun heq => hgiven.1 (codes_injective heq)

/-- Two rows in strict order that have the same texts are the same. -/
theorem eq_of_strict {texts others : List Text} (h : texts.Pairwise fun s t => s.codes < t.codes)
    (h' : others.Pairwise fun s t => s.codes < t.codes) (hmem : ∀ t, t ∈ texts ↔ t ∈ others) :
    texts = others := by
  have hnodup : ∀ {row : List Text}, (row.Pairwise fun s t => s.codes < t.codes) → row.Nodup :=
    fun hless => hless.imp fun {s t} hst (heq : s = t) => absurd hst (heq ▸ lt_irrefl s.codes)
  have hperm : texts.Perm others := (List.perm_ext_iff_of_nodup (hnodup h) (hnodup h')).mpr hmem
  exact hperm.eq_of_pairwise (fun s t _ _ hst hts => absurd hts (lt_asymm hst)) h h'

/-! ### Each text once -/

theorem unique_append_singleton (texts : List Text) (t : Text) :
    unique (texts ++ [t]) = if t ∈ texts then unique texts else unique texts ++ [t] := by
  have hkept : (unique texts).contains t = true ↔ t ∈ texts := by
    rw [List.contains_iff_mem, mem_unique]
  rw [unique, List.foldl_append, List.foldl_cons, List.foldl_nil]
  show (if (unique texts).contains t then unique texts else unique texts ++ [t]) = _
  simp only [hkept]

theorem unique_nodup (texts : List Text) : (unique texts).Nodup := by
  induction texts using List.reverseRecOn with
  | nil => exact List.nodup_nil
  | append_singleton texts t ih =>
    rw [unique_append_singleton]
    split
    · exact ih
    · next hnew =>
      refine List.nodup_append.mpr ⟨ih, List.nodup_singleton t, fun a ha b hb heq => ?_⟩
      rw [List.mem_singleton.mp hb] at heq
      exact hnew (heq ▸ mem_unique.mp ha)

/-- Texts that are kept once stand in the order in which they came up first. -/
theorem unique_in_order (texts : List Text) :
    (unique texts).Pairwise fun s t => texts.idxOf s < texts.idxOf t := by
  induction texts using List.reverseRecOn with
  | nil => exact List.Pairwise.nil
  | append_singleton texts t ih =>
    have hbefore : (unique texts).Pairwise fun a b =>
        (texts ++ [t]).idxOf a < (texts ++ [t]).idxOf b := by
      refine ih.imp_of_mem fun {a b} ha hb hless => ?_
      rwa [List.idxOf_append_of_mem (mem_unique.mp ha), List.idxOf_append_of_mem (mem_unique.mp hb)]
    rw [unique_append_singleton]
    split
    · exact hbefore
    · next hnew =>
      refine List.pairwise_append.mpr ⟨hbefore, List.pairwise_singleton _ t, fun a ha b hb => ?_⟩
      have ha' : a ∈ texts := mem_unique.mp ha
      rw [List.mem_singleton.mp hb, List.idxOf_append_of_mem ha',
        List.idxOf_append_of_notMem hnew]
      have := List.idxOf_lt_length_of_mem ha'
      omega

/-- The first text stays, and those that are the same go. -/
theorem unique_cons (t : Text) (texts : List Text) :
    unique (t :: texts) = t :: (unique texts).filter (· ≠ t) := by
  induction texts using List.reverseRecOn with
  | nil => rfl
  | append_singleton texts s ih =>
    rw [← List.cons_append, unique_append_singleton, unique_append_singleton, ih]
    by_cases hs : s ∈ texts
    · rw [if_pos hs, if_pos (List.mem_cons_of_mem t hs)]
    · by_cases hst : s = t
      · rw [if_pos (List.mem_cons.mpr (.inl hst)), if_neg hs, List.filter_append]
        simp [hst]
      · rw [if_neg (by simp [hst, hs]), if_neg hs, List.filter_append]
        simp [hst]

/-- Texts in front of others are kept, and of the others those that are new. -/
theorem unique_append (texts others : List Text) :
    unique (texts ++ others) = unique texts ++ (unique others).filter (· ∉ texts) := by
  induction others using List.reverseRecOn with
  | nil =>
    rw [List.append_nil]
    exact (List.append_nil _).symm
  | append_singleton others t ih =>
    rw [← List.append_assoc, unique_append_singleton, unique_append_singleton, ih]
    by_cases hothers : t ∈ others
    · rw [if_pos (List.mem_append_right _ hothers), if_pos hothers]
    · rw [if_neg hothers, List.filter_append]
      by_cases htexts : t ∈ texts
      · rw [if_pos (List.mem_append_left _ htexts), List.filter_cons_of_neg (by simpa using htexts)]
        rw [List.filter_nil, List.append_nil]
      · rw [if_neg (by simp [htexts, hothers]), List.filter_cons_of_pos (by simpa using htexts),
          List.filter_nil, List.append_assoc]

theorem unique_sublist (texts : List Text) : (unique texts).Sublist texts := by
  induction texts using List.reverseRecOn with
  | nil => exact List.nil_sublist []
  | append_singleton texts t ih =>
    rw [unique_append_singleton]
    split
    · exact ih.trans (List.sublist_append_left texts [t])
    · exact ih.append_right [t]

end Text

end ApiLint
