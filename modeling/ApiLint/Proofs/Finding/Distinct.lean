import ApiLint.Finding
import Mathlib.Data.List.FinRange
import Mathlib.Data.List.Nodup

/-! Which findings are kept when those that repeat an earlier one are dropped. Going through the findings
with the keys that have come up is the same as keeping the first finding and dropping those with its key
from what is kept of the others (`distinct_cons`). From this the findings that are kept are those at the
places where their key comes up first, and nothing else is needed to know of them (`distinct_canonical`). -/
namespace ApiLint.Finding

variable {κ : Type} [DecidableEq κ] (key : Finding → κ) (f : Finding) (fs : List Finding)

/-- The findings at the places where their key comes up for the first time. -/
def firsts : List Finding :=
  ((List.finRange fs.length).filter fun i => ∀ j < i, key fs[j] ≠ key fs[i]).map fs.get

/-- The first finding stays, and what has its key goes. -/
theorem firsts_cons :
    firsts key (f :: fs) = f :: (firsts key fs).filter fun g => key g ≠ key f := by
  have hplace : ∀ i : Fin fs.length,
      (∀ j < i.succ, key (f :: fs)[j] ≠ key (f :: fs)[i.succ]) ↔
        key fs[i] ≠ key f ∧ ∀ j < i, key fs[j] ≠ key fs[i] := by
    intro i
    rw [Fin.forall_fin_succ]
    simp only [Fin.succ_pos, forall_const, Fin.succ_lt_succ_iff]
    exact and_congr_left' ne_comm
  have hplaces : List.finRange (f :: fs).length = 0 :: (List.finRange fs.length).map Fin.succ :=
    List.finRange_succ
  rw [firsts, hplaces, List.filter_cons_of_pos (by simp), List.map_cons, List.filter_map, List.map_map,
    firsts, List.filter_map, List.filter_filter]
  congr 2
  refine List.filter_congr fun i _ => Bool.eq_iff_iff.mpr ?_
  simpa using hplace i

variable [BEq κ] [LawfulBEq κ]

/-- The keys that have come up before are missing from what is kept, and nothing else is. -/
theorem distinctFrom_eq_filter (seen : List κ) :
    distinctFrom key seen fs = (distinct key fs).filter fun g => key g ∉ seen := by
  induction fs generalizing seen with
  | nil => rfl
  | cons f fs ih =>
    have hfirst : distinct key (f :: fs) = f :: (distinct key fs).filter fun g => key g ∉ [key f] := by
      rw [← ih]
      rfl
    rw [hfirst, distinctFrom]
    by_cases hseen : key f ∈ seen
    · rw [if_pos (List.contains_iff_mem.mpr hseen), ih, List.filter_cons_of_neg (by simpa using hseen),
        List.filter_filter]
      refine List.filter_congr fun g _ => ?_
      have hg : key g ∉ seen → key g ∉ [key f] := fun hnew hmem =>
        hnew (List.mem_singleton.mp hmem ▸ hseen)
      simpa using hg
    · rw [if_neg (mt List.contains_iff_mem.mp hseen), ih, List.filter_cons_of_pos (by simpa using hseen),
        List.filter_filter]
      congr 1
      refine List.filter_congr fun g _ => ?_
      simp [not_or, Bool.and_comm]

/-- The first finding is kept, and of the others those that have another key. -/
theorem distinct_cons :
    distinct key (f :: fs) = f :: (distinct key fs).filter fun g => key g ≠ key f := by
  have hrest := distinctFrom_eq_filter key fs [key f]
  simp only [List.mem_singleton] at hrest
  rw [← hrest]
  rfl

theorem distinct_eq_firsts : distinct key fs = firsts key fs := by
  induction fs with
  | nil => rfl
  | cons f fs ih => rw [distinct_cons, firsts_cons, ih]

/-- Only which keys are equal matters. -/
theorem distinct_congr {κ' : Type} [DecidableEq κ'] [BEq κ'] [LawfulBEq κ'] {key' : Finding → κ'}
    {fs : List Finding} (h : ∀ f ∈ fs, ∀ g ∈ fs, key f = key g ↔ key' f = key' g) :
    distinct key fs = distinct key' fs := by
  rw [distinct_eq_firsts, distinct_eq_firsts, firsts, firsts]
  congr 1
  refine List.filter_congr fun i _ => ?_
  have hplace : ∀ j : Fin fs.length, key fs[j] ≠ key fs[i] ↔ key' fs[j] ≠ key' fs[i] := fun j =>
    not_congr (h _ (List.getElem_mem _) _ (List.getElem_mem _))
  simp only [hplace]

theorem nodup_keys_distinct : ((distinct key fs).map key).Nodup := by
  induction fs with
  | nil => exact List.nodup_nil
  | cons f fs ih =>
    rw [distinct_cons, List.map_cons, List.nodup_cons]
    refine ⟨fun hmem => ?_, ih.sublist (List.filter_sublist.map key)⟩
    obtain ⟨g, hg, hkey⟩ := List.mem_map.mp hmem
    exact of_decide_eq_true (List.mem_filter.mp hg).2 hkey

/-- No key is lost when repeated ones are dropped. -/
theorem mem_keys_distinct {k : κ} : k ∈ (distinct key fs).map key ↔ k ∈ fs.map key := by
  induction fs with
  | nil => exact Iff.rfl
  | cons f fs ih =>
    rw [distinct_cons, List.map_cons, List.map_cons, List.mem_cons, List.mem_cons, ← ih]
    refine or_congr_right' fun hk => ?_
    simp only [List.mem_map, List.mem_filter, decide_eq_true_eq]
    constructor
    · rintro ⟨g, ⟨hg, -⟩, rfl⟩
      exact ⟨g, hg, rfl⟩
    · rintro ⟨g, hg, rfl⟩
      exact ⟨g, ⟨hg, hk⟩, rfl⟩

/-- Nothing is dropped where all keys are different. -/
theorem distinct_of_nodup {fs : List Finding} (h : (fs.map key).Nodup) : distinct key fs = fs := by
  induction fs with
  | nil => rfl
  | cons f fs ih =>
    rw [List.map_cons, List.nodup_cons] at h
    obtain ⟨hf, hfs⟩ := h
    rw [distinct_cons, ih hfs, List.filter_eq_self.mpr fun g hg => ?_]
    exact decide_eq_true fun hkey => hf (hkey ▸ List.mem_map_of_mem hg)

theorem distinct_append (gs : List Finding) :
    distinct key (fs ++ gs) =
      distinct key fs ++ (distinct key gs).filter fun g => key g ∉ fs.map key := by
  induction fs with
  | nil => simp [distinct, distinctFrom]
  | cons f fs ih =>
    rw [List.cons_append, distinct_cons, ih, List.filter_append, distinct_cons, List.cons_append,
      List.filter_filter]
    congr 2
    refine List.filter_congr fun g _ => ?_
    simp [not_or]

/-- **Dropping repetitions is canonical.** What is kept of some findings are those at the places where
their key comes up first, in their order. So the keys of what is kept are all different and are all the
keys there are, to drop repetitions again changes nothing, and of what comes behind other findings those
are kept that would be kept alone and have no key of theirs. -/
theorem distinct_canonical (fs gs : List Finding) :
    distinct key fs = firsts key fs ∧
      ((distinct key fs).map key).Nodup ∧
      (∀ k, k ∈ (distinct key fs).map key ↔ k ∈ fs.map key) ∧
      distinct key (distinct key fs) = distinct key fs ∧
      distinct key (fs ++ gs) =
        distinct key fs ++ (distinct key gs).filter fun g => key g ∉ fs.map key := by
  have hnodup := nodup_keys_distinct key fs
  exact ⟨distinct_eq_firsts key fs, hnodup, fun k => mem_keys_distinct key fs,
    distinct_of_nodup key hnodup, distinct_append key fs gs⟩

/-- Three findings, of which the last has the rule of the first. -/
def repeating : List Finding :=
  [⟨[.str "info"], .str "no contact", "info-contact", .str "warning"⟩,
    ⟨[.str "info"], .str "no license", "info-license", .str "warning"⟩,
    ⟨[.str "paths"], .str "no contact", "info-contact", .str "error"⟩]

/-- By the rule two of the three are kept, and none of the same three behind them. -/
theorem distinct_canonical_sample : LawfulBEq Text ∧
    distinct (·.rule) (repeating ++ repeating) = repeating.take 2 := by
  obtain ⟨hfirsts, -, -, -, happend⟩ := distinct_canonical (·.rule) repeating repeating
  have hkept : firsts (·.rule) repeating = repeating.take 2 := rfl
  have hknown : (repeating.take 2).filter (fun g => g.rule ∉ repeating.map (·.rule)) = [] := rfl
  rw [happend, hfirsts, hkept, hknown, List.append_nil]
  exact ⟨inferInstance, rfl⟩

end ApiLint.Finding
