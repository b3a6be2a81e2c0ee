import ApiLint.Proofs.Value.Keys
import ApiLint.Proofs.Value.Place
import Mathlib.Data.List.Induction

/-! Which of several pairs with one key a mapping keeps. Pairs that are put one after the other become
entries, and under a key that came up more than once stands the value of the last pair
(`find?_ofPairs_iff`). The keys here are texts and whole numbers, which are the same only if they are
equal. -/
namespace ApiLint.Entries

variable {entries : Entries} {pairs : List (Value × Value)} {s : Step} {v w : Value}

/-- Whether all keys are texts or whole numbers. -/
def AreSteps (pairs : List (Value × Value)) : Prop :=
  ∀ e ∈ pairs, ∃ s : Step, e.1 = s.value

theorem areSteps_put (h : AreSteps entries) (s : Step) (v : Value) :
    AreSteps (entries.put s.value v) := by
  induction entries with
  | nil => exact List.forall_mem_singleton.mpr ⟨s, rfl⟩
  | cons e entries ih =>
    obtain ⟨k, x⟩ := e
    obtain ⟨hk, hentries⟩ := List.forall_mem_cons.mp h
    rw [put]
    split
    · exact List.forall_mem_cons.mpr ⟨hk, hentries⟩
    · exact List.forall_mem_cons.mpr ⟨hk, ih hentries⟩

theorem find?_put_step (h : AreSteps entries) (s u : Step) (v : Value) :
    (entries.put u.value v).find? s.value = if u = s then some v else entries.find? s.value := by
  have hagree : ∀ e ∈ entries, e.1.Agree u.value s.value := by
    intro e he
    obtain ⟨t, ht⟩ := h e he
    rw [ht]
    refine ⟨fun htu => ?_, fun hts hus => ?_⟩
    · rw [Step.same_value.mp htu]
    · rw [Step.same_value] at hts hus ⊢
      exact hts.trans hus.symm
  simp only [find?_put hagree, Step.same_value]

theorem ofPairs_concat (pairs : List (Value × Value)) (e : Value × Value) :
    ofPairs (pairs ++ [e]) = (ofPairs pairs).put e.1 e.2 := by
  rw [ofPairs, ofPairs, List.foldl_append]
  rfl

theorem areSteps_ofPairs (h : AreSteps pairs) : AreSteps (ofPairs pairs) := by
  induction pairs using List.reverseRecOn with
  | nil => exact nofun
  | append_singleton pairs e ih =>
    obtain ⟨hpairs, he⟩ := List.forall_mem_append.mp h
    obtain ⟨s, hs⟩ := List.forall_mem_singleton.mp he
    rw [ofPairs_concat, hs]
    exact areSteps_put (ih hpairs) s e.2

/-- Under a key stands the value of the last pair with it. -/
theorem find?_ofPairs_iff (h : AreSteps pairs) :
    (ofPairs pairs).find? s.value = some w ↔ ∃ earlier later,
      pairs = earlier ++ (s.value, w) :: later ∧ ∀ e ∈ later, e.1 ≠ s.value := by
  induction pairs using List.reverseRecOn with
  | nil =>
    refine ⟨nofun, fun hsplit => ?_⟩
    obtain ⟨earlier, later, heq, -⟩ := hsplit
    simp at heq
  | append_singleton pairs e ih =>
    obtain ⟨hpairs, he⟩ := List.forall_mem_append.mp h
    obtain ⟨u, hu⟩ := List.forall_mem_singleton.mp he
    obtain ⟨k, v⟩ := e
    obtain rfl : k = u.value := hu
    rw [ofPairs_concat, find?_put_step (areSteps_ofPairs hpairs)]
    by_cases hus : u = s
    · rw [if_pos hus, hus]
      constructor
      · rintro ⟨⟩
        exact ⟨pairs, [], rfl, nofun⟩
      · rintro ⟨earlier, later, heq, hlater⟩
        obtain rfl | ⟨more, last, rfl⟩ := List.eq_nil_or_concat later
        · have hlast := (List.append_inj' heq rfl).2
          rw [(Prod.mk.inj (List.singleton_inj.mp hlast)).2]
        · rw [List.concat_eq_append] at heq hlater
          rw [← List.cons_append, ← List.append_assoc] at heq
          have hlast := List.singleton_inj.mp (List.append_inj' heq rfl).2
          exact absurd (congrArg Prod.fst hlast).symm (hlater last (by simp))
    · rw [if_neg hus, ih hpairs]
      constructor
      · rintro ⟨earlier, later, rfl, hlater⟩
        refine ⟨earlier, later ++ [(u.value, v)], by simp, ?_⟩
        refine List.forall_mem_append.mpr ⟨hlater, List.forall_mem_singleton.mpr fun heq => hus ?_⟩
        exact Step.same_value.mp (by rw [show u.value = s.value from heq]; exact Step.same_value.mpr rfl)
      · rintro ⟨earlier, later, heq, hlater⟩
        obtain rfl | ⟨more, last, rfl⟩ := List.eq_nil_or_concat later
        · have hlast := List.singleton_inj.mp (List.append_inj' heq rfl).2
          exact absurd (Step.same_value.mp (by
            rw [(Prod.mk.inj hlast).1]; exact Step.same_value.mpr rfl)) hus
        · rw [List.concat_eq_append] at heq hlater
          rw [← List.cons_append, ← List.append_assoc] at heq
          obtain ⟨rfl, -⟩ := List.append_inj' heq rfl
          exact ⟨earlier, more, rfl, (List.forall_mem_append.mp hlater).1⟩

end ApiLint.Entries
