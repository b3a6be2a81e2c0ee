import ApiLint.Value
import Mathlib.Data.List.Basic

/-! Which keys are the same. A text is the same key as itself and as nothing else, and a list of texts
is the same as no other value; pairs whose keys are all different are entries as they stand. -/
namespace ApiLint

namespace Value

-- The patterns of `same` overlap, so its equations are made once, here, and not by whoever needs them.
attribute [grind =] whole? sameScalar same sameEach

theorem same_str {v : Value} {t : Text} : v.same (.str t) = true ↔ v = .str t := by
  cases v <;> simp [same, sameScalar, whole?]

instance (v : Value) (t : Text) : Decidable (v = .str t) :=
  decidable_of_iff _ same_str

theorem same_str_eq_false {v : Value} {t : Text} : v.same (.str t) = false ↔ v ≠ .str t := by
  rw [← Bool.not_eq_true, Ne, same_str]

theorem same_null {v : Value} : v.same .null = true ↔ v = .null := by
  cases v <;> grind

theorem sameEach_str {items : List Value} {ts : List Text} :
    sameEach items (ts.map str) = true ↔ items = ts.map str := by
  induction items generalizing ts with
  | nil => cases ts <;> simp [sameEach]
  | cons x items ih => cases ts <;> simp [sameEach, same_str, ih]

theorem same_texts {v : Value} {ts : List Text} : v.same (texts ts) = true ↔ v = texts ts := by
  cases v with
  | list items => rw [texts, same, sameEach_str, list.injEq]
  | _ => simp [texts, same, sameScalar, whole?]

end Value

namespace Entries

/-- A key that does not occur is put at the end. -/
theorem put_of_not_same {key value : Value} {entries : Entries}
    (h : ∀ e ∈ entries, e.1.same key = false) : put key value entries = entries ++ [(key, value)] := by
  induction entries with
  | nil => rfl
  | cons e entries ih =>
    obtain ⟨k, v⟩ := e
    rw [put, h (k, v) List.mem_cons_self, if_neg Bool.false_ne_true,
      ih fun e he => h e (List.mem_cons_of_mem _ he), List.cons_append]

/-- Pairs with different keys are entries as they stand. -/
theorem ofPairs_eq_self {pairs : List (Value × Value)}
    (h : pairs.Pairwise fun e f => e.1.same f.1 = false) : ofPairs pairs = pairs := by
  have hfold : ∀ after before : List (Value × Value),
      (before ++ after).Pairwise (fun e f => e.1.same f.1 = false) →
      after.foldl (fun entries pair => put pair.1 pair.2 entries) before = before ++ after := by
    intro after
    induction after with
    | nil => exact fun before _ => (List.append_nil before).symm
    | cons e after ih =>
      intro before hpair
      have hnew : ∀ f ∈ before, f.1.same e.1 = false := fun f hf =>
        (List.pairwise_append.mp hpair).2.2 f hf e List.mem_cons_self
      rw [List.foldl_cons, put_of_not_same hnew]
      show List.foldl _ (before ++ [e]) after = _
      rw [ih (before ++ [e]) (by rwa [List.append_assoc]), List.append_assoc, List.singleton_append]
  exact hfold pairs [] h

/-- What is found under a key stands under one that is the same. -/
theorem exists_of_find? {key w : Value} {entries : Entries} (h : entries.find? key = some w) :
    ∃ k, (k, w) ∈ entries ∧ k.same key = true := by
  induction entries with
  | nil => cases h
  | cons e entries ih =>
    obtain ⟨k, v⟩ := e
    rw [find?] at h
    split at h
    · next hsame => exact ⟨k, by rw [Option.some.inj h]; exact List.mem_cons_self, hsame⟩
    · obtain ⟨k', hmem, hsame⟩ := ih h
      exact ⟨k', List.mem_cons_of_mem _ hmem, hsame⟩

end Entries

end ApiLint
