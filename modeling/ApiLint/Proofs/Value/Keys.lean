import ApiLint.Proofs.Value.Same

/-! The keys of entries. The keys of a mapping differ, and stay so when a value is put under one more
key (`differ_put`). For what is found under a text less is enough: that no text is the key of two
entries. -/
namespace ApiLint

namespace Value

theorem str_same {v : Value} {t : Text} : (str t).same v = true ↔ v = .str t := by
  cases v <;> simp [same, sameScalar, whole?, eq_comm]

/-- Two keys that a mapping can have beside each other, the first one before the second. -/
def Differ (k l : Value) : Prop :=
  k.same l = false

/-- Two keys that are not one text. -/
def Apart (k l : Value) : Prop :=
  ∀ t, k = .str t → l ≠ .str t

theorem Differ.apart {k l : Value} (h : k.Differ l) : k.Apart l := by
  intro t hk hl
  subst hk
  exact same_str_eq_false.mp (hl ▸ h) rfl

theorem apart_of_ne {k l : Value} (h : k ≠ l) : k.Apart l :=
  fun _ hk hl => h (hk.trans hl.symm)

/-- Among three keys, two pairs that are the same make the third one the same. -/
structure Agree (k l m : Value) : Prop where
  congr : k.same l = true → k.same m = l.same m
  joins : k.same m = true → l.same m = true → k.same l = true

end Value

namespace Entries

variable {key value : Value} {entries : Entries}

theorem find?_eq (key : Value) (entries : Entries) :
    find? key entries = (List.find? (·.1.same key) entries).map (·.2) := by
  induction entries with
  | nil => rfl
  | cons e entries ih =>
    obtain ⟨k, v⟩ := e
    rw [find?, List.find?_cons]
    cases h : k.same key with
    | true => rfl
    | false => exact ih

theorem find?_eq_none : entries.find? key = none ↔ ∀ e ∈ entries, e.1.same key = false := by
  simp only [find?_eq, Option.map_eq_none_iff, List.find?_eq_none, Bool.not_eq_true]

theorem find?_append (key : Value) (entries entries' : Entries) :
    find? key (entries ++ entries') = (find? key entries).or (find? key entries') := by
  simp only [find?_eq, List.find?_append, Option.map_or]

theorem has_eq_false : entries.has key = false ↔ ∀ e ∈ entries, e.1.same key = false := by
  rw [has, Option.isSome_eq_false_iff, Option.isNone_iff_eq_none, find?_eq_none]

/-- Whether a key occurs depends on the keys alone. -/
theorem has_eq_any (key : Value) (entries : Entries) :
    has key entries = (entries.map (·.1)).any (·.same key) := by
  rw [Bool.eq_iff_iff, ← not_iff_not, Bool.not_eq_true, Bool.not_eq_true, has_eq_false,
    List.any_eq_false]
  simp only [List.forall_mem_map, Bool.not_eq_true]

/-- What is found depends on the keys, whatever becomes of the values. -/
theorem find?_map {f : Value × Value → Value × Value} (hf : ∀ e, (f e).1 = e.1) (key : Value)
    (entries : Entries) :
    find? key (entries.map f) =
      (List.find? (·.1.same key) entries).map fun e => (f e).2 := by
  rw [find?_eq, List.find?_map, Option.map_map]
  simp only [Function.comp_def, hf]

theorem find?_map_snd (f : Value → Value) (key : Value) (entries : Entries) :
    find? key (entries.map fun e => (e.1, f e.2)) = (find? key entries).map f := by
  rw [find?_map (f := fun e => (e.1, f e.2)) fun _ => rfl, find?_eq, Option.map_map]
  rfl

/-- Where no two keys are one text, the value that stands under a text is found. -/
theorem find?_str (hkeys : (entries.map (·.1)).Pairwise Value.Apart) {t : Text} {v : Value} :
    entries.find? (.str t) = some v ↔ (.str t, v) ∈ entries := by
  induction entries with
  | nil => simp only [find?, reduceCtorEq, List.not_mem_nil]
  | cons e entries ih =>
    obtain ⟨k, w⟩ := e
    rw [List.map_cons, List.pairwise_cons] at hkeys
    rw [find?, List.mem_cons, Prod.mk.injEq]
    by_cases hk : k = .str t
    · have hnew : (Value.str t, v) ∉ entries := fun hmem =>
        hkeys.1 _ (List.mem_map_of_mem hmem) t hk rfl
      rw [if_pos (Value.same_str.mpr hk), Option.some.injEq]
      simp only [hk, hnew, true_and, or_false, eq_comm]
    · rw [if_neg fun hsame => hk (Value.same_str.mp hsame), ih hkeys.2]
      simp only [Ne.symm hk, false_and, false_or]

/-! ### Putting -/

/-- After putting there is nothing but the old entries and the new value, under the old key if that was
the same. -/
theorem mem_put {e : Value × Value} (h : e ∈ entries.put key value) :
    e ∈ entries ∨ (e.1 = key ∨ e.1 ∈ entries.map (·.1) ∧ e.1.same key = true) ∧ e.2 = value := by
  induction entries with
  | nil =>
    obtain rfl := List.mem_singleton.mp h
    exact .inr ⟨.inl rfl, rfl⟩
  | cons f entries ih =>
    obtain ⟨k, v⟩ := f
    rw [put] at h
    split at h
    · next hsame =>
      rcases List.mem_cons.mp h with rfl | hmem
      · exact .inr ⟨.inr ⟨List.mem_cons_self, hsame⟩, rfl⟩
      · exact .inl (List.mem_cons_of_mem _ hmem)
    · rcases List.mem_cons.mp h with rfl | hmem
      · exact .inl List.mem_cons_self
      · exact (ih hmem).imp (List.mem_cons_of_mem _)
          (And.imp_left (Or.imp_right (And.imp_left (List.mem_cons_of_mem _))))

/-- Putting a value where it is already found changes nothing. -/
theorem put_eq_self (h : entries.find? key = some value) : entries.put key value = entries := by
  induction entries with
  | nil => cases h
  | cons e entries ih =>
    obtain ⟨k, v⟩ := e
    rw [find?] at h
    rw [put]
    split at h
    · next hsame => rw [if_pos hsame, Option.some.inj h]
    · next hnot => rw [if_neg hnot, ih h]

/-- What is put under a key is found under what is the same, and under nothing else, if the keys
agree. -/
theorem find?_put {l : Value} (h : ∀ e ∈ entries, e.1.Agree l key) :
    (entries.put l value).find? key = if l.same key then some value else entries.find? key := by
  induction entries with
  | nil => rfl
  | cons e entries ih =>
    obtain ⟨k, v⟩ := e
    obtain ⟨hagree, hentries⟩ := List.forall_mem_cons.mp h
    rw [put, find?]
    by_cases hkl : k.same l = true
    · rw [if_pos hkl, find?, hagree.congr hkl]
      split <;> rfl
    · rw [if_neg hkl, find?, ih hentries]
      by_cases hkey : k.same key = true
      · have hnot : ¬l.same key = true := fun hl => hkl (hagree.joins hkey hl)
        rw [if_pos hkey, if_neg hnot, if_pos hkey]
      · rw [if_neg hkey, if_neg hkey]

theorem find?_congr {l : Value} (h : ∀ e ∈ entries, e.1.Agree l key) (hsame : l.same key = true) :
    entries.find? l = entries.find? key := by
  induction entries with
  | nil => rfl
  | cons e entries ih =>
    obtain ⟨k, v⟩ := e
    obtain ⟨hagree, hentries⟩ := List.forall_mem_cons.mp h
    have hk : k.same l = k.same key := by
      rw [Bool.eq_iff_iff]
      exact ⟨fun hkl => (hagree.congr hkl).trans hsame, fun hkey => hagree.joins hkey hsame⟩
    rw [find?, find?, hk, ih hentries]

/-- A key that occurs keeps its place, and a new one comes last. -/
theorem keys_put (key value : Value) (entries : Entries) :
    (entries.put key value).map (·.1) =
      entries.map (·.1) ++ if entries.has key then [] else [key] := by
  cases hhas : entries.has key with
  | false =>
    rw [put_of_not_same (has_eq_false.mp hhas), List.map_append]
    rfl
  | true =>
    rw [if_pos rfl, List.append_nil]
    induction entries with
    | nil => cases hhas
    | cons e entries ih =>
      obtain ⟨k, v⟩ := e
      rw [put]
      cases hk : k.same key with
      | true => rfl
      | false =>
        rw [has, find?, if_neg (hk ▸ Bool.false_ne_true)] at hhas
        rw [if_neg Bool.false_ne_true, List.map_cons, ih hhas, List.map_cons]

theorem put_append_of_has {entries' : Entries} (h : entries.has key = true) :
    put key value (entries ++ entries') = put key value entries ++ entries' := by
  induction entries with
  | nil => cases h
  | cons e entries ih =>
    obtain ⟨k, v⟩ := e
    rw [List.cons_append, put, put]
    by_cases hk : k.same key = true
    · rw [if_pos hk, if_pos hk, List.cons_append]
    · rw [has, find?, if_neg hk] at h
      rw [if_neg hk, if_neg hk, ih h, List.cons_append]

/-- Putting a value under a text that occurs replaces the one value there. -/
theorem put_str (hkeys : (entries.map (·.1)).Pairwise Value.Apart) {t : Text}
    (h : entries.has (.str t) = true) :
    entries.put (.str t) value = entries.map fun e => if e.1 = .str t then (e.1, value) else e := by
  induction entries with
  | nil => cases h
  | cons e entries ih =>
    obtain ⟨k, v⟩ := e
    rw [List.map_cons, List.pairwise_cons] at hkeys
    rw [put, List.map_cons]
    by_cases hk : k = .str t
    · have hrest : ∀ e ∈ entries, (if e.1 = .str t then (e.1, value) else e) = e := fun e he =>
        if_neg (hkeys.1 _ (List.mem_map_of_mem he) t hk)
      rw [if_pos (Value.same_str.mpr hk), List.map_congr_left hrest, List.map_id', if_pos hk]
    · have hk' : ¬ k.same (.str t) = true := fun hsame => hk (Value.same_str.mp hsame)
      rw [has, find?, if_neg hk'] at h
      rw [if_neg hk', ih hkeys.2 h, if_neg hk]

theorem differ_put (h : (entries.map (·.1)).Pairwise Value.Differ) :
    ((entries.put key value).map (·.1)).Pairwise Value.Differ := by
  rw [keys_put]
  cases hhas : entries.has key with
  | true => rwa [if_pos rfl, List.append_nil]
  | false =>
    refine List.pairwise_append.mpr ⟨h, List.pairwise_singleton _ _, fun k hk l hl => ?_⟩
    obtain rfl := List.mem_singleton.mp hl
    obtain ⟨e, he, rfl⟩ := List.mem_map.mp hk
    exact has_eq_false.mp hhas e he

/-- What holds when nothing has been put and is kept when a pair is put holds of what arises when
pairs are put one after the other. -/
theorem ofPairs_induction {P : Entries → Prop} {pairs : List (Value × Value)} (hnil : P [])
    (hput : ∀ entries, P entries → ∀ pair ∈ pairs, P (entries.put pair.1 pair.2)) :
    P (ofPairs pairs) :=
  List.foldlRecOn pairs _ hnil hput

end Entries

end ApiLint
