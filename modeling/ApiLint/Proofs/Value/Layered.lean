import ApiLint.Proofs.Value.Frozen

/-! Values in layers: mappings one inside the other down to some depth, and below them values without
mappings. Keys lead through the mappings to a value (`under?`). -/
namespace ApiLint

namespace Value

/-! ### Places of keys -/

/-- The value to which keys lead through mappings. -/
def under? : List Value → Value → Option Value
  | [], v => some v
  | key :: place, map entries => (Entries.find? key entries).bind (under? place)
  | _ :: _, _ => none

/-- The entries of the mapping at a place; none where there is no mapping. -/
def entriesAt (place : List Value) (v : Value) : Entries :=
  match v.under? place with
  | some (map entries) => entries
  | _ => []

/-- The keys of the mapping at a place, in their order. -/
def namesAt (place : List Value) (v : Value) : List Value :=
  (v.entriesAt place).map (·.1)

theorem under?_cons (key : Value) (place : List Value) (entries : Entries) :
    (map entries).under? (key :: place) = (Entries.find? key entries).bind (under? place) := rfl

theorem namesAt_nil (entries : Entries) : (map entries).namesAt [] = entries.map (·.1) := rfl

theorem namesAt_cons (key : Value) (place : List Value) (entries : Entries) :
    (map entries).namesAt (key :: place) =
      ((Entries.find? key entries).map (namesAt place)).getD [] := by
  rw [namesAt, entriesAt, under?_cons]
  cases Entries.find? key entries <;> rfl

theorem under?_append (place place' : List Value) (v : Value) :
    v.under? (place ++ place') = (v.under? place).bind (under? place') := by
  induction place generalizing v with
  | nil => rfl
  | cons key place ih =>
    cases v with
    | map entries =>
      rw [List.cons_append, under?_cons, under?_cons, Option.bind_assoc]
      exact Option.bind_congr fun w _ => ih w
    | _ => rfl

/-- What stands under a text at a place is the value there. -/
theorem under?_of_mem_entriesAt {place : List Value} {v w : Value} {t : Text}
    (hkeys : (v.namesAt place).Pairwise Apart) (h : (.str t, w) ∈ v.entriesAt place) :
    v.under? (place ++ [.str t]) = some w := by
  rw [namesAt, entriesAt] at hkeys
  rw [entriesAt] at h
  rw [under?_append]
  split at h
  · next entries hat =>
    rw [hat] at hkeys
    rw [hat, Option.bind_some, under?_cons, (Entries.find?_str hkeys).mpr h]
    rfl
  · cases h

/-- The keys of a row, and after them the keys of another one that are new. -/
def withNew (keys more : List Value) : List Value :=
  keys ++ more.filter fun key => !keys.any (·.same key)

theorem withNew_nil (keys : List Value) : withNew keys [] = keys :=
  List.append_nil keys

theorem nil_withNew (keys : List Value) : withNew [] keys = keys :=
  List.filter_eq_self.mpr fun _ _ => rfl

/-- One key more: it is kept if it is new. -/
theorem withNew_cons {keys more : List Value} {key : Value} (h : ∀ l ∈ more, key.Differ l) :
    withNew keys (key :: more) =
      withNew (keys ++ if keys.any (·.same key) then [] else [key]) more := by
  rw [withNew, withNew, List.filter_cons]
  cases hany : keys.any (·.same key) with
  | true => rw [if_neg (by simp), if_pos rfl, List.append_nil]
  | false =>
    have hrest : ∀ l ∈ more, (!(keys ++ [key]).any (·.same l)) = !keys.any (·.same l) := by
      intro l hl
      rw [List.any_append, List.any_cons, h l hl, List.any_nil, Bool.or_false, Bool.or_false]
    rw [if_pos (Bool.not_false), if_neg Bool.false_ne_true, List.append_assoc, List.singleton_append,
      List.filter_congr hrest]

theorem IsSound.lookup {v key w : Value} (h : v.IsSound) (hw : v.lookup key = .ok (some w)) :
    w.IsSound := by
  unfold Value.lookup at hw
  split at hw
  · next entries heq =>
    have hopened : (map entries).IsSound := heq ▸ h.opened
    split at hw
    · exact hopened.find? (Except.ok.inj hw)
    · cases hw
  · cases hw

/-! ### Values without mappings -/

/-- A scalar, or a list of values without mappings. -/
inductive IsFlat : Value → Prop
  | scalar {v : Value} (h : v.isScalar = true) : IsFlat v
  | list {items : List Value} (h : ∀ v ∈ items, IsFlat v) : IsFlat (.list items)

namespace IsFlat

variable {v : Value}

theorem texts (ts : List Text) : (Value.texts ts).IsFlat := by
  refine .list fun v hv => ?_
  obtain ⟨t, -, rfl⟩ := List.mem_map.mp hv
  exact .scalar rfl

theorem keyed {R : Value → Value → Prop} (h : v.IsFlat) : v.Keyed R := by
  induction h with
  | scalar h => exact .scalar h
  | list _ ih => exact .list ih

theorem rowsAre (h : v.IsFlat) : v.RowsAre .list := by
  induction h with
  | scalar h => exact .scalar h
  | list _ ih => exact .rowOf ih

end IsFlat

/-! ### Layers -/

/-- Mappings one inside the other down to a depth, whose keys have a property, and below them values
without mappings that are not null. -/
def Layered (P : List Value → Prop) : Nat → Value → Prop
  | 0, v => v.IsFlat ∧ v ≠ .null
  | n + 1, v => ∃ entries, v = .map entries ∧ P (entries.map (·.1)) ∧ ∀ e ∈ entries, Layered P n e.2

/-- Keys that are different texts. -/
def AreNames (keys : List Value) : Prop :=
  ∃ names : List Text, names.Nodup ∧ keys = names.map .str

theorem AreNames.differ {keys : List Value} (h : AreNames keys) : keys.Pairwise Differ := by
  obtain ⟨names, hnames, rfl⟩ := h
  refine List.pairwise_map.mpr (hnames.imp fun hne => ?_)
  exact same_str_eq_false.mpr fun heq => hne (str.inj heq)

namespace Layered

variable {P Q : List Value → Prop} {R : Value → Value → Prop} {n : Nat} {v : Value}

theorem imp (h : ∀ keys, P keys → Q keys) (hv : v.Layered P n) : v.Layered Q n := by
  induction n generalizing v with
  | zero => exact hv
  | succ n ih =>
    obtain ⟨entries, rfl, hkeys, hentries⟩ := hv
    exact ⟨entries, rfl, h _ hkeys, fun e he => ih (hentries e he)⟩

theorem keys {entries : Entries} (hv : (Value.map entries).Layered P (n + 1)) :
    P (entries.map (·.1)) := by
  obtain ⟨_, heq, hkeys, -⟩ := hv
  exact map.inj heq ▸ hkeys

theorem entry {entries : Entries} (hv : (Value.map entries).Layered P (n + 1)) {e : Value × Value}
    (he : e ∈ entries) : e.2.Layered P n := by
  obtain ⟨_, heq, -, hentries⟩ := hv
  exact hentries e (map.inj heq ▸ he)

/-- What holds of the keys at every level holds at this one. -/
theorem namesAt (hP : P []) (hv : v.Layered P n) {place : List Value} (hplace : place.length < n) :
    P (v.namesAt place) := by
  induction n generalizing v place with
  | zero => exact absurd hplace (Nat.not_lt_zero _)
  | succ n ih =>
    obtain ⟨entries, rfl, hkeys, hentries⟩ := hv
    cases place with
    | nil => exact hkeys
    | cons key place =>
      rw [namesAt_cons]
      cases hfind : Entries.find? key entries with
      | none => exact hP
      | some w =>
        obtain ⟨_, hmem, -⟩ := Entries.exists_of_find? hfind
        exact ih (hentries _ hmem) (Nat.lt_of_succ_lt_succ hplace)

theorem ne_null (hv : v.Layered P n) : v ≠ .null := by
  cases n with
  | zero => exact hv.2
  | succ n =>
    obtain ⟨entries, rfl, -⟩ := hv
    exact Value.noConfusion

theorem keyed (hv : v.Layered (List.Pairwise R) n) : v.Keyed R := by
  induction n generalizing v with
  | zero => exact hv.1.keyed
  | succ n ih =>
    obtain ⟨entries, rfl, hkeys, hentries⟩ := hv
    exact .map hkeys fun e he => ih (hentries e he)

theorem rowsAre (hv : v.Layered P n) : v.RowsAre .list := by
  induction n generalizing v with
  | zero => exact hv.1.rowsAre
  | succ n ih =>
    obtain ⟨entries, rfl, -, hentries⟩ := hv
    exact .map fun e he => ih (hentries e he)

end Layered

end Value

end ApiLint
