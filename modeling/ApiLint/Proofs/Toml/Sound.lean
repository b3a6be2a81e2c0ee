import ApiLint.Proofs.Except
import ApiLint.Proofs.Value.Keyed
import ApiLint.Toml.Reader

/-! What is read from TOML is sound: a table never has a key twice, since an entry is added only under
a key that has none, and every other change replaces the value that was under its key. -/
namespace ApiLint.Toml

/-! ### Values without parts -/

theorem isScalar_of_readBased? {cs rest : List Char} {v : Value}
    (h : readBased? cs = some (v, rest)) : v.isScalar = true := by
  unfold readBased? at h
  split at h
  · obtain ⟨_, -, heq⟩ := Option.map_eq_some_iff.mp h
    cases heq
    rfl
  · obtain ⟨_, -, heq⟩ := Option.map_eq_some_iff.mp h
    cases heq
    rfl
  · obtain ⟨_, -, heq⟩ := Option.map_eq_some_iff.mp h
    cases heq
    rfl
  · cases h

theorem isScalar_of_readNamed? {cs rest : List Char} {v : Value}
    (h : readNamed? cs = some (v, rest)) : v.isScalar = true := by
  unfold readNamed? at h
  split at h
  · cases h
    rfl
  · cases h
    rfl
  · cases h

theorem isScalar_of_readDecimal? {cs rest : List Char} {v : Value}
    (h : readDecimal? cs = some (.ok (v, rest))) : v.isScalar = true := by
  unfold readDecimal? at h
  obtain ⟨⟨whole, rest'⟩, -, h⟩ := Option.bind_eq_some_iff.mp h
  simp only at h
  split at h
  · split at h
    · cases h
    · cases h
      rfl
  · cases h
    rfl

theorem isScalar_of_readMoment? {cs rest : List Char} {v : Value}
    (h : readMoment? cs = some (.ok (v, rest))) : v.isScalar = true := by
  unfold readMoment? at h
  obtain ⟨⟨date, rest'⟩, -, h⟩ := Option.bind_eq_some_iff.mp h
  simp only at h
  split at h
  · cases h
  · split at h
    · cases h
      rfl
    · split at h
      · cases h
        rfl
      · cases h
        rfl

theorem orElse_eq_some {α : Type} {x y : Option α} {a : α} (h : (x <|> y) = some a) :
    x = some a ∨ y = some a := by
  cases x with
  | none => exact .inr h
  | some b => exact .inl h

/-- Values without parts: a word, a moment, or a number in one of its forms. -/
theorem isScalar_of_readSimple? {cs rest : List Char} {v : Value}
    (h : readSimple? cs = some (.ok (v, rest))) : v.isScalar = true := by
  unfold readSimple? at h
  split at h
  · cases h
    rfl
  · cases h
    rfl
  rcases orElse_eq_some h with h | h
  · obtain ⟨r, -, h⟩ := Option.map_eq_some_iff.mp h
    obtain ⟨_, -, heq⟩ := Except.map_eq_ok.mp h
    cases heq
    rfl
  rcases orElse_eq_some h with h | h
  · exact isScalar_of_readMoment? h
  rcases orElse_eq_some h with h | h
  · obtain ⟨_, -, heq⟩ := Option.map_eq_some_iff.mp h
    cases heq
    rfl
  rcases orElse_eq_some h with h | h
  · obtain ⟨_, hbased, heq⟩ := Option.map_eq_some_iff.mp h
    cases heq
    exact isScalar_of_readBased? hbased
  rcases orElse_eq_some h with h | h
  · exact isScalar_of_readDecimal? h
  · obtain ⟨_, hnamed, heq⟩ := Option.map_eq_some_iff.mp h
    cases heq
    exact isScalar_of_readNamed? hnamed

/-! ### Tables -/

/-- A change that keeps tables sound, where it succeeds. -/
def Keeps (change : Entries → Option Entries) : Prop :=
  ∀ entries entries', (Value.map entries).IsSound → change entries = some entries' →
    (Value.map entries').IsSound

theorem keeps_addNew (part : String) {v : Value} (hv : v.IsSound) : Keeps (addNew part v) := by
  intro entries entries' h hchange
  unfold addNew at hchange
  simp only at hchange
  split at hchange
  · cases hchange
  · cases hchange
    exact h.put hv

theorem keeps_addTable (part : String) : Keeps (addTable part) := by
  intro entries entries' h hchange
  unfold addTable at hchange
  simp only at hchange
  split at hchange
  · cases hchange
    exact h.put (.list (List.forall_mem_singleton.mpr Value.IsSound.empty))
  · next items hfind =>
    cases hchange
    refine h.put (.list (List.forall_mem_append.mpr ⟨fun v => (h.find? hfind).item, ?_⟩))
    exact List.forall_mem_singleton.mpr Value.IsSound.empty
  · cases hchange

/-- A change at a path keeps tables sound if the change at its end does; induction on the path. -/
theorem keeps_changeAt (arrays : Bool) {change : Entries → Option Entries} (hchange : Keeps change)
    (path : List String) : Keeps (changeAt arrays change path) := by
  induction path with
  | nil => exact hchange
  | cons part path ih =>
    intro entries entries' h hentries
    unfold changeAt at hentries
    simp only at hentries
    split at hentries
    · obtain ⟨table, htable, heq⟩ := Option.bind_eq_some_iff.mp hentries
      cases heq
      exact h.put (ih _ _ .empty htable)
    · next table hfind =>
      obtain ⟨table', htable, heq⟩ := Option.bind_eq_some_iff.mp hentries
      cases heq
      exact h.put (ih _ _ (h.find? hfind) htable)
    · next items hfind =>
      have hitems := h.find? hfind
      split at hentries
      · next table hlast =>
        split at hentries
        · obtain ⟨table', htable, heq⟩ := Option.bind_eq_some_iff.mp hentries
          cases heq
          have hnew := ih _ _ (hitems.item (List.mem_of_getLast? hlast)) htable
          refine h.put (.list (List.forall_mem_append.mpr
            ⟨fun v hv => hitems.item ((List.dropLast_sublist items).subset hv), ?_⟩))
          exact List.forall_mem_singleton.mpr hnew
        · cases hentries
      · cases hentries
    · cases hentries

/-! ### Values with parts -/

theorem isSound_add {key : List String} {v : Value} {table table' : Inline} (hv : v.IsSound)
    (htable : (Value.map table.entries).IsSound) (h : table.add key v = .ok table') :
    (Value.map table'.entries).IsSound := by
  unfold Inline.add at h
  split at h
  · cases h
  · split at h
    · cases h
    · split at h
      · cases h
      · next hentries =>
        cases h
        exact keeps_changeAt false (keeps_addNew _ hv) _ _ _ htable hentries

def ItemSound (fuel : Nat) : Prop :=
  ∀ cs v rest, readItem fuel cs = .ok (v, rest) → v.IsSound

def ArraySound (fuel : Nat) : Prop :=
  ∀ cs items rest, readArray fuel cs = .ok (items, rest) → ∀ v ∈ items, v.IsSound

/-- Whether a sound table stays one when the rest of it is read. -/
def InlineSound (fuel : Nat) : Prop :=
  ∀ table cs entries rest, (Value.map table.entries).IsSound →
    readInline fuel table cs = .ok (entries, rest) → (Value.map entries).IsSound

section Step
variable {fuel : Nat}

/-- One step of the induction: an item. -/
theorem readItem_sound (harray : ArraySound fuel) (hinline : InlineSound fuel) :
    ItemSound (fuel + 1) := by
  intro cs v rest h
  unfold readItem at h
  split at h
  · split at h
    · cases h
    · cases h
      exact .list (List.forall_mem_nil _)
    · obtain ⟨⟨items, rest'⟩, hitems, heq⟩ := Except.map_eq_ok.mp h
      cases heq
      exact .list (harray _ _ _ hitems)
  · split at h
    · cases h
      exact .empty
    · obtain ⟨⟨entries, rest'⟩, hentries, heq⟩ := Except.map_eq_ok.mp h
      cases heq
      exact hinline _ _ _ _ .empty hentries
  · cases hsimple : readSimple? cs with
    | none =>
      rw [hsimple] at h
      cases h
    | some r =>
      rw [hsimple] at h
      obtain rfl : r = .ok (v, rest) := h
      exact .scalar (isScalar_of_readSimple? hsimple)

/-- One step of the induction: an array. -/
theorem readArray_sound (hvalue : ItemSound fuel) (hmore : ArraySound fuel) :
    ArraySound (fuel + 1) := by
  intro cs items rest h
  unfold readArray at h
  obtain ⟨⟨item, rest'⟩, hitem, h⟩ := Except.bind_eq_ok.mp h
  have hsound := hvalue _ _ _ hitem
  obtain ⟨after, -, h⟩ := Except.bind_eq_ok.mp h
  split at h
  · cases h
    exact List.forall_mem_singleton.mpr hsound
  · obtain ⟨next, -, h⟩ := Except.bind_eq_ok.mp h
    split at h
    · cases h
      exact List.forall_mem_singleton.mpr hsound
    · obtain ⟨⟨items', rest''⟩, hitems, h⟩ := Except.bind_eq_ok.mp h
      cases h
      exact List.forall_mem_cons.mpr ⟨hsound, hmore _ _ _ hitems⟩
  · cases h

/-- One step of the induction: a table on one line. -/
theorem readInline_sound (hvalue : ItemSound fuel) (hmore : InlineSound fuel) :
    InlineSound (fuel + 1) := by
  intro table cs entries rest htable h
  unfold readInline at h
  obtain ⟨⟨key, rest'⟩, -, h⟩ := Except.bind_eq_ok.mp h
  split at h
  · obtain ⟨⟨v, rest''⟩, hv, h⟩ := Except.bind_eq_ok.mp h
    obtain ⟨table', htable', h⟩ := Except.bind_eq_ok.mp h
    have hsound := isSound_add (hvalue _ _ _ hv) htable htable'
    split at h
    · cases h
      exact hsound
    · exact hmore _ _ _ _ hsound h
    · cases h
  · cases h

end Step

theorem readers_sound (fuel : Nat) : ItemSound fuel ∧ ArraySound fuel ∧ InlineSound fuel := by
  induction fuel with
  | zero => exact ⟨nofun, nofun, nofun⟩
  | succ fuel ih =>
    obtain ⟨hitem, harray, hinline⟩ := ih
    exact ⟨readItem_sound harray hinline, readArray_sound hitem harray,
      readInline_sound hitem hinline⟩

/-! ### Lines -/

namespace Progress

/-- The tables that the lines so far have made are sound. -/
def IsSound (p : Progress) : Prop :=
  (Value.map p.entries).IsSound

variable {p p' : Progress}

theorem isSound_openTable {key : List String} (hp : p.IsSound) (h : p.openTable key = .ok p') :
    p'.IsSound := by
  unfold openTable at h
  split at h
  · cases h
  · split at h
    · cases h
    · next hentries =>
      cases h
      refine keeps_changeAt true (fun entries entries' hsound heq => ?_) key _ _ hp hentries
      exact Option.some.inj heq ▸ hsound

theorem isSound_addTable {key : List String} (hp : p.IsSound) (h : p.addTable key = .ok p') :
    p'.IsSound := by
  unfold addTable at h
  split at h
  · cases h
  · split at h
    · cases h
    · split at h
      · cases h
      · next hentries =>
        cases h
        exact keeps_changeAt true (keeps_addTable _) _ _ _ hp hentries

theorem isSound_addEntry {key : List String} {v : Value} (hv : v.IsSound) (hp : p.IsSound)
    (h : p.addEntry key v = .ok p') : p'.IsSound := by
  unfold addEntry at h
  simp only at h
  split at h
  · cases h
  · split at h
    · cases h
    · split at h
      · cases h
      · next hentries =>
        cases h
        exact keeps_changeAt true (keeps_addNew _ hv) _ _ _ hp hentries

theorem isSound_headerLine {change : List String → Progress → Except Fault Progress}
    (hchange : ∀ key p p', p.IsSound → change key p = .ok p' → p'.IsSound) {close cs rest : List Char}
    (hp : p.IsSound) (h : headerLine change close cs p = .ok (p', rest)) : p'.IsSound := by
  unfold headerLine at h
  obtain ⟨⟨key, rest'⟩, -, h⟩ := Except.bind_eq_ok.mp h
  obtain ⟨p'', hp'', h⟩ := Except.bind_eq_ok.mp h
  have hsound : p''.IsSound := hchange key p.endSection p'' hp hp''
  split at h
  · cases h
    exact hsound
  · cases h

/-- A statement keeps the tables sound, be it a header or an entry. -/
theorem isSound_statement {cs rest : List Char} (hp : p.IsSound)
    (h : p.statement cs = .ok (p', rest)) : p'.IsSound := by
  unfold statement at h
  split at h
  · exact isSound_headerLine (fun _ _ _ => isSound_addTable) hp h
  · exact isSound_headerLine (fun _ _ _ => isSound_openTable) hp h
  · split at h
    · obtain ⟨⟨key, rest'⟩, -, h⟩ := Except.bind_eq_ok.mp h
      split at h
      · obtain ⟨⟨v, rest''⟩, hv, h⟩ := Except.bind_eq_ok.mp h
        obtain ⟨p'', hp'', h⟩ := Except.bind_eq_ok.mp h
        cases h
        exact isSound_addEntry ((readers_sound _).1 _ _ _ hv) hp hp''
      · cases h
    · cases h
      exact hp
  · cases h
    exact hp

/-- So does the whole text, statement by statement. -/
theorem isSound_run {fuel : Nat} {cs : List Char} (hp : p.IsSound) (h : run fuel cs p = .ok p') :
    p'.IsSound := by
  induction fuel generalizing cs p with
  | zero => cases h
  | succ fuel ih =>
    unfold run at h
    obtain ⟨⟨p'', rest⟩, hp'', h⟩ := Except.bind_eq_ok.mp h
    have hsound := isSound_statement hp hp''
    obtain ⟨after, -, h⟩ := Except.bind_eq_ok.mp h
    split at h
    · cases h
      exact hsound
    · exact ih hsound h
    · cases h

end Progress

theorem read_isSound {cs : List Char} {v : Value} (h : read cs = .ok v) : v.IsSound := by
  have hnone : ({} : Progress).IsSound := Value.IsSound.empty
  obtain ⟨p, hp, heq⟩ := Except.bind_eq_ok.mp h
  cases heq
  exact Progress.isSound_run hnone hp

end ApiLint.Toml
