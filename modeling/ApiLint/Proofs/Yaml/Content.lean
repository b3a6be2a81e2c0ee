import ApiLint.Proofs.Except
import ApiLint.Proofs.Value.Place
import ApiLint.Yaml.Content

/-! What a node is built from. When a node has a value, each of its parts has one, and the parts of
the value are the values of the parts, in their order. -/
namespace ApiLint.Yaml

section Built
variable {α β γ : Type}

theorem Built.below_eq_ok {b : Built α} {x : α} : b.below = .ok x ↔ b = .ok x :=
  Except.mapError_ok_iff

theorem Built.both_eq_ok {join : α → β → γ} {a : Built α} {b : Built β} {z : γ} :
    Built.both join a b = .ok z ↔ ∃ x y, a = .ok x ∧ b = .ok y ∧ join x y = z := by
  cases a <;> cases b <;> simp [Built.both]

theorem usableKey_eq_ok {key : Built Value} {k : Value} :
    usableKey key = .ok k ↔ key = .ok k ∧ k.isKey = true := by
  cases key with
  | error s => simp [usableKey]
  | ok v =>
    rw [usableKey]
    split
    · next h => exact ⟨fun hv => ⟨hv, Except.ok.inj hv ▸ h⟩, fun hv => hv.1⟩
    · next h => exact ⟨nofun, fun hv => absurd (Except.ok.inj hv.1 ▸ hv.2) h⟩

end Built

variable {document : Nat}

/-- The items of a sequence are built one by one. -/
theorem buildItems_eq_ok {items : List Node} {vs : List Value} :
    buildItems document items = .ok vs ↔
      List.Forall₂ (fun item v => build document item = .ok v) items vs := by
  induction items generalizing vs with
  | nil =>
    rw [buildItems, List.forall₂_nil_left_iff]
    exact ⟨fun h => (Except.ok.inj h).symm, fun h => h ▸ rfl⟩
  | cons item items ih =>
    rw [buildItems, Built.both_eq_ok, List.forall₂_cons_left_iff]
    constructor
    · intro hgiven
      obtain ⟨v, vs, hv, hvs, rfl⟩ := hgiven
      exact ⟨v, vs, Built.below_eq_ok.mp hv, ih.mp hvs, rfl⟩
    · intro hgiven
      obtain ⟨v, vs, hv, hvs, rfl⟩ := hgiven
      exact ⟨v, vs, Built.below_eq_ok.mpr hv, ih.mpr hvs, rfl⟩

/-- The entries of a mapping are built one by one, and each key must be usable. -/
theorem buildEntries_eq_ok {entries : List (Node × Node)} {pairs : List (Value × Value)} :
    buildEntries document entries = .ok pairs ↔
      List.Forall₂ (fun e q => (build document e.1 = .ok q.1 ∧ q.1.isKey = true) ∧
        build document e.2 = .ok q.2) entries pairs := by
  induction entries generalizing pairs with
  | nil =>
    rw [buildEntries, List.forall₂_nil_left_iff]
    exact ⟨fun h => (Except.ok.inj h).symm, fun h => h ▸ rfl⟩
  | cons e entries ih =>
    obtain ⟨key, value⟩ := e
    rw [buildEntries, Built.both_eq_ok, List.forall₂_cons_left_iff]
    constructor
    · intro hgiven
      obtain ⟨q, pairs, hq, hpairs, rfl⟩ := hgiven
      obtain ⟨k, v, hk, hv, rfl⟩ := Built.both_eq_ok.mp hq
      obtain ⟨hk, hkey⟩ := usableKey_eq_ok.mp hk
      exact ⟨(k, v), pairs, ⟨⟨Built.below_eq_ok.mp hk, hkey⟩, Built.below_eq_ok.mp hv⟩,
        ih.mp hpairs, rfl⟩
    · intro hgiven
      obtain ⟨⟨k, v⟩, pairs, ⟨⟨hk, hkey⟩, hv⟩, hpairs, rfl⟩ := hgiven
      refine ⟨(k, v), pairs, Built.both_eq_ok.mpr ⟨k, v, ?_, Built.below_eq_ok.mpr hv, rfl⟩,
        ih.mpr hpairs, rfl⟩
      exact usableKey_eq_ok.mpr ⟨Built.below_eq_ok.mpr hk, hkey⟩

/-- The value of a sequence without a tag is the list of the values of its items. -/
theorem build_sequence_eq_ok {head : Head} {items : List Node} {v : Value} (htag : head.tag = none) :
    build document (.sequence head items) = .ok v ↔
      ∃ vs, List.Forall₂ (fun item v => build document item = .ok v) items vs ∧ .list vs = v := by
  rw [build, htag]
  show (buildItems document items).map .list = .ok v ↔ _
  simp only [Except.map_eq_ok, buildItems_eq_ok]

/-- The value of a mapping without a tag is made of the values of its keys and their values. -/
theorem build_mapping_eq_ok {head : Head} {entries : List (Node × Node)} {v : Value}
    (htag : head.tag = none) :
    build document (.mapping head entries) = .ok v ↔
      ∃ pairs, List.Forall₂ (fun e q => (build document e.1 = .ok q.1 ∧ q.1.isKey = true) ∧
        build document e.2 = .ok q.2) entries pairs ∧ .map (Entries.ofPairs pairs) = v := by
  rw [build, htag]
  show (buildEntries document entries).map _ = .ok v ↔ _
  simp only [Except.map_eq_ok, buildEntries_eq_ok]

/-! ### Scalars -/

theorem readDecimal_part? {origin : Origin} {t : Text} {v : Value}
    (h : readDecimal origin t = .ok v) (s : Step) : v.part? s = none := by
  simp only [readDecimal] at h
  split at h
  · cases h
  · split at h
    · obtain rfl := Except.ok.inj h
      rfl
    · obtain ⟨x, -, rfl⟩ := Except.map_eq_ok.mp h
      split <;> rfl

theorem readBytes_part? {t : Text} {v : Value} (h : readBytes t = .ok v) (s : Step) :
    v.part? s = none := by
  simp only [readBytes] at h
  split at h
  · cases h
  · split at h
    · obtain rfl := Except.ok.inj h
      rfl
    · cases h

theorem readTime_part? {t : Text} {v : Value} (h : readTime t = .ok v) (s : Step) :
    v.part? s = none := by
  simp only [readTime] at h
  repeat' split at h
  all_goals cases h
  all_goals rfl

/-- The value of a scalar has no parts. -/
theorem scalarValue_part? {kind : Kind} {origin : Origin} {t : Text} {v : Value}
    (h : scalarValue kind origin t = .ok v) (s : Step) : v.part? s = none := by
  cases kind with
  | null => obtain rfl := Except.ok.inj h; rfl
  | str => obtain rfl := Except.ok.inj h; rfl
  | bool => obtain ⟨b, -, rfl⟩ := Except.map_eq_ok.mp h; rfl
  | int => obtain ⟨n, -, rfl⟩ := Except.map_eq_ok.mp h; rfl
  | float => exact readDecimal_part? h s
  | binary => exact readBytes_part? h s
  | timestamp => exact readTime_part? h s
  | _ => cases h

theorem build_scalar_eq_ok {head : Head} {text : Text} {v : Value}
    (h : build document (.scalar head text) = .ok v) :
    scalarValue (scalarKind head.tag text) (.scalar document head.mark.index) text = .ok v := by
  rw [build] at h
  split at h
  · cases h
  · exact Except.mapError_ok_iff.mp h

end ApiLint.Yaml
