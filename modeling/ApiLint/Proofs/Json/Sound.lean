import ApiLint.Json.Reader
import ApiLint.Proofs.Except
import ApiLint.Proofs.Value.Keyed

/-! What is read from JSON is sound: a name that comes up again replaces the value it had. -/
namespace ApiLint.Json

theorem isScalar_of_readNumber? {negative : Bool} {body rest : List Char} {v : Value}
    (h : readNumber? negative body = some (.ok v, rest)) : v.isScalar = true := by
  unfold readNumber? at h
  simp only at h
  repeat' split at h
  all_goals first | (cases h; done) | (cases h; rfl)

theorem isScalar_of_names : ∀ name ∈ names, name.2.isScalar = true := by
  simp [names, Value.isScalar]

theorem isScalar_of_readScalar? {cs rest : List Char} {v : Value}
    (h : readScalar? cs = some (.ok v, rest)) : v.isScalar = true := by
  unfold readScalar? at h
  split at h
  · next hname =>
    cases h
    exact isScalar_of_names _ (List.mem_of_find?_eq_some hname)
  · split at h
    · exact isScalar_of_readNumber? h
    · exact isScalar_of_readNumber? h

theorem isScalar_of_readScalar {t rest : Text} {v : Value} (h : readScalar t = .ok (v, rest)) :
    v.isScalar = true := by
  unfold readScalar at h
  simp only at h
  split at h
  · cases h
  · cases h
  · next hscalar =>
    cases h
    exact isScalar_of_readScalar? hscalar

/-- What a reader gives has a property, whatever comes after it. -/
def Gives (P : Value → Prop) (r : Read Value) : Prop :=
  ∀ v rest, r = .ok (v, rest) → P v

/-- A property that texts and the other values without parts have as they are read, and lists and mappings
if all that is put into them has it. -/
structure Grows (P : Value → Prop) : Prop where
  str : ∀ s, P (.str s)
  scalar : ∀ t v rest, readScalar t = .ok (v, rest) → P v
  list : ∀ items, (∀ v ∈ items, P v) → P (.list items)
  map : ∀ pairs : Entries, (∀ e ∈ pairs, (∃ name, e.1 = .str name) ∧ P e.2) →
    P (.map (Entries.ofPairs pairs))

variable {P : Value → Prop}

theorem gives_error (stop : Stop) : Gives P (.error stop) := by
  intro v rest h
  cases h

theorem gives_ok {v : Value} {rest : Text} (h : P v) : Gives P (.ok (v, rest)) := by
  intro v' rest' heq
  cases heq
  exact h

theorem gives_readString (hP : Grows P) (start : Text) (rest : Text) :
    Gives P ((readString start none rest).map fun (s, rest) => (.str s, rest)) := by
  intro v rest' h
  obtain ⟨⟨s, rest⟩, -, heq⟩ := Except.map_eq_ok.mp h
  cases heq
  exact hP.str s

/-- Whatever the readers build from parts with a property has the property; one induction on the fuel
for values, items and members. -/
theorem readers_give (hP : Grows P) (fuel : Nat) :
    (∀ t, Gives P (readValue fuel t)) ∧
    (∀ before t, (∀ v ∈ before, P v) → Gives P (readItems fuel before t)) ∧
    (∀ before t, (∀ e ∈ before, (∃ name, e.1 = .str name) ∧ P e.2) →
      Gives P (readEntries fuel before t)) := by
  induction fuel with
  | zero => exact ⟨fun _ => gives_error _, fun _ _ _ => gives_error _, fun _ _ _ => gives_error _⟩
  | succ fuel ih =>
    obtain ⟨ihvalue, ihitems, ihentries⟩ := ih
    refine ⟨fun t => ?_, fun before t hbefore => ?_, fun before t hbefore => ?_⟩
    · unfold readValue
      split
      · exact gives_readString hP _ _
      · split
        · exact gives_ok (hP.map [] (List.forall_mem_nil _))
        · exact ihentries [] _ (List.forall_mem_nil _)
      · split
        · exact gives_ok (hP.list [] (List.forall_mem_nil _))
        · exact ihitems [] _ (List.forall_mem_nil _)
      · exact fun v rest h => hP.scalar _ v rest h
    · unfold readItems
      split
      · exact gives_error _
      · next v rest hv =>
        have hitems : ∀ x ∈ v :: before, P x :=
          List.forall_mem_cons.mpr ⟨ihvalue t v rest hv, hbefore⟩
        split
        · exact gives_ok (hP.list _ fun x hx => hitems x (List.mem_reverse.mp hx))
        · exact ihitems _ _ hitems
        · exact gives_error _
    · unfold readEntries
      split
      · exact gives_error _
      · next name rest hname =>
        split
        · exact gives_error _
        · next v rest' hv =>
          have hentries : ∀ e ∈ (.str name, v) :: before, (∃ name, e.1 = .str name) ∧ P e.2 :=
            List.forall_mem_cons.mpr ⟨⟨⟨name, rfl⟩, ihvalue rest v rest' hv⟩, hbefore⟩
          split
          · exact gives_ok (hP.map _ fun e he => hentries e (List.mem_reverse.mp he))
          · exact ihentries _ _ hentries
          · exact gives_error _

/-- What is read has every property that grows with the value. -/
theorem read_induction (hP : Grows P) {t : Text} {v : Value} (h : read t = .ok v) : P v := by
  have hall : readAll t = .ok v := Except.mapError_ok_iff.mp h
  unfold readAll at hall
  split at hall
  · cases hall
  · split at hall
    · cases hall
    · next v' rest hv =>
      split at hall
      · cases hall
        exact (readers_give hP _).1 _ _ _ hv
      · cases hall

theorem read_isSound {t : Text} {v : Value} (h : read t = .ok v) : v.IsSound :=
  read_induction {
    str := fun _ => .scalar rfl
    scalar := fun _ _ _ h => .scalar (isScalar_of_readScalar h)
    list := fun _ => .list
    map := fun _ hpairs => .ofPairs fun e he => (hpairs e he).2 } h

end ApiLint.Json
