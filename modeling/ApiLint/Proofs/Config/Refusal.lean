import ApiLint.Proofs.Config.Loading

/-! Which configurations are refused. What a configuration file says is checked before it is laid over
the defaults, and it is refused with the complaints about it. But a value that counts as absent is
taken for an empty mapping before the check: an empty list, an empty text, zero and `false` have a
complaint, and are loaded all the same (`load_refuses_iff`). -/
namespace ApiLint.Config

variable {env : Environment} {disk : Disk} {explicit start : Option Path} {path : Path} {v : Value}

/-! ### Values that count as absent -/

def rootComplaint (v : Value) : Text :=
  "<root>: " ++ v.literal ++ " is not of type 'object'"

theorem opened_of_absent (h : v.isTruthy = false) : v.opened = v := by
  cases v with
  | loop label body => cases h
  | _ => rfl

theorem writableLimit_pos : 0 < Value.writableLimit := by
  have h : ∀ n, 0 < Numeral.tenTo n := fun n => Nat.pow_pos (by decide)
  exact h _

/-- What counts as absent holds no number that is too long to be written. -/
theorem hasLongNumeral_of_absent (h : v.isTruthy = false) : v.hasLongNumeral = false := by
  cases v with
  | int n =>
    obtain rfl : n = 0 := by simpa [Value.isTruthy] using h
    exact decide_eq_false (Nat.not_le.mpr writableLimit_pos)
  | list items | tuple items | set items =>
    obtain rfl : items = [] := by simpa [Value.isTruthy] using h
    rfl
  | map entries =>
    obtain rfl : entries = [] := by simpa [Value.isTruthy] using h
    rfl
  | loop label body => cases h
  | _ => rfl

/-- What is empty but no mapping has one problem, that of not being a mapping. -/
theorem problems_of_absent (h : v.isTruthy = false) (hmap : v ≠ .map []) :
    problems v = [⟨[], .notMapping v⟩] := by
  have hne : ∀ entries, v ≠ .map entries := by
    rintro entries rfl
    obtain rfl : entries = [] := by simpa [Value.isTruthy] using h
    exact hmap rfl
  have hschema : schema.problems v = [⟨[], .notMapping v⟩] := by
    rw [schema, Schema.problems, opened_of_absent h]
    cases v with
    | map entries => exact absurd rfl (hne entries)
    | _ => rfl
  rw [problems, hschema, List.mergeSort_singleton]

/-- About what counts as absent and is no mapping there is one complaint. -/
theorem complaints_of_absent (h : v.isTruthy = false) (hmap : v ≠ .map []) :
    complaints v = .ok [rootComplaint v] := by
  have hwritable : Problem.isWritable ⟨[], .notMapping v⟩ = true := by
    rw [Problem.isWritable, Offence.shown, List.nil_append, List.any_cons,
      hasLongNumeral_of_absent h]
    rfl
  rw [complaints, problems_of_absent h hmap]
  simp only [List.all_cons, hwritable, List.all_nil, Bool.and_self, if_true, List.map_cons,
    List.map_nil]
  rfl

/-! ### What is refused -/

theorem load_of_absent (h : Reads env disk explicit start path v) (habsent : v.isTruthy = false) :
    load env disk explicit start = .ok ⟨defaults, some path⟩ := by
  rw [h.load_eq, habsent, if_neg Bool.false_ne_true, ofOverride_empty]

/-- What is laid over the defaults is refused with the complaints about it, and only with these. -/
theorem ofOverride_refuses_iff (hv : v.IsSound) (source : Option Path) (problems : List Text) :
    ofOverride source v = .error (.invalidConfig problems) ↔
      complaints v = .ok problems ∧ problems ≠ [] := by
  cases hcomplaints : complaints v with
  | error e =>
    obtain rfl := eq_tooLarge_of_complaints hcomplaints
    rw [ofOverride, hcomplaints]
    constructor
    · intro h
      cases h
    · intro h
      cases h.1
  | ok found =>
    cases found with
    | nil =>
      obtain ⟨merged, hmerged⟩ := exists_merges hv hcomplaints
      rw [hmerged.ofOverride hcomplaints source]
      constructor
      · intro h
        cases h
      · intro h
        exact absurd (Except.ok.inj h.1).symm h.2
    | cons problem found =>
      rw [ofOverride, hcomplaints]
      constructor
      · intro h
        cases h
        exact ⟨rfl, List.cons_ne_nil _ _⟩
      · rintro ⟨h, -⟩
        cases h
        rfl

/-- **Which configurations are refused.** What a file says is refused exactly when it counts as present
and there are complaints about it, and these are the problems then. So a refusal tells whether there are
complaints unless the value counts as absent and is no mapping; such a value has a complaint, and the
defaults are loaded in its place as the configuration of that file. -/
theorem load_refuses_iff (h : Reads env disk explicit start path v) :
    (∀ problems, load env disk explicit start = .error (.invalidConfig problems) ↔
        v.isTruthy = true ∧ complaints v = .ok problems ∧ problems ≠ []) ∧
      ((∀ problems, load env disk explicit start = .error (.invalidConfig problems) ↔
        complaints v = .ok problems ∧ problems ≠ []) ↔ v.isTruthy = true ∨ v = .map []) ∧
      (v.isTruthy = false → v ≠ .map [] → complaints v = .ok [rootComplaint v] ∧
        load env disk explicit start = .ok ⟨defaults, some path⟩) := by
  have hrefuses : ∀ problems, load env disk explicit start = .error (.invalidConfig problems) ↔
      v.isTruthy = true ∧ complaints v = .ok problems ∧ problems ≠ [] := by
    intro problems
    cases hv : v.isTruthy with
    | true =>
      rw [h.load_eq, hv, if_pos rfl, ofOverride_refuses_iff h.isSound]
      exact (and_iff_right rfl).symm
    | false =>
      rw [load_of_absent h hv]
      constructor
      · intro h
        cases h
      · intro h
        cases h.1
  refine ⟨hrefuses, ?_, fun habsent hmap =>
    ⟨complaints_of_absent habsent hmap, load_of_absent h habsent⟩⟩
  simp only [hrefuses]
  constructor
  · intro htells
    by_contra hnot
    obtain ⟨habsent, hmap⟩ := not_or.mp hnot
    have hcomplaints := complaints_of_absent (Bool.eq_false_iff.mpr habsent) hmap
    exact habsent ((htells _).mpr ⟨hcomplaints, List.cons_ne_nil _ _⟩).1
  · rintro (hpresent | rfl) problems
    · exact and_iff_right hpresent
    · constructor
      · exact And.right
      · rintro ⟨hcomplaints, hne⟩
        rw [complaints_empty] at hcomplaints
        exact absurd (Except.ok.inj hcomplaints).symm hne

/-- A text that is no mapping is refused with one complaint. -/
theorem load_refuses_iff_sample :
    ∃ v, Reads [] (lonelyDisk ".pvarc.json" (Text.bytes "\"off\"")) none none
        ⟨1, [".pvarc.json"]⟩ v ∧
      load [] (lonelyDisk ".pvarc.json" (Text.bytes "\"off\"")) none none =
        .error (.invalidConfig ["<root>: 'off' is not of type 'object'"]) := by
  have hfound : (discover (lonelyDisk ".pvarc.json" (Text.bytes "\"off\"")) none).holds (fun found =>
      found.any fun f => f.1 = ⟨1, [".pvarc.json"]⟩ && (f.2.isTruthy &&
        (complaints f.2).holds fun (problems : List Text) =>
          problems = ["<root>: 'off' is not of type 'object'"])) = true := by
    decide +kernel
  obtain ⟨found, hdiscover, hany⟩ := Except.exists_of_holds hfound
  obtain ⟨⟨path, v⟩, rfl, hf⟩ := (Option.any_eq_true _ _).mp hany
  obtain ⟨hpath, hv⟩ := Bool.and_eq_true_iff.mp hf
  obtain ⟨hpresent, hcomplaints⟩ := Bool.and_eq_true_iff.mp hv
  obtain rfl := of_decide_eq_true hpath
  obtain ⟨problems, hcomplaints, hproblems⟩ := Except.exists_of_holds hcomplaints
  obtain rfl := of_decide_eq_true hproblems
  have hreads : Reads [] (lonelyDisk ".pvarc.json" (Text.bytes "\"off\"")) none none
      ⟨1, [".pvarc.json"]⟩ v := .found rfl hdiscover
  exact ⟨v, hreads, ((load_refuses_iff hreads).1 _).mpr
    ⟨hpresent, hcomplaints, List.cons_ne_nil _ _⟩⟩

/-- **Files with a complaint that are loaded all the same**: an empty list that was found, and a zero in
a file that was named. -/
theorem load_accepts_absent :
    (∃ v, Reads [] (lonelyDisk ".pvarc.json" (Text.bytes "[]")) none none ⟨1, [".pvarc.json"]⟩ v ∧
      complaints v = .ok ["<root>: [] is not of type 'object'"] ∧
      load [] (lonelyDisk ".pvarc.json" (Text.bytes "[]")) none none =
        .ok ⟨defaults, some ⟨1, [".pvarc.json"]⟩⟩) ∧
    ∃ v, Reads [] (lonelyDisk "pva.yaml" (Text.bytes "0\n")) (some ⟨0, ["pva.yaml"]⟩) none
        ⟨0, ["pva.yaml"]⟩ v ∧
      complaints v = .ok ["<root>: 0 is not of type 'object'"] ∧
      load [] (lonelyDisk "pva.yaml" (Text.bytes "0\n")) (some ⟨0, ["pva.yaml"]⟩) none =
        .ok ⟨defaults, some ⟨0, ["pva.yaml"]⟩⟩ := by
  constructor
  · have hfound : (discover (lonelyDisk ".pvarc.json" (Text.bytes "[]")) none).holds (fun found =>
        found.any fun f => f.1 = ⟨1, [".pvarc.json"]⟩ && (!f.2.isTruthy &&
          (complaints f.2).holds fun (problems : List Text) =>
            problems = ["<root>: [] is not of type 'object'"])) = true := by
      decide +kernel
    obtain ⟨found, hdiscover, hany⟩ := Except.exists_of_holds hfound
    obtain ⟨⟨path, v⟩, rfl, hf⟩ := (Option.any_eq_true _ _).mp hany
    obtain ⟨hpath, hv⟩ := Bool.and_eq_true_iff.mp hf
    obtain ⟨habsent, hcomplaints⟩ := Bool.and_eq_true_iff.mp hv
    obtain rfl := of_decide_eq_true hpath
    obtain ⟨problems, hcomplaints, hproblems⟩ := Except.exists_of_holds hcomplaints
    obtain rfl := of_decide_eq_true hproblems
    exact ⟨v, .found rfl hdiscover, hcomplaints,
      load_of_absent (.found rfl hdiscover) (Bool.eq_false_of_not_eq_true' habsent)⟩
  · have hfound : (ofFile (lonelyDisk "pva.yaml" (Text.bytes "0\n")) ⟨0, ["pva.yaml"]⟩).holds
        (fun found => found.any fun v => !v.isTruthy &&
          (complaints v).holds fun (problems : List Text) =>
            problems = ["<root>: 0 is not of type 'object'"]) = true := by
      decide +kernel
    obtain ⟨found, hcontent, hany⟩ := Except.exists_of_holds hfound
    obtain ⟨v, rfl, hv⟩ := (Option.any_eq_true _ _).mp hany
    obtain ⟨habsent, hcomplaints⟩ := Bool.and_eq_true_iff.mp hv
    obtain ⟨problems, hcomplaints, hproblems⟩ := Except.exists_of_holds hcomplaints
    obtain rfl := of_decide_eq_true hproblems
    exact ⟨v, .named rfl hcontent, hcomplaints,
      load_of_absent (.named rfl hcontent) (Bool.eq_false_of_not_eq_true' habsent)⟩

end ApiLint.Config
