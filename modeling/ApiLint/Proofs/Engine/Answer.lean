import ApiLint.Proofs.Equality
import ApiLint.Proofs.Json.Bounds
import ApiLint.Proofs.Lint.Typed

/-! What comes of the rule engine's answer. A list of items of the right kind gives typed findings, which
can always be merged and reported (`parse_settles`). A text that is no JSON, or no list, is refused in the
engine's name. Anything else is a list with an item of a wrong kind, or has a numeral that is too long: it
makes reading the answer fail in no one's name, or it passes and only a later step fails on it
(`parse_escapes`). -/
namespace ApiLint.Answer

variable {output : Text} {item : Value} {entries : Entries} {f : Finding} {fs : List Finding}
  {m : Misuse} {e : Failure}

def placeOf (entries : Entries) : Value := field entries "path" (.list [])

def levelOf (entries : Entries) : Value := field entries "severity" (.int 1)

def messageOf (entries : Entries) : Value := field entries "message" (.str "")

/-- An item of the right kind: its place is made of keys and indices, its message is a text, and its
severity is something that can be looked up. -/
inductive IsProper : Value → Prop
  | intro {entries : Entries} {steps : List Value}
      (hsteps : (placeOf entries).elements? = some steps) (htyped : ∀ s ∈ steps, s.IsStep)
      (hmessage : (messageOf entries).IsText) (hlevel : (levelOf entries).isKey = true) :
      IsProper (.map entries)

/-- What makes reading an item fail. -/
inductive Breaks : Value → Misuse → Prop
  | shape {v : Value} (h : ∀ entries, v ≠ .map entries) : Breaks v (.notMapping v.kindName "get")
  | place {entries : Entries} (h : (placeOf entries).elements? = none) :
      Breaks (.map entries) (.notIterable (placeOf entries).kindName)
  | level {entries : Entries} {steps : List Value}
      (hsteps : (placeOf entries).elements? = some steps) (h : (levelOf entries).isKey = false) :
      Breaks (.map entries) (.notKey (levelOf entries).kindName)

/-! ### Items -/

/-- What comes of an item that is a mapping; its place and its level can each be wrong in one way. -/
theorem finding_map (entries : Entries) :
    finding (.map entries) =
      match (placeOf entries).elements? with
      | none => .error (.notIterable (placeOf entries).kindName)
      | some steps =>
        if (levelOf entries).isKey then
          .ok ⟨steps, messageOf entries, (field entries "code" (.str "")).text,
            (levels.find? (levelOf entries)).getD (.str "warning")⟩
        else .error (.notKey (levelOf entries).kindName) := by
  show (steps (placeOf entries) >>= fun path => severity (levelOf entries) >>= fun _ => _) = _
  rw [steps, severity]
  cases (placeOf entries).elements? with
  | none => rfl
  | some steps => cases (levelOf entries).isKey <;> rfl

/-- An item makes a finding exactly if its place can be gone through and its level can be looked up. -/
theorem finding_eq_ok :
    finding item = .ok f ↔ ∃ entries steps, item = .map entries ∧
      (placeOf entries).elements? = some steps ∧ (levelOf entries).isKey = true ∧
      f = ⟨steps, messageOf entries, (field entries "code" (.str "")).text,
        (levels.find? (levelOf entries)).getD (.str "warning")⟩ := by
  constructor
  · intro h
    cases item with
    | map entries =>
      rw [finding_map] at h
      split at h
      · cases h
      · next steps hsteps =>
        split at h
        · next hkey => exact ⟨entries, steps, rfl, hsteps, hkey, (Except.ok.inj h).symm⟩
        · cases h
    | _ => cases h
  · rintro ⟨entries, steps, rfl, hsteps, hkey, rfl⟩
    rw [finding_map, hsteps]
    exact if_pos hkey

/-- An item fails in the order in which its fields are read. -/
theorem finding_eq_error : finding item = .error m ↔ Breaks item m := by
  constructor
  · intro h
    cases item with
    | map entries =>
      rw [finding_map] at h
      split at h
      · next hsteps =>
        obtain rfl := Except.error.inj h
        exact .place hsteps
      · next steps hsteps =>
        split at h
        · cases h
        · next hkey =>
          obtain rfl := Except.error.inj h
          exact .level hsteps (Bool.not_eq_true _ ▸ hkey)
    | _ =>
      obtain rfl := Except.error.inj h
      exact .shape nofun
  · intro h
    cases h with
    | shape hshape => cases item <;> first | rfl | exact absurd rfl (hshape _)
    | place hplace => rw [finding_map, hplace]
    | level hsteps hkey =>
      rw [finding_map, hsteps, hkey]
      rfl

/-- Every level that can be looked up stands for one of the severities. -/
theorem exists_severity (level : Value) :
    ∃ s : Severity, (levels.find? level).getD (.str "warning") = .str s.text := by
  cases h : levels.find? level with
  | none => exact ⟨.warning, rfl⟩
  | some v =>
    obtain ⟨k, hmem, -⟩ := Entries.exists_of_find? h
    simp only [levels, List.mem_cons, Prod.mk.injEq, List.not_mem_nil, or_false] at hmem
    obtain ⟨-, rfl⟩ | ⟨-, rfl⟩ | ⟨-, rfl⟩ | ⟨-, rfl⟩ := hmem
    · exact ⟨.error, rfl⟩
    · exact ⟨.warning, rfl⟩
    · exact ⟨.info, rfl⟩
    · exact ⟨.hint, rfl⟩

/-- The finding of an item is typed exactly if the item is of the right kind. -/
theorem isTyped_iff (h : finding item = .ok f) : f.IsTyped ↔ IsProper item := by
  obtain ⟨entries, steps, rfl, hsteps, hkey, rfl⟩ := finding_eq_ok.mp h
  constructor
  · intro htyped
    exact .intro hsteps htyped.path htyped.message hkey
  · intro hproper
    cases hproper with
    | intro hsteps' htyped hmessage =>
      rw [hsteps] at hsteps'
      obtain rfl := Option.some.inj hsteps'
      exact ⟨htyped, hmessage, exists_severity _⟩

theorem IsProper.exists_finding (h : IsProper item) : ∃ f, finding item = .ok f := by
  cases h with
  | intro hsteps _ _ hlevel => exact ⟨_, finding_eq_ok.mpr ⟨_, _, rfl, hsteps, hlevel, rfl⟩⟩

/-! ### Answers -/

/-- An answer that says nothing. -/
def IsBlank (output : Text) : Prop := (Text.trimmed output).isEmpty = true

/-- The answers that are refused in the engine's name. -/
inductive Refuses (output : Text) : Failure → Prop
  | unreadable {mistake : Json.Mistake} (hblank : ¬IsBlank output)
      (h : Json.read output = .error (.mistake mistake)) :
      Refuses output (.engine (.unreadableAnswer (start output)) none)
  | strange {v : Value} (h : Json.read output = .ok v) (hlist : ∀ items, v ≠ .list items) :
      Refuses output (.engine (.strangeAnswer (start output)) none)

/-- The answers that are stumbled over: a numeral that is too long, or an item that cannot be read, the
first of them. -/
inductive Stumbles (output : Text) : Failure → Prop
  | numeral {fault : Numeral.Fault} (hblank : ¬IsBlank output)
      (h : Json.read output = .error (.numeral fault)) : Stumbles output (.number fault)
  | item {before after : List Value} {item : Value} {m : Misuse}
      (h : Json.read output = .ok (.list (before ++ item :: after)))
      (hbefore : ∀ x ∈ before, ∃ f, finding x = .ok f) (hitem : Breaks item m) :
      Stumbles output (.misuse m)

theorem parse_of_read {items : List Value} (h : Json.read output = .ok (.list items)) :
    parse output = (items.mapM finding).mapError .misuse := by
  rw [parse, Json.not_trimmed_of_read h, if_neg Bool.false_ne_true, h]

/-- An answer is read exactly if it is blank, or a list all of whose items make findings. -/
theorem parse_eq_ok :
    parse output = .ok fs ↔ IsBlank output ∧ fs = [] ∨
      ∃ items, Json.read output = .ok (.list items) ∧
        List.Forall₂ (fun item f => finding item = .ok f) items fs := by
  constructor
  · intro h
    rw [parse] at h
    split at h
    · next hblank => exact .inl ⟨hblank, (Except.ok.inj h).symm⟩
    · split at h
      · cases h
      · cases h
      · next items hread =>
        exact .inr ⟨items, hread, Except.mapM_eq_ok.mp (Except.mapError_ok_iff.mp h)⟩
      · cases h
  · rintro (⟨hblank, rfl⟩ | ⟨items, hread, hitems⟩)
    · exact if_pos hblank
    · rw [parse_of_read hread]
      exact Except.mapError_ok_iff.mpr (Except.mapM_eq_ok.mpr hitems)

/-- Every other answer is refused with a reason, or breaks off at an item. -/
theorem parse_eq_error : parse output = .error e ↔ Refuses output e ∨ Stumbles output e := by
  constructor
  · intro h
    rw [parse] at h
    split at h
    · cases h
    next hblank =>
    split at h
    · next hread =>
      obtain rfl := Except.error.inj h
      exact .inl (.unreadable hblank hread)
    · next hread =>
      obtain rfl := Except.error.inj h
      exact .inr (.numeral hblank hread)
    · next items hread =>
      obtain ⟨m, hm, rfl⟩ := Except.mapError_eq_error.mp h
      obtain ⟨before, item, after, rfl, hbefore, hitem⟩ := Except.mapM_eq_error.mp hm
      exact .inr (.item hread hbefore (finding_eq_error.mp hitem))
    · next v hlist hread =>
      obtain rfl := Except.error.inj h
      exact .inl (.strange hread hlist)
  · rintro (hrefuses | hstumbles)
    · cases hrefuses with
      | unreadable hblank hread =>
        rw [parse, if_neg (show ¬(Text.trimmed output).isEmpty = true from hblank), hread]
      | @strange v hread hlist =>
        rw [parse, Json.not_trimmed_of_read hread, if_neg Bool.false_ne_true, hread]
        cases v <;> first | rfl | exact absurd rfl (hlist _)
    · cases hstumbles with
      | numeral hblank hread =>
        rw [parse, if_neg (show ¬(Text.trimmed output).isEmpty = true from hblank), hread]
      | item hread hbefore hitem =>
        rw [parse_of_read hread]
        refine Except.mapError_eq_error.mpr ⟨_, Except.mapM_eq_error.mpr ?_, rfl⟩
        exact ⟨_, _, _, rfl, hbefore, finding_eq_error.mpr hitem⟩

theorem all_isTyped_iff {items : List Value}
    (h : List.Forall₂ (fun item f => finding item = .ok f) items fs) :
    (∀ f ∈ fs, f.IsTyped) ↔ ∀ item ∈ items, IsProper item := by
  induction h with
  | nil => exact ⟨fun _ => List.forall_mem_nil _, fun _ => List.forall_mem_nil _⟩
  | cons hitem _ ih => rw [List.forall_mem_cons, List.forall_mem_cons, isTyped_iff hitem, ih]

/-- An answer gives typed findings exactly if it says nothing or is a list of items of the right kind. -/
theorem typed_iff :
    (∃ fs, parse output = .ok fs ∧ ∀ f ∈ fs, f.IsTyped) ↔
      IsBlank output ∨
        ∃ items, Json.read output = .ok (.list items) ∧ ∀ item ∈ items, IsProper item := by
  constructor
  · rintro ⟨fs, hparse, htyped⟩
    obtain ⟨hblank, -⟩ | ⟨items, hread, hitems⟩ := parse_eq_ok.mp hparse
    · exact .inl hblank
    · exact .inr ⟨items, hread, (all_isTyped_iff hitems).mp htyped⟩
  · rintro (hblank | ⟨items, hread, hproper⟩)
    · exact ⟨[], parse_eq_ok.mpr (.inl ⟨hblank, rfl⟩), List.forall_mem_nil _⟩
    · have hall : ∃ fs, List.Forall₂ (fun item f => finding item = .ok f) items fs := by
        clear hread
        induction items with
        | nil => exact ⟨[], .nil⟩
        | cons item items ih =>
          obtain ⟨hitem, hitems⟩ := List.forall_mem_cons.mp hproper
          obtain ⟨f, hf⟩ := hitem.exists_finding
          obtain ⟨fs, hfs⟩ := ih hitems
          exact ⟨f :: fs, .cons hf hfs⟩
      obtain ⟨fs, hfs⟩ := hall
      exact ⟨fs, parse_eq_ok.mpr (.inr ⟨items, hread, hfs⟩), (all_isTyped_iff hfs).mpr hproper⟩

/-- What an answer says about a place can be written, since it was read. -/
theorem isWritable_of_parse (h : parse output = .ok fs) : ∀ f ∈ fs, f.IsWritable := by
  intro f hf
  obtain ⟨-, rfl⟩ | ⟨items, hread, hitems⟩ := parse_eq_ok.mp h
  · exact absurd hf List.not_mem_nil
  obtain ⟨item, hitem, hfinding⟩ := List.exists_mem_of_forall₂ hitems hf
  obtain ⟨entries, steps, rfl, hsteps, -, rfl⟩ := finding_eq_ok.mp hfinding
  have hfinite := (Json.read_isFinite hread).item hitem
  have hwritable : Value.hasLongEntries entries = false :=
    Json.hasLongNumerals_eq_false.mp (Json.read_isWritable hread) _ hitem
  have hplace : (placeOf entries).IsFinite ∧ (placeOf entries).hasLongNumeral = false := by
    rw [placeOf, field]
    cases hfound : Entries.find? (.str "path") entries with
    | none => exact ⟨.list (List.forall_mem_nil _), rfl⟩
    | some v =>
      obtain ⟨k, hmem, -⟩ := Entries.exists_of_find? hfound
      exact ⟨hfinite.entry hmem, (Json.hasLongEntries_eq_false.mp hwritable _ hmem).2⟩
  exact Json.elements_isWritable hplace.1 hplace.2 hsteps

/-- **What comes of an answer.** It gives typed findings exactly if it says nothing or is a list of items of
the right kind; it fails exactly if it is refused in the engine's name or stumbled over; and its findings
have one of the four severities whatever stands in the items. The findings of an answer, if they are typed,
are merged with any others that are, and a report can be made of the result. -/
theorem parse_settles (output : Text) :
    ((∃ fs, parse output = .ok fs ∧ ∀ f ∈ fs, f.IsTyped) ↔
      IsBlank output ∨
        ∃ items, Json.read output = .ok (.list items) ∧ ∀ item ∈ items, IsProper item) ∧
    (∀ e, parse output = .error e ↔ Refuses output e ∨ Stumbles output e) ∧
    ∀ fs, parse output = .ok fs →
      (∀ f ∈ fs, ∃ s : Severity, f.severity = .str s.text) ∧
      ((∀ f ∈ fs, f.IsTyped) →
        ∀ {κ : Type} [BEq κ] (key : Finding → κ) (structural : List Finding) (version : Text)
          (locator : Locator), (∀ f ∈ structural, f.IsTyped ∧ f.IsWritable) →
        ∃ r, Diagnosis.merge version structural (Finding.distinct key fs) locator = .ok r ∧
          ∀ before after : List (Text × Diagnosis), Diagnosis.AreTexts before →
            Diagnosis.AreTexts after → ∀ name,
              ∃ report, Report.make (before ++ (name, r) :: after) = .ok report) := by
  refine ⟨typed_iff, fun e => parse_eq_error, fun fs hparse => ⟨fun f hf => ?_, ?_⟩⟩
  · obtain ⟨-, rfl⟩ | ⟨items, -, hitems⟩ := parse_eq_ok.mp hparse
    · exact absurd hf List.not_mem_nil
    · obtain ⟨item, -, hfinding⟩ := List.exists_mem_of_forall₂ hitems hf
      obtain ⟨entries, steps, -, -, -, rfl⟩ := finding_eq_ok.mp hfinding
      exact exists_severity _
  · intro htyped κ _ key structural version locator hstructural
    have hkept : ∀ f ∈ Finding.distinct key fs, f ∈ fs := fun f hf =>
      (Finding.distinctFrom_sublist key [] fs).mem hf
    have hall : ∀ f ∈ structural ++ Finding.distinct key fs, f.IsTyped := by
      rw [List.forall_mem_append]
      exact ⟨fun f hf => (hstructural f hf).1, fun f hf => htyped f (hkept f hf)⟩
    have hwritable : ∀ f ∈ structural ++ Finding.distinct key fs, f.IsWritable := by
      rw [List.forall_mem_append]
      exact ⟨fun f hf => (hstructural f hf).2, fun f hf => isWritable_of_parse hparse f (hkept f hf)⟩
    obtain ⟨r, hr⟩ := Diagnosis.exists_merge hall hwritable version locator
    exact ⟨r, hr, fun before after hbefore hafter name =>
      Diagnosis.reports_of_merge hall hr hbefore hafter name⟩

/-- An answer about the first server of a document. -/
def serverAnswer : Text :=
  "[\x7b\"code\": \"api-servers\", \"path\": [\"servers\", 0], \"message\": \"no address\", " ++
    "\"severity\": 0\x7d]"

def serverItem : Entries :=
  [(.str "code", .str "api-servers"), (.str "path", .list [.str "servers", .int 0]),
    (.str "message", .str "no address"), (.str "severity", .int 0)]

theorem serverItem_isProper : IsProper (.map serverItem) :=
  @IsProper.intro serverItem [.str "servers", .int 0] rfl
    (List.forall_mem_cons.mpr ⟨.key _, List.forall_mem_singleton.mpr (.index 0)⟩) ⟨_, rfl⟩ rfl

/-- An answer that is read, merged and reported. -/
theorem parse_settles_sample :
    ∃ fs r report, parse serverAnswer = .ok fs ∧
      Diagnosis.merge "3.0.0" [] (Finding.distinct Finding.key fs) ⟨.empty⟩ = .ok r ∧
      Report.make [("a.json", r)] = .ok report := by
  obtain ⟨htyped, -, hreports⟩ := parse_settles serverAnswer
  obtain ⟨fs, hparse, hfs⟩ := htyped.mpr
    (.inr ⟨[.map serverItem], Except.eq_ok_of_holds (by decide +kernel),
      List.forall_mem_singleton.mpr serverItem_isProper⟩)
  obtain ⟨r, hr, hreport⟩ := (hreports fs hparse).2 hfs Finding.key [] "3.0.0" ⟨.empty⟩
    (List.forall_mem_nil _)
  obtain ⟨report, hmake⟩ := hreport [] [] (List.forall_mem_nil _) (List.forall_mem_nil _) "a.json"
  exact ⟨fs, r, report, hparse, hr, hmake⟩

/-- The finding of an item whose message is no text. -/
def muteFinding : Finding := ⟨[], .null, "", .str "warning"⟩

/-- **Answers that are neither refused nor typed.** The first three fail in no one's name; the last one is
read and merged, and then no report can be made. -/
theorem parse_escapes :
    parse "[1]" = .error (.misuse (.notMapping "int" "get")) ∧
    parse "[\x7b\"path\": 5\x7d]" = .error (.misuse (.notIterable "int")) ∧
    parse "[\x7b\"severity\": []\x7d]" = .error (.misuse (.notKey "list")) ∧
    ∃ fs r, parse "[\x7b\"message\": null\x7d]" = .ok fs ∧ (∃ f ∈ fs, ¬f.message.IsText) ∧
      Diagnosis.merge "3.0.0" [] (Finding.distinct Finding.key fs) ⟨.empty⟩ = .ok r ∧
      Report.make [("a.json", r)] = .error (.notText "NoneType") := by
  have hshape : Json.read "[1]" = .ok (.list [.int 1]) := Except.eq_ok_of_holds (by decide +kernel)
  have hplace : Json.read "[\x7b\"path\": 5\x7d]" = .ok (.list [.map [(.str "path", .int 5)]]) :=
    Except.eq_ok_of_holds (by decide +kernel)
  have hlevel : Json.read "[\x7b\"severity\": []\x7d]" =
      .ok (.list [.map [(.str "severity", .list [])]]) :=
    Except.eq_ok_of_holds (by decide +kernel)
  have hmessage : Json.read "[\x7b\"message\": null\x7d]" =
      .ok (.list [.map [(.str "message", .null)]]) :=
    Except.eq_ok_of_holds (by decide +kernel)
  refine ⟨by rw [parse_of_read hshape]; rfl, by rw [parse_of_read hplace]; rfl,
    by rw [parse_of_read hlevel]; rfl, [muteFinding], _, by rw [parse_of_read hmessage]; rfl, ?_, rfl, rfl⟩
  refine ⟨muteFinding, List.mem_singleton_self _, ?_⟩
  rintro ⟨t, ht⟩
  cases ht

end ApiLint.Answer
