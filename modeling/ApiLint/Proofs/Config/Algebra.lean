import ApiLint.Proofs.Config.Merge
import ApiLint.Proofs.Value.Identity

/-! How laying configurations over each other composes. What was laid over something changes nothing when
it is laid over it once more, nor when it is laid over itself (`overlay_overlay`, `overlay_self`); for
this it is enough that keys can be told apart, and nulls may stand anywhere. To lay two values over a third
one by one is the same as to lay the second over the first and both over the third, if all three have
mappings in as many layers and no nulls (`overlayValue_assoc`), as what is valid has. -/
namespace ApiLint

open Value (AreKeys AreNames Differ IsProper Layered)

/-! ### Mappings inside each other -/

/-- A mapping whose values are such mappings again or no mappings at all. -/
inductive Value.IsNested : Value → Prop
  | leaf {v : Value} (hsound : v.IsSound) (hleaf : ∀ entries, v.opened ≠ .map entries) : IsNested v
  | map {entries : Entries} (hkeys : AreKeys (entries.map (·.1)))
      (h : ∀ e ∈ entries, IsNested e.2) : IsNested (.map entries)

theorem Value.AreNames.areKeys {keys : List Value} (h : AreNames keys) : AreKeys keys := by
  refine ⟨h.differ, ?_⟩
  obtain ⟨names, -, rfl⟩ := h
  exact List.forall_mem_map.mpr fun t _ => Value.isProper_str t

namespace Value

variable {v : Value} {entries : Entries}

theorem IsFlat.opened (h : v.IsFlat) : v.opened = v ∧ ∀ entries, v ≠ .map entries := by
  cases h with
  | scalar h => cases v <;> first | exact ⟨rfl, fun _ => Value.noConfusion⟩ | cases h
  | list _ => exact ⟨rfl, fun _ => Value.noConfusion⟩

namespace IsNested

theorem keys (h : (Value.map entries).IsNested) : AreKeys (entries.map (·.1)) := by
  cases h with
  | leaf _ hleaf => exact absurd rfl (hleaf entries)
  | map hkeys _ => exact hkeys

theorem entry (h : (Value.map entries).IsNested) : ∀ e ∈ entries, e.2.IsNested := by
  cases h with
  | leaf _ hleaf => exact absurd rfl (hleaf entries)
  | map _ h => exact h

theorem isSound (h : v.IsNested) : v.IsSound := by
  induction h with
  | leaf hsound _ => exact hsound
  | map hkeys _ ih => exact .map hkeys.differ ih

theorem layered {P : List Value → Prop} {n : Nat} (h : v.IsNested) (hv : v.Layered P n) :
    v.Layered AreKeys n := by
  induction n generalizing v with
  | zero => exact hv
  | succ n ih =>
    obtain ⟨entries, rfl, -, hentries⟩ := hv
    exact ⟨entries, rfl, h.keys, fun e he => ih (h.entry e he) (hentries e he)⟩

end IsNested

theorem isNested_scalar (h : v.isScalar = true) : v.IsNested := by
  obtain ⟨hopened, hleaf⟩ := (IsFlat.scalar h).opened
  exact .leaf (.scalar h) fun entries heq => hleaf entries (hopened.symm.trans heq)

theorem isNested_record {fields : List (Text × Value)} (hnames : (fields.map (·.1)).Nodup)
    (h : ∀ field ∈ fields, field.2.IsNested) : (record fields).IsNested := by
  refine .map (AreNames.areKeys ⟨_, hnames, ?_⟩) (List.forall_mem_map.mpr h)
  simp only [List.map_map, Function.comp_def]

theorem Layered.isNested {n : Nat} (hv : v.Layered AreKeys n) : v.IsNested := by
  induction n generalizing v with
  | zero =>
    obtain ⟨hopened, hleaf⟩ := hv.1.opened
    exact .leaf hv.1.keyed fun entries heq => hleaf entries (hopened.symm.trans heq)
  | succ n ih =>
    obtain ⟨entries, rfl, hkeys, hentries⟩ := hv
    exact .map hkeys fun e he => ih (hentries e he)

end Value

namespace Config

variable {base top : Entries} {key : Value}

/-! ### What is found in the whole -/

theorem proper_overlay (hbase : ∀ k ∈ base.map (·.1), k.IsProper)
    (htop : ∀ k ∈ top.map (·.1), k.IsProper) : ∀ k ∈ (overlay base top).map (·.1), k.IsProper :=
  overlay_induction (P := fun entries => ∀ k ∈ entries.map (·.1), k.IsProper) hbase
    fun _ hbelow e he _ => Entries.proper_put hbelow (htop e.1 (List.mem_map_of_mem he))

theorem areKeys_overlay (hbase : AreKeys (base.map (·.1))) (htop : ∀ k ∈ top.map (·.1), k.IsProper) :
    AreKeys ((overlay base top).map (·.1)) :=
  overlay_induction (P := fun entries => AreKeys (entries.map (·.1))) hbase
    fun _ hbelow e he _ => Entries.areKeys_put hbelow (htop e.1 (List.mem_map_of_mem he))

/-- A key for which the top has nothing shows what is below. -/
theorem find?_overlay_of_forall (hbase : ∀ k ∈ base.map (·.1), k.IsProper)
    (htop : ∀ k ∈ top.map (·.1), k.IsProper) (hkey : key.IsProper)
    (h : ∀ e ∈ top, e.1.same key = true → e.2 = .null) :
    Entries.find? key (overlay base top) = base.find? key := by
  refine (overlay_induction (P := fun entries => (∀ k ∈ entries.map (·.1), k.IsProper) ∧
    entries.find? key = base.find? key) ⟨hbase, rfl⟩ fun below hbelow e he hnull => ?_).2
  have hproper := htop e.1 (List.mem_map_of_mem he)
  refine ⟨Entries.proper_put hbelow.1 hproper, ?_⟩
  have hnot : ¬e.1.same key = true := fun hsame => hnull (h e he hsame)
  rw [Entries.find?_put (Entries.agree_of_proper hbelow.1 hproper hkey), if_neg hnot, hbelow.2]

/-- A key for which the top has something shows that, laid over what is below. -/
theorem find?_overlay_of_mem (hbase : ∀ k ∈ base.map (·.1), k.IsProper)
    (htop : AreKeys (top.map (·.1))) (hkey : key.IsProper) {e : Value × Value} (he : e ∈ top)
    (hsame : e.1.same key = true) (hnull : e.2 ≠ .null) :
    Entries.find? key (overlay base top) = some (overlayValue (base.find? key) e.2) := by
  obtain ⟨before, after, rfl⟩ := List.append_of_mem he
  obtain ⟨hdiffer, hproper⟩ := htop
  rw [List.map_append, List.map_cons] at hdiffer hproper
  rw [List.pairwise_append, List.pairwise_cons] at hdiffer
  obtain ⟨hbefore, hproper⟩ := List.forall_mem_append.mp hproper
  obtain ⟨he', hafter⟩ := List.forall_mem_cons.mp hproper
  -- no other key of the top is the same
  have hfirst : ∀ f ∈ before, f.1.same key = true → f.2 = .null := by
    intro f hf hfkey
    have hf' := List.mem_map_of_mem (f := Prod.fst) hf
    have hnot : f.1.same e.1 = false := hdiffer.2.2 f.1 hf' e.1 List.mem_cons_self
    rw [((hbefore f.1 hf').agree he' hkey).joins hfkey hsame] at hnot
    cases hnot
  have hlast : ∀ f ∈ after, f.1.same key = true → f.2 = .null := by
    intro f hf hfkey
    have hf' := List.mem_map_of_mem (f := Prod.fst) hf
    have hnot : e.1.same f.1 = false := hdiffer.2.1.1 f.1 hf'
    rw [(he'.agree (hafter f.1 hf') hkey).joins hsame hfkey] at hnot
    cases hnot
  have hbelow := proper_overlay hbase hbefore
  have hagree := Entries.agree_of_proper hbelow he' hkey
  rw [overlay_append, overlay_cons hnull,
    find?_overlay_of_forall (Entries.proper_put hbelow he') hafter hkey hlast,
    Entries.find?_put hagree, if_pos hsame, Entries.find?_congr hagree hsame,
    find?_overlay_of_forall hbase hbefore hkey hfirst]

/-! ### Once more, and over itself -/

theorem overlayValue_of_leaf {v : Value} (below : Option Value)
    (hleaf : ∀ entries, v.opened ≠ .map entries) : overlayValue below v = v := by
  cases v with
  | map entries => exact absurd rfl (hleaf entries)
  | loop label body =>
    cases body with
    | map entries => exact absurd rfl (hleaf _)
    | _ => simp only [overlayValue]
  | _ => rfl

/-- Entries that change nothing where they are laid over a value are all found below already. -/
theorem overlay_eq_self (h : ∀ e ∈ top, e.2 ≠ .null →
    ∃ w, base.find? e.1 = some w ∧ overlayValue (some w) e.2 = w) : overlay base top = base := by
  refine overlay_induction (P := fun entries => entries = base) rfl fun below hbelow e he hnull => ?_
  obtain ⟨w, hfind, hself⟩ := h e he hnull
  rw [hbelow, hfind, hself, Entries.put_eq_self hfind]

/-- **What is laid over itself stays as it is.** -/
theorem overlayValue_self {v : Value} (h : v.IsNested) : overlayValue (some v) v = v := by
  induction h with
  | leaf _ hleaf => exact overlayValue_of_leaf _ hleaf
  | map hkeys _ ih =>
    rw [overlayValue_map]
    exact congrArg _ (overlay_eq_self fun e he _ => ⟨e.2, Entries.find?_of_mem hkeys he, ih e he⟩)

theorem overlayValue_map_of_leaf {b : Value} (hleaf : ∀ entries, b.opened ≠ .map entries)
    (top : Entries) : overlayValue (some b) (.map top) = .map top := by
  rw [overlayValue]
  split
  · next base heq => exact absurd (Option.some.inj heq) (hleaf base)
  · rfl

/-- **What is laid over something twice is laid over it once.** -/
theorem overlayValue_overlayValue {below : Option Value} {v : Value}
    (hbelow : ∀ b, below = some b → b.IsNested) (hv : v.IsNested) :
    overlayValue (some (overlayValue below v)) v = overlayValue below v := by
  induction hv generalizing below with
  | leaf _ hleaf => rw [overlayValue_of_leaf _ hleaf, overlayValue_of_leaf _ hleaf]
  | @map top hkeys h ih =>
    have hself := overlayValue_self (.map hkeys h)
    cases below with
    | none => rwa [overlayValue_none]
    | some b =>
      cases hbelow b rfl with
      | leaf _ hleaf => rwa [overlayValue_map_of_leaf hleaf]
      | @map base hbase hvalues =>
        rw [overlayValue_map, overlayValue_map]
        refine congrArg _ (overlay_eq_self fun e he hnull => ?_)
        have hproper := hkeys.proper e.1 (List.mem_map_of_mem he)
        refine ⟨_, find?_overlay_of_mem hbase.proper hkeys hproper he hproper.same_self hnull,
          ih e he fun b hfind => ?_⟩
        obtain ⟨k, hmem, -⟩ := Entries.exists_of_find? hfind
        exact hvalues _ hmem

/-! ### One by one, or both together -/

theorem overlayValue_ne_null {below : Option Value} {v : Value} (h : v ≠ .null) :
    overlayValue below v ≠ .null := by
  cases v with
  | map entries =>
    rw [overlayValue]
    split <;> exact Value.noConfusion
  | loop label body =>
    cases body <;> simp only [overlayValue] <;> (try split) <;> exact Value.noConfusion
  | null => exact absurd rfl h
  | _ => exact Value.noConfusion

theorem overlay_ne_null (hbase : ∀ e ∈ base, e.2 ≠ .null) : ∀ e ∈ overlay base top, e.2 ≠ .null := by
  refine overlay_induction (P := fun entries => ∀ e ∈ entries, e.2 ≠ .null) hbase
    fun below hbelow e he hnull f hf => ?_
  obtain hmem | ⟨-, hvalue⟩ := Entries.mem_put hf
  · exact hbelow f hmem
  · exact hvalue ▸ overlayValue_ne_null hnull

/-- What is found in the whole, if the top has no nulls. -/
theorem find?_overlay (hbase : ∀ k ∈ base.map (·.1), k.IsProper) (htop : AreKeys (top.map (·.1)))
    (hnull : ∀ e ∈ top, e.2 ≠ .null) (hkey : key.IsProper) :
    Entries.find? key (overlay base top) =
      ((top.find? key).map (overlayValue (base.find? key))).or (base.find? key) := by
  cases hfind : top.find? key with
  | none =>
    refine find?_overlay_of_forall hbase htop.proper hkey fun e he hsame => ?_
    rw [Entries.find?_eq_none.mp hfind e he] at hsame
    cases hsame
  | some v =>
    obtain ⟨k, hmem, hsame⟩ := Entries.exists_of_find? hfind
    exact find?_overlay_of_mem hbase htop hkey hmem hsame (hnull _ hmem)

/-- A key is among some keys and the new ones of others when it is among either. -/
theorem any_withNew {keys more : List Value} {m : Value} (hkeys : ∀ k ∈ keys, k.IsProper)
    (hmore : ∀ k ∈ more, k.IsProper) (hm : m.IsProper) :
    (Value.withNew keys more).any (·.same m) = (keys.any (·.same m) || more.any (·.same m)) := by
  rw [Bool.eq_iff_iff, Bool.or_eq_true, List.any_eq_true, List.any_eq_true, List.any_eq_true,
    Value.withNew]
  constructor
  · intro h
    obtain ⟨k, hk, hsame⟩ := h
    exact (List.mem_append.mp hk).imp (⟨k, ·, hsame⟩) fun hk => ⟨k, List.mem_of_mem_filter hk, hsame⟩
  · intro h
    obtain ⟨k, hk, hsame⟩ | ⟨l, hl, hsame⟩ := h
    · exact ⟨k, List.mem_append_left _ hk, hsame⟩
    · cases hany : keys.any (·.same l) with
      | false =>
        exact ⟨l, List.mem_append_right _ (List.mem_filter.mpr ⟨hl, by rw [hany]; rfl⟩), hsame⟩
      | true =>
        obtain ⟨k, hk, hkl⟩ := List.any_eq_true.mp hany
        have hagree := (hkeys k hk).agree (hmore l hl) hm
        exact ⟨k, List.mem_append_left _ hk, (hagree.congr hkl).trans hsame⟩

theorem withNew_withNew {keys more most : List Value} (hkeys : ∀ k ∈ keys, k.IsProper)
    (hmore : ∀ k ∈ more, k.IsProper) (hmost : ∀ k ∈ most, k.IsProper) :
    Value.withNew (Value.withNew keys more) most = Value.withNew keys (Value.withNew more most) := by
  have hnew : ∀ m ∈ most, (!(Value.withNew keys more).any (·.same m)) =
      ((!keys.any (·.same m)) && !more.any (·.same m)) := fun m hm => by
    rw [any_withNew hkeys hmore (hmost m hm), Bool.not_or]
  rw [Value.withNew, List.filter_congr hnew]
  simp only [Value.withNew, List.filter_append, List.filter_filter, List.append_assoc]

/-- Rows of entries are laid over each other from either side. A null in one of the upper rows would
tell the two apart. -/
theorem overlay_assoc {bottom middle : Entries} (hbottom : AreKeys (bottom.map (·.1)))
    (hmiddle : AreKeys (middle.map (·.1))) (htop : AreKeys (top.map (·.1)))
    (hnull : ∀ e ∈ middle, e.2 ≠ .null) (hnull' : ∀ e ∈ top, e.2 ≠ .null)
    (h : ∀ e ∈ bottom, ∀ f ∈ middle, ∀ g ∈ top,
      overlayValue (some (overlayValue (some e.2) f.2)) g.2 =
        overlayValue (some e.2) (overlayValue (some f.2) g.2)) :
    overlay (overlay bottom middle) top = overlay bottom (overlay middle top) := by
  have hlower := areKeys_overlay hbottom hmiddle.proper
  have hupper := areKeys_overlay hmiddle htop.proper
  have hnullUpper : ∀ e ∈ overlay middle top, e.2 ≠ .null := overlay_ne_null hnull
  refine Entries.eq_of_find? (areKeys_overlay hlower htop.proper) ?_ fun key hkey => ?_
  · rw [keys_overlay htop.differ hnull', keys_overlay hmiddle.differ hnull,
      keys_overlay hupper.differ hnullUpper, keys_overlay htop.differ hnull',
      withNew_withNew hbottom.proper hmiddle.proper htop.proper]
  · have hproper := proper_overlay hlower.proper htop.proper key hkey
    rw [find?_overlay hlower.proper htop hnull' hproper,
      find?_overlay hbottom.proper hmiddle hnull hproper,
      find?_overlay hbottom.proper hupper hnullUpper hproper,
      find?_overlay hmiddle.proper htop hnull' hproper]
    cases hb : bottom.find? key <;> cases hm : middle.find? key <;> cases ht : top.find? key <;>
      simp [overlayValue_none]
    obtain ⟨k, hb, -⟩ := Entries.exists_of_find? hb
    obtain ⟨l, hm, -⟩ := Entries.exists_of_find? hm
    obtain ⟨m, ht, -⟩ := Entries.exists_of_find? ht
    exact h _ hb _ hm _ ht

/-- **To lay two values over a third one by one is to lay both over it together.** -/
theorem overlayValue_assoc {n : Nat} {a b c : Value} (ha : a.Layered AreKeys n)
    (hb : b.Layered AreKeys n) (hc : c.Layered AreKeys n) :
    overlayValue (some (overlayValue (some a) b)) c =
      overlayValue (some a) (overlayValue (some b) c) := by
  induction n generalizing a b c with
  | zero =>
    rw [overlayValue_of_isFlat _ hc.1, overlayValue_of_isFlat _ hc.1, overlayValue_of_isFlat _ hc.1]
  | succ n ih =>
    obtain ⟨bottom, rfl, hbottom, hlow⟩ := ha
    obtain ⟨middle, rfl, hmiddle, hmid⟩ := hb
    obtain ⟨top, rfl, htop, hhigh⟩ := hc
    simp only [overlayValue_map]
    exact congrArg _ (overlay_assoc hbottom hmiddle htop (fun f hf => (hmid f hf).ne_null)
      (fun g hg => (hhigh g hg).ne_null)
      fun e he f hf g hg => ih (hlow e he) (hmid f hf) (hhigh g hg))

/-! ### The laws -/

theorem overlayAny_map (base top : Entries) :
    overlayAny (.map base) (.map top) = .ok (.map (overlay base top)) := rfl

/-- What is valid has three layers, and what is laid over it has them too. -/
theorem overlayAny_of_conforms {b t : Value} (hb : Conforms b) (ht : Conforms t) :
    overlayAny b t = .ok (overlayValue (some b) t) := by
  obtain ⟨base, rfl, -⟩ := hb
  obtain ⟨top, rfl, -⟩ := ht
  rw [overlayAny_map, overlayValue_map]

theorem layered_of_complaints {v : Value} (hv : v.IsNested) (h : complaints v = .ok []) :
    Conforms v ∧ v.Layered AreKeys 3 :=
  have hconforms := (complaints_eq_nil hv.isSound.keyed).mp h
  ⟨hconforms, hv.layered (hconforms.layered hv.isSound)⟩

/-- **The laws of laying over.** For mappings in each other whose leaves are any other values, nulls among
them: to lay one over another twice is to lay it over once; an empty mapping on top changes nothing; and
neither does a mapping laid over itself. One valid configuration over another is valid, and to lay them
over the defaults one by one is to lay both together over them. In each case the keys stand in the same
order. -/
theorem overlay_laws :
    (∀ base top : Entries, (Value.map base).IsNested → (Value.map top).IsNested →
      ∃ merged, overlayAny (.map base) (.map top) = .ok merged ∧
        overlayAny merged (.map top) = .ok merged ∧
        overlayAny (.map base) (.map []) = .ok (.map base) ∧
        overlayAny (.map top) (.map top) = .ok (.map top)) ∧
    ∀ first second : Value, first.IsNested → second.IsNested →
      complaints first = .ok [] → complaints second = .ok [] →
      ∃ both once whole, overlayAny first second = .ok both ∧ complaints both = .ok [] ∧
        overlayAny defaults first = .ok once ∧ overlayAny once second = .ok whole ∧
        overlayAny defaults both = .ok whole := by
  constructor
  · intro base top hbase htop
    have htwice : overlayValue (some (overlayValue (some (.map base)) (.map top))) (.map top) =
        overlayValue (some (.map base)) (.map top) :=
      overlayValue_overlayValue (fun b hb => Option.some.inj hb ▸ hbase) htop
    have hself := overlayValue_self htop
    rw [overlayValue_map] at hself
    rw [overlayValue_map, overlayValue_map] at htwice
    refine ⟨.map (overlay base top), rfl, ?_, ?_, ?_⟩
    · rw [overlayAny_map, htwice]
    · rw [overlayAny_map, overlay]
    · rw [overlayAny_map, hself]
  · intro first second hfirst hsecond hvalid hvalid'
    obtain ⟨hconforms, hlayered⟩ := layered_of_complaints hfirst hvalid
    obtain ⟨hconforms', hlayered'⟩ := layered_of_complaints hsecond hvalid'
    have hboth := hconforms.overlay hconforms'
    have hdefaults := defaults_layered.imp fun _ => AreNames.areKeys
    refine ⟨_, _, _, overlayAny_of_conforms hconforms hconforms', ?_,
      overlayAny_of_conforms defaults_conforms hconforms,
      overlayAny_of_conforms (defaults_conforms.overlay hconforms) hconforms', ?_⟩
    · have hlayers := layered_overlayValue (hlayered.imp fun _ => AreKeys.differ)
        (hlayered'.imp fun _ => AreKeys.differ)
      exact (complaints_eq_nil (hlayers.keyed.imp fun _ _ => Differ.apart)).mpr hboth
    · rw [overlayAny_of_conforms defaults_conforms hboth,
        overlayValue_assoc hdefaults hlayered hlayered']

/-- A name with a mapping that has a null, and one with a null. -/
def lowerSample : Value :=
  .record [("a", .record [("b", .null)]), ("c", .null)]

/-- Nulls in a mapping for a name that has one below, and in one for a name that has none. -/
def upperSample : Value :=
  .record [("a", .record [("b", .int 1), ("d", .null)]), ("c", .record [("e", .null)])]

/-- A rule of the defaults with another status. -/
def strictRule : Value :=
  ofRule "shared" "operations" "no_summary" (.str "error")

theorem lowerSample_isNested : lowerSample.IsNested := by
  have hnull : Value.null.IsNested := Value.isNested_scalar rfl
  have hinner : (Value.record [("b", .null)]).IsNested :=
    Value.isNested_record (by decide) (List.forall_mem_singleton.mpr hnull)
  exact Value.isNested_record (by decide)
    (List.forall_mem_cons.mpr ⟨hinner, List.forall_mem_singleton.mpr hnull⟩)

theorem upperSample_isNested : upperSample.IsNested := by
  have hnull : Value.null.IsNested := Value.isNested_scalar rfl
  have hinner : (Value.record [("b", .int 1), ("d", .null)]).IsNested :=
    Value.isNested_record (by decide) (List.forall_mem_cons.mpr
      ⟨Value.isNested_scalar rfl, List.forall_mem_singleton.mpr hnull⟩)
  have hnew : (Value.record [("e", .null)]).IsNested :=
    Value.isNested_record (by decide) (List.forall_mem_singleton.mpr hnull)
  exact Value.isNested_record (by decide)
    (List.forall_mem_cons.mpr ⟨hinner, List.forall_mem_singleton.mpr hnew⟩)

theorem strictRule_layered : strictRule.Layered AreNames 3 := by
  simp [strictRule, ofRule, Value.layered_record, Value.layered_str]

theorem strictRule_complaints : complaints strictRule = .ok [] := by
  have hkeyed : strictRule.IsSound := (strictRule_layered.imp fun _ => AreNames.differ).keyed
  refine (complaints_eq_nil hkeyed.keyed).mpr ?_
  exact ofRule_conforms List.mem_cons_self (List.mem_of_getElem? (i := 0) rfl)
    (.declared (List.mem_of_getElem? (i := 4) rfl) rfl)
    (RuleKind.allows_status.mpr (by simp [statuses]))

/-- Laying the same mapping over twice changes nothing, and two overrides of one configuration can be
taken together. -/
theorem overlay_laws_sample :
    (∃ merged, overlayAny lowerSample upperSample = .ok merged ∧
      overlayAny merged upperSample = .ok merged) ∧
    complaints houseRules = .ok [] ∧ complaints strictRule = .ok [] ∧
      ∃ both once whole, overlayAny houseRules strictRule = .ok both ∧ complaints both = .ok [] ∧
        overlayAny defaults houseRules = .ok once ∧ overlayAny once strictRule = .ok whole ∧
        overlayAny defaults both = .ok whole := by
  obtain ⟨merged, hmerged, hagain, -, -⟩ :=
    overlay_laws.1 _ _ lowerSample_isNested upperSample_isNested
  have hnested {v : Value} (h : v.Layered AreNames 3) : v.IsNested :=
    (h.imp fun _ => AreNames.areKeys).isNested
  exact ⟨⟨merged, hmerged, hagain⟩, houseRules_complaints, strictRule_complaints,
    overlay_laws.2 _ _ (hnested houseRules_layered) (hnested strictRule_layered)
      houseRules_complaints strictRule_complaints⟩

end Config

end ApiLint
