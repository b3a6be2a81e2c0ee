import ApiLint.Config.File
import ApiLint.Proofs.Config.Basic
import ApiLint.Proofs.Config.Default
import ApiLint.Proofs.Config.Overlay

/-! A valid configuration laid over the defaults is valid again, and all that is read from the whole is
there to be read: each status is one of the five, whatever rule is asked for (`merge_valid`). Validity is
kept layer by layer, since the values at a key from below and from the top are governed by the same
declared scope, category or kind. -/
namespace ApiLint

open Value (AreNames Differ Layered)

/-! ### Layers of what conforms -/

/-- What a rule may be set to holds no mapping, and so there is nothing below it. -/
theorem RuleKind.Allows.layered {kind : RuleKind} {v : Value} (h : kind.Allows v)
    (P : List Value → Prop) : v.Layered P 0 := by
  cases kind with
  | status =>
    obtain ⟨s, -, rfl⟩ := h
    exact ⟨.scalar rfl, Value.noConfusion⟩
  | case =>
    rcases h with rfl | ⟨s, -, c, -, rfl⟩
    · exact ⟨.texts _, Value.noConfusion⟩
    · exact ⟨.texts _, Value.noConfusion⟩
  | propertyType =>
    rcases h with rfl | ⟨s, -, names, -, rfl⟩
    · exact ⟨.texts _, Value.noConfusion⟩
    · refine ⟨.list fun x hx => ?_, Value.noConfusion⟩
      rcases List.mem_pair.mp hx with rfl | rfl
      · exact .scalar rfl
      · exact .texts names

/-- The status in a value that a rule may have. -/
theorem RuleKind.Allows.statusIn_frozen {kind : RuleKind} {v : Value} (h : kind.Allows v) :
    ∃ s ∈ statuses, statusIn v.frozen = .ok (.str s) := by
  have hoff : offStatus ∈ statuses := by simp [offStatus, statuses]
  cases kind with
  | status =>
    obtain ⟨s, hs, rfl⟩ := h
    exact ⟨s, hs, rfl⟩
  | case =>
    rcases h with rfl | ⟨s, hs, c, -, rfl⟩
    · exact ⟨offStatus, hoff, rfl⟩
    · exact ⟨s, hs, rfl⟩
  | propertyType =>
    rcases h with rfl | ⟨s, hs, names, -, rfl⟩
    · exact ⟨offStatus, hoff, rfl⟩
    · exact ⟨s, hs, rfl⟩

namespace Config

section Layers

variable {scope : Text} {categories : List (Text × List Rule)} {rules : List Rule} {v : Value}

theorem CategoryConforms.layered (h : CategoryConforms scope rules v) (hv : v.IsSound) :
    v.Layered (List.Pairwise Differ) 1 := by
  obtain ⟨entries, rfl, hentries⟩ := h
  refine ⟨entries, rfl, hv.keys, fun e he => ?_⟩
  obtain ⟨kind, -, hallows⟩ := hentries e he
  exact hallows.layered _

theorem ScopeConforms.layered (h : ScopeConforms scope categories v) (hv : v.IsSound) :
    v.Layered (List.Pairwise Differ) 2 := by
  obtain ⟨entries, rfl, hentries⟩ := h
  refine ⟨entries, rfl, hv.keys, fun e he => ?_⟩
  obtain ⟨category, rules, -, -, hconforms⟩ := hentries e he
  exact hconforms.layered (hv.entry he)

theorem Conforms.layered (h : Conforms v) (hv : v.IsSound) :
    v.Layered (List.Pairwise Differ) 3 := by
  obtain ⟨entries, rfl, hentries⟩ := h
  refine ⟨entries, rfl, hv.keys, fun e he => ?_⟩
  obtain ⟨scope, categories, -, -, hconforms⟩ := hentries e he
  exact hconforms.layered (hv.entry he)

end Layers

/-! ### What conforms over what conforms -/

section Overlay

variable {scope : Text} {categories : List (Text × List Rule)} {rules : List Rule} {k key : Value}
  {kind : RuleKind} {b t : Value}

/-- A key that is kept in place of one that is the same has its kind. -/
theorem KindAt.of_same (h : KindAt scope rules key kind) (hsame : k.same key = true) :
    KindAt scope rules k kind := by
  cases h with
  | declared hrule hkey =>
    rw [hkey] at hsame
    exact .declared hrule (Value.same_str.mp hsame)
  | other hopen hkey =>
    refine .other hopen fun rule hrule hk => hkey rule hrule ?_
    rw [hk] at hsame
    exact Value.str_same.mp hsame

/-- Two valid categories make a valid one, rule by rule. -/
theorem CategoryConforms.overlay (hb : CategoryConforms scope rules b)
    (ht : CategoryConforms scope rules t) : CategoryConforms scope rules (overlayValue (some b) t) := by
  obtain ⟨base, rfl, hbase⟩ := hb
  obtain ⟨top, rfl, htop⟩ := ht
  refine ⟨_, overlayValue_map base top, overlay_induction (P := fun entries => ∀ e ∈ entries,
    ∃ kind, KindAt scope rules e.1 kind ∧ kind.Allows e.2) hbase fun below hbelow e he _ f hf => ?_⟩
  obtain hmem | ⟨hkey, hvalue⟩ := Entries.mem_put hf
  · exact hbelow f hmem
  · obtain ⟨kind, hkind, hallows⟩ := htop e he
    rw [overlayValue_of_isFlat _ (hallows.layered fun _ => True).1] at hvalue
    refine ⟨kind, ?_, hvalue ▸ hallows⟩
    exact hkey.elim (fun heq => heq ▸ hkind) fun hsame => hkind.of_same hsame.2

theorem ScopeConforms.overlay (hscope : (scope, categories) ∈ Rule.catalogue)
    (hb : ScopeConforms scope categories b) (ht : ScopeConforms scope categories t) :
    ScopeConforms scope categories (overlayValue (some b) t) := by
  obtain ⟨base, rfl, hbase⟩ := hb
  obtain ⟨top, rfl, htop⟩ := ht
  exact ⟨_, overlayValue_map base top, declared_overlay (Rule.categories_nodup hscope)
    (fun _ _ _ _ _ hb ht => hb.overlay ht) hbase htop⟩

theorem Conforms.overlay (hb : Conforms b) (ht : Conforms t) :
    Conforms (overlayValue (some b) t) := by
  obtain ⟨base, rfl, hbase⟩ := hb
  obtain ⟨top, rfl, htop⟩ := ht
  exact ⟨_, overlayValue_map base top, declared_overlay Rule.scopes_nodup
    (fun _ _ _ _ hscope hb ht => hb.overlay hscope ht) hbase htop⟩

end Overlay

/-! ### What is laid over the defaults -/

/-- What comes out when a valid configuration is laid over the defaults. -/
structure Merges (v merged : Value) : Prop where
  result : overlayAny defaults v = .ok merged
  conforms : Conforms merged
  layered : merged.Layered (List.Pairwise Differ) 3
  /-- At the place of a rule the configuration counts first, then the defaults. -/
  under? : ∀ place : List Value, place.length = 3 →
    merged.under? place = (v.under? place).or (defaults.under? place)
  /-- At each level the names of the defaults come first, then the new ones. -/
  namesAt : ∀ place : List Value, place.length < 3 →
    merged.namesAt place = Value.withNew (defaults.namesAt place) (v.namesAt place)

/-- A valid override can always be merged. -/
theorem exists_merges {v : Value} (hv : v.IsSound) (h : complaints v = .ok []) :
    ∃ merged, Merges v merged := by
  have hconforms : Conforms v := (complaints_eq_nil hv.keyed).mp h
  have hlayered := hconforms.layered hv
  have hresult : overlayAny defaults v = .ok (overlayValue (some defaults) v) := by
    obtain ⟨entries, rfl, -⟩ := hconforms
    rfl
  exact ⟨overlayValue (some defaults) v, hresult,
    defaults_conforms.overlay hconforms,
    layered_overlayValue (defaults_layered.imp fun _ => AreNames.differ) hlayered,
    fun _ => under?_overlayValue defaults_layered hlayered,
    fun _ => namesAt_overlayValue defaults_layered hlayered⟩

namespace Merges

variable {v merged : Value}

theorem complaints (h : Merges v merged) : complaints merged = .ok [] :=
  (complaints_eq_nil (h.layered.keyed.imp fun _ _ => Differ.apart)).mpr h.conforms

theorem ofValue (h : Merges v merged) (source : Option Path) :
    ofValue merged source = .ok ⟨merged, source⟩ :=
  ofValue_of_rowsAre h.layered.rowsAre source

/-- The configuration that a valid value is laid over the defaults for. -/
theorem ofOverride (h : Merges v merged) (hv : Config.complaints v = .ok []) (source : Option Path) :
    ofOverride source v = .ok ⟨merged, source⟩ := by
  rw [Config.ofOverride, hv, h.result]
  exact h.ofValue source

theorem value (h : Merges v merged) (source : Option Path) (scope category rule : Text) :
    Config.value ⟨merged, source⟩ (.str scope) (.str category) (.str rule) =
      .ok (((merged.under? [.str scope, .str category, .str rule]).map Value.frozen).getD .null) :=
  value_eq List.Pairwise.nil h.layered scope category rule

/-- After merging every rule has one of the statuses, declared or not. -/
theorem status (h : Merges v merged) (source : Option Path) (scope category rule : Text) :
    ∃ s ∈ statuses,
      Config.status ⟨merged, source⟩ (.str scope) (.str category) (.str rule) = .ok (.str s) := by
  cases hw : merged.under? [.str scope, .str category, .str rule] with
  | none =>
    refine ⟨offStatus, by simp [offStatus, statuses], ?_⟩
    rw [Config.status, h.value, hw]
    rfl
  | some w =>
    obtain ⟨kind, hallows⟩ := h.conforms.allows hw
    obtain ⟨s, hs, hstatus⟩ := hallows.statusIn_frozen
    have hvalue := h.value source scope category rule
    rw [hw] at hvalue
    have hnull : w.frozen ≠ .null := by
      intro hnull
      rw [hnull] at hstatus
      cases hstatus
    exact ⟨s, hs, (status_of_value hvalue hnull).trans hstatus⟩

theorem engineRules (h : Merges v merged) (source : Option Path) :
    Config.engineRules ⟨merged, source⟩ =
      .ok (merged.entriesAt [.str "spectral", .str "rules"]) := by
  refine engineRules_eq List.Pairwise.nil h.layered fun e he => ?_
  obtain ⟨s, -, hs⟩ := h.conforms.engineStatus e he
  exact ⟨s, hs⟩

end Merges

/-- **Laying over the defaults keeps a configuration valid.** A configuration that nothing is said about
is laid over the defaults, and nothing is said about the result either; every rule that is asked for in
it, declared or not, has one of the statuses, and so has every rule of the rule engine. -/
theorem merge_valid {v : Value} (hv : v.IsSound) (h : complaints v = .ok [])
    (source : Option Path) :
    ∃ merged c, overlayAny defaults v = .ok merged ∧ complaints merged = .ok [] ∧
      ofValue merged source = .ok c ∧
      (∀ scope category rule : Text, ∃ s ∈ statuses,
        c.status (.str scope) (.str category) (.str rule) = .ok (.str s)) ∧
      ∃ found, c.engineRules = .ok found ∧
        found.map (·.1) = merged.namesAt [.str "spectral", .str "rules"] ∧
        ∀ e ∈ found, ∃ s ∈ statuses, e.2 = .str s := by
  obtain ⟨merged, hmerged⟩ := exists_merges hv h
  exact ⟨merged, ⟨merged, source⟩, hmerged.result, hmerged.complaints, hmerged.ofValue source,
    hmerged.status source, _, hmerged.engineRules source, rfl, hmerged.conforms.engineStatus⟩

/-- A rule that is not declared, in the scope that is open, and one of the defaults that is turned
off. -/
def houseRules : Value :=
  .record [("spectral", .record [("rules", .record
    [("house-style", .str "info"), ("openapi-tags", .str "off")])])]

theorem houseRules_layered : houseRules.Layered AreNames 3 := by
  have hrules : (Value.record [("house-style", .str "info"), ("openapi-tags", .str "off")]).Layered
      AreNames 1 := by
    simp [Value.layered_record, Value.layered_str]
  simp [houseRules, Value.layered_record, hrules]

theorem houseRules_isSound : houseRules.IsSound :=
  (houseRules_layered.imp fun _ => AreNames.differ).keyed

theorem houseRules_complaints : complaints houseRules = .ok [] := by
  refine (complaints_eq_nil houseRules_isSound.keyed).mpr ?_
  refine ⟨_, rfl, List.forall_mem_singleton.mpr
    ⟨"spectral", _, List.mem_of_getElem? (i := 3) rfl, rfl, ?_⟩⟩
  refine ⟨_, rfl, List.forall_mem_singleton.mpr
    ⟨"rules", _, List.mem_of_getElem? (i := 0) rfl, rfl, _, rfl, ?_⟩⟩
  have hnew : ∀ rule ∈ Rule.engineRules, Value.str "house-style" ≠ .str rule.name := by
    simp [Rule.engineRules, Rule.oas, Rule.ibm]
  refine List.forall_mem_cons.mpr ⟨⟨.status, .other List.mem_cons_self hnew, ?_⟩,
    List.forall_mem_singleton.mpr ⟨_, .declared (List.mem_of_getElem? (i := 13) rfl) rfl, ?_⟩⟩
  · exact RuleKind.allows_status.mpr (by simp [statuses])
  · exact RuleKind.allows_status.mpr (by simp [statuses])

theorem merge_valid_sample :
    houseRules.IsSound ∧ complaints houseRules = .ok [] ∧
      ∃ merged, overlayAny defaults houseRules = .ok merged ∧ complaints merged = .ok [] := by
  refine ⟨houseRules_isSound, houseRules_complaints, ?_⟩
  obtain ⟨merged, -, hmerged, hvalid, -⟩ := merge_valid houseRules_isSound houseRules_complaints none
  exact ⟨merged, hmerged, hvalid⟩

end Config

end ApiLint
