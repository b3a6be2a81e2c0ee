import ApiLint.Engine.Ruleset
import ApiLint.Proofs.Config.Merge
import ApiLint.Proofs.Text.Order

/-! From a configuration to the ruleset of the rule engine. The rulesets are the standard one and then
those that are asked for, each once; the rules are those of the merged configuration that one of the
rulesets declares, in their order, and each has the word for the status that the configuration gives
it, or else the defaults (`ruleset_correct`). -/
namespace ApiLint.Ruleset

/-- The rule engine's word for a status: all but one are their own. -/
def wordFor (status : Text) : Text :=
  if status = "warning" then "warn" else status

theorem severity_str {s : Text} (hs : s ∈ statuses) : severity (.str s) = .ok (wordFor s) := by
  simp only [statuses, List.mem_cons, List.not_mem_nil, or_false] at hs
  rcases hs with rfl | rfl | rfl | rfl | rfl <;>
    simp [severity, severities, wordFor, List.lookup_cons, beq_eq_decide]

/-- The place of the rules of the rule engine in a configuration. -/
def place : List Value :=
  [.str "spectral", .str "rules"]

/-! ### Rules -/

/-- A name is that of a declared rule of one of some rulesets. -/
def Provides (rulesets : List Text) (name : Value) : Prop :=
  ∃ rule ∈ Rule.engineRules, name = .str rule.name ∧ ∃ r ∈ rulesets, rule.ruleset = some r

theorem declared_engineRules : Rule.declared "spectral" "rules" = Rule.engineRules := by
  simp [Rule.declared, Rule.catalogue, List.lookup_cons, beq_eq_decide]

/-- The rules of the rule engine are found by name, each under its own. -/
theorem find?_engineRule {name : Value} {rule : Rule} :
    Rule.find? "spectral" "rules" name = some rule ↔
      rule ∈ Rule.engineRules ∧ name = .str rule.name := by
  have hnames : (Rule.engineRules.map (·.name)).Nodup :=
    Rule.rules_nodup (List.mem_of_getElem? (i := 3) rfl) (List.mem_of_getElem? (i := 0) rfl)
  rw [Rule.find?, declared_engineRules]
  constructor
  · intro h
    exact ⟨List.mem_of_find?_eq_some h,
      Value.str_same.mp (List.find?_some (p := fun r : Rule => (Value.str r.name).same name) h)⟩
  · intro h
    obtain ⟨hrule, rfl⟩ := h
    cases hfind : Rule.engineRules.find? fun r => (Value.str r.name).same (.str rule.name) with
    | none =>
      have hnot := List.find?_eq_none.mp hfind rule hrule
      exact absurd (Value.same_str.mpr rfl) hnot
    | some rule' =>
      have hsame := List.find?_some (p := fun r : Rule => (Value.str r.name).same (.str rule.name))
        hfind
      have hname : rule'.name = rule.name := Value.str.inj (Value.same_str.mp hsame)
      have hrule' := List.mem_of_find?_eq_some hfind
      rw [List.inj_on_of_nodup_map hnames hrule' hrule hname]

theorem isProvided_iff {rulesets : List Text} {name : Value} :
    isProvided rulesets name = true ↔ Provides rulesets name := by
  simp only [isProvided, Option.any_eq_true, find?_engineRule, List.contains_iff_mem, Provides,
    and_assoc]
  refine exists_congr fun rule => and_congr_right fun _ => and_congr_right fun _ => ?_
  exact exists_congr fun r => and_comm

/-- Where all configured rules have statuses, those that are provided get the words for theirs. -/
theorem rules_eq (rulesets : List Text) {entries : Entries}
    (h : ∀ e ∈ entries, ∃ s ∈ statuses, e.2 = .str s) :
    ∃ found, rules rulesets entries = .ok found ∧
      found.map (·.1) = (entries.map (·.1)).filter (isProvided rulesets) ∧
      ∀ e ∈ found, ∃ s, (e.1, .str s) ∈ entries ∧ e.2 = .str (wordFor s) := by
  induction entries with
  | nil => exact ⟨[], rfl, rfl, List.forall_mem_nil _⟩
  | cons e entries ih =>
    obtain ⟨name, status⟩ := e
    obtain ⟨⟨s, hs, rfl⟩, hrest⟩ := List.forall_mem_cons.mp h
    obtain ⟨found, hfound, hnames, hwords⟩ := ih hrest
    have hwords' : ∀ e ∈ found, ∃ s', (e.1, .str s') ∈ (name, .str s) :: entries ∧
        e.2 = .str (wordFor s') := by
      intro e he
      obtain ⟨s', hmem, hword⟩ := hwords e he
      exact ⟨s', List.mem_cons_of_mem _ hmem, hword⟩
    by_cases hprovided : isProvided rulesets name = true
    · refine ⟨(name, .str (wordFor s)) :: found, ?_, ?_, ?_⟩
      · rw [rules, if_pos hprovided, severity_str hs, hfound]
        rfl
      · rw [List.map_cons, List.map_cons, List.filter_cons_of_pos hprovided, hnames]
      · exact List.forall_mem_cons.mpr ⟨⟨s, List.mem_cons_self, rfl⟩, hwords'⟩
    · refine ⟨found, ?_, ?_, hwords'⟩
      · rw [rules, if_neg hprovided, hfound]
      · rw [List.map_cons, List.filter_cons_of_neg hprovided, hnames]

/-! ### Rulesets -/

/-- The rulesets of a run that are not the standard one. -/
def others (extra : List Text) : List Text :=
  (Text.unique extra).filter (· ≠ standardRuleset)

theorem chosen_eq (extra : List Text) : chosen extra = standardRuleset :: others extra :=
  Text.unique_cons standardRuleset extra

theorem map_extension (extra : List Text) :
    (chosen extra).map extension =
      .texts [standardRuleset, "recommended"] :: (others extra).map .str := by
  have hothers : ∀ r ∈ others extra, extension r = .str r := fun r hr =>
    if_neg (of_decide_eq_true (List.mem_filter.mp hr).2)
  rw [chosen_eq, List.map_cons, List.map_congr_left hothers, extension, if_pos rfl]

theorem others_in_order (extra : List Text) :
    (others extra).Pairwise fun r r' => extra.idxOf r < extra.idxOf r' :=
  (Text.unique_in_order extra).filter _

theorem mem_others {extra : List Text} {r : Text} :
    r ∈ others extra ↔ r ∈ extra ∧ r ≠ standardRuleset := by
  simp [others]

/-- **The ruleset for a valid configuration.** Building it succeeds, whatever rulesets are asked for. It
extends the recommended rules of the standard ruleset and then each other ruleset once, in the order in
which they are mentioned first. Its rules are those of the merged configuration that one of these
rulesets declares, each once and in the order of the configuration, with the word for the status that
the configuration gives, or else the defaults. -/
theorem ruleset_correct {v : Value} (hv : v.IsSound) (h : Config.complaints v = .ok [])
    (extra : List Text) (source : Option Path) :
    ∃ (merged : Value) (c : Config) (found : Entries) (more : List Text) (provided : Entries),
      Config.overlayAny Config.defaults v = .ok merged ∧ Config.ofOverride source v = .ok c ∧
      c.engineRules = .ok found ∧
      build found (chosen extra) = .ok (.record
        [("extends", .list (.texts [standardRuleset, "recommended"] :: more.map .str)),
         ("rules", .map provided)]) ∧
      (more.Nodup ∧ (∀ r, r ∈ more ↔ r ∈ extra ∧ r ≠ standardRuleset) ∧
        more.Pairwise fun r r' => extra.idxOf r < extra.idxOf r') ∧
      ((provided.map (·.1)).Nodup ∧ (provided.map (·.1)).Sublist (merged.namesAt place) ∧
        ∀ name, name ∈ provided.map (·.1) ↔
          name ∈ merged.namesAt place ∧ Provides (standardRuleset :: extra) name) ∧
      ∀ e ∈ provided, ∃ s : Text,
        (v.under? (place ++ [e.1])).or (Config.defaults.under? (place ++ [e.1])) = some (.str s) ∧
          e.2 = .str (wordFor s) := by
  obtain ⟨merged, hmerged⟩ := Config.exists_merges hv h
  have hkeys : (merged.namesAt place).Pairwise Value.Differ :=
    hmerged.layered.namesAt List.Pairwise.nil (by decide)
  obtain ⟨provided, hrules, hnames, hwords⟩ :=
    rules_eq (chosen extra) hmerged.conforms.engineStatus
  have hprovides : ∀ name, isProvided (chosen extra) name = true ↔
      Provides (standardRuleset :: extra) name := by
    intro name
    simp only [isProvided_iff, Provides, chosen, Text.mem_unique]
  refine ⟨merged, ⟨merged, source⟩, _, others extra, provided, hmerged.result,
    hmerged.ofOverride h source, hmerged.engineRules source, ?_,
    ⟨(Text.unique_nodup extra).filter _, fun _ => mem_others, others_in_order extra⟩,
    ⟨?_, ?_, ?_⟩, ?_⟩
  · rw [build, hrules, map_extension]
    rfl
  · rw [hnames]
    refine (hkeys.filter _).imp_of_mem fun {k l} _ hl hdiffer heq => ?_
    obtain ⟨rule, -, hname, -⟩ := (hprovides l).mp (List.mem_filter.mp hl).2
    rw [hname] at hdiffer heq
    exact Value.same_str_eq_false.mp hdiffer heq
  · rw [hnames]
    exact List.filter_sublist
  · intro name
    rw [hnames, List.mem_filter, hprovides]
    rfl
  · intro e he
    obtain ⟨s, hs, hword⟩ := hwords e he
    have hname : e.1 ∈ provided.map (·.1) := List.mem_map_of_mem he
    rw [hnames, List.mem_filter, hprovides] at hname
    obtain ⟨rule, -, hname, -⟩ := hname.2
    refine ⟨s, ?_, hword⟩
    rw [← hmerged.under? _ (by rfl), hname]
    exact Value.under?_of_mem_entriesAt (hkeys.imp Value.Differ.apart) (hname ▸ hs)

theorem ruleset_correct_sample :
    Config.houseRules.IsSound ∧ Config.complaints Config.houseRules = .ok [] ∧
      ∃ (c : Config) (found : Entries) (document : Value),
        Config.ofOverride none Config.houseRules = .ok c ∧ c.engineRules = .ok found ∧
          build found (chosen [vendorRuleset, standardRuleset]) = .ok document := by
  refine ⟨Config.houseRules_isSound, Config.houseRules_complaints, ?_⟩
  obtain ⟨_, c, found, _, _, -, hc, hfound, hbuild, -⟩ := ruleset_correct Config.houseRules_isSound
    Config.houseRules_complaints [vendorRuleset, standardRuleset] none
  exact ⟨c, found, _, hc, hfound, hbuild⟩

end ApiLint.Ruleset
