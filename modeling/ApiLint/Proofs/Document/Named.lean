import ApiLint.Proofs.Document.Agreement
import ApiLint.Proofs.Value.Kept

/-! Trees in which a key may come up again. What is built from them keeps the last entry of each key,
while the locator takes the first one whose key has the text of a step (`lineOf_of_reaches`). Where a key
is the only one of its text both take the same entry. -/
namespace ApiLint

namespace Yaml.Node

variable {document below : Nat} {node child key : Node} {earlier later : List (Node × Node)}
variable {s : Step} {p : List Step} {v w : Value}

/-! ### Choices -/

/-- Which entries are taken for a step, from what stands in front of an entry and behind it. -/
abbrev Choice := List (Node × Node) → Node → List (Node × Node) → Step → Prop

/-- The last entry with a key. -/
def Kept (document : Nat) : Choice := fun _ key later s =>
  build document key = .ok s.value ∧ ∀ e ∈ later, build document e.1 ≠ .ok s.value

/-- The first entry whose key has the text of a step. A number too long to be written has no text. -/
def Found : Choice := fun earlier key _ s =>
  (s.value.hasLongNumeral = false ∧ key.name = s.value.text) ∧
    ∀ e ∈ earlier, e.1.name ≠ s.value.text

/-- The only entry whose key has the text of a step. -/
def Sole (document : Nat) : Choice := fun earlier key later s =>
  build document key = .ok s.value ∧ ∀ e ∈ earlier ++ later, e.1.name ≠ s.value.text

theorem Sole.kept (hlater : ∀ e ∈ later, e.1.IsName) (h : Sole document earlier key later s) :
    Kept document earlier key later s := by
  obtain ⟨hkey, hother⟩ := h
  refine ⟨hkey, fun e he hsame => hother e (List.mem_append_right _ he) ?_⟩
  obtain ⟨t, ht, hname, -⟩ := (hlater e he).exists_step hsame
  rw [← hname, ht]

theorem Sole.found (hkey : key.IsName) (h : Sole document earlier key later s) :
    Found earlier key later s := by
  obtain ⟨hbuild, hother⟩ := h
  obtain ⟨t, ht, hname, hshort⟩ := hkey.exists_step hbuild
  rw [← ht] at hname hshort
  exact ⟨⟨hshort, hname.symm⟩, fun e he => hother e (List.mem_append_left _ he)⟩

/-! ### Steps -/

/-- One step down, to an item or to the value of an entry. The key of the entry, or the item itself,
starts on the line `below`. -/
inductive Enters (choice : Choice) : Node → Step → Nat → Node → Prop
  | item {head : Head} {items : List Node} {child : Node} {i : Nat} :
      items[i]? = some child → Enters choice (.sequence head items) (.whole i) child.line child
  | entry {head : Head} {earlier later : List (Node × Node)} {key child : Node} {s : Step} :
      choice earlier key later s →
      Enters choice (.mapping head (earlier ++ (key, child) :: later)) s key.line child

/-- One step down or more. The line is that of the last one. -/
inductive Reaches (choice : Choice) : Node → List Step → Nat → Node → Prop
  | last {node child : Node} {s : Step} {below : Nat} :
      Enters choice node s below child → Reaches choice node [s] below child
  | step {node child child' : Node} {s : Step} {p : List Step} {below below' : Nat} :
      Enters choice node s below child → Reaches choice child p below' child' →
      Reaches choice node (s :: p) below' child'

variable {choice choice' : Choice}

theorem Enters.isNamed (hnamed : node.IsNamed) (h : node.Enters choice s below child) :
    child.IsNamed := by
  cases h with
  | item hi =>
    cases hnamed with
    | sequence _ _ _ hitems => exact hitems _ (List.mem_of_getElem? hi)
  | entry _ =>
    cases hnamed with
    | mapping _ _ _ _ hvalues =>
      exact hvalues _ (List.mem_append_right _ List.mem_cons_self)

theorem Reaches.ne_nil (h : node.Reaches choice p below child) : p ≠ [] := by
  cases h <;> exact List.cons_ne_nil _ _

theorem Reaches.isNamed (hnamed : node.IsNamed) (h : node.Reaches choice p below child) :
    child.IsNamed := by
  induction h with
  | last henter => exact henter.isNamed hnamed
  | step henter _ ih => exact ih (henter.isNamed hnamed)

/-- Another choice that takes the same entry among names takes the same step. -/
theorem Enters.of_names
    (hchoice : ∀ earlier key later s, key.IsName → (∀ e ∈ later, e.1.IsName) →
      choice earlier key later s → choice' earlier key later s)
    (hnamed : node.IsNamed) (h : node.Enters choice s below child) :
    node.Enters choice' s below child := by
  cases h with
  | item hi => exact .item hi
  | entry htaken =>
    cases hnamed with
    | mapping _ _ _ hnames _ =>
      obtain ⟨-, hrest⟩ := List.forall_mem_append.mp hnames
      obtain ⟨hkey, hlater⟩ := List.forall_mem_cons.mp hrest
      exact .entry (hchoice _ _ _ _ hkey hlater htaken)

theorem Reaches.of_names
    (hchoice : ∀ earlier key later s, key.IsName → (∀ e ∈ later, e.1.IsName) →
      choice earlier key later s → choice' earlier key later s)
    (hnamed : node.IsNamed) (h : node.Reaches choice p below child) :
    node.Reaches choice' p below child := by
  induction h with
  | last henter => exact .last (henter.of_names hchoice hnamed)
  | step henter _ ih => exact .step (henter.of_names hchoice hnamed) (ih (henter.isNamed hnamed))

theorem Reaches.kept_of_sole (hnamed : node.IsNamed)
    (h : node.Reaches (Sole document) p below child) :
    node.Reaches (Kept document) p below child :=
  h.of_names (fun _ _ _ _ _ hlater htaken => htaken.kept hlater) hnamed

theorem Reaches.found_of_sole (hnamed : node.IsNamed)
    (h : node.Reaches (Sole document) p below child) : node.Reaches Found p below child :=
  h.of_names (fun _ _ _ _ hkey _ htaken => htaken.found hkey) hnamed

/-! ### Values -/

theorem areSteps_of_names {entries : List (Node × Node)} {pairs : List (Value × Value)}
    (hnames : ∀ e ∈ entries, e.1.IsName)
    (hpairs : List.Forall₂ (fun e q => (build document e.1 = .ok q.1 ∧ q.1.isKey = true) ∧
      build document e.2 = .ok q.2) entries pairs) : Entries.AreSteps pairs := by
  intro q hq
  obtain ⟨e, he, ⟨hkey, -⟩, -⟩ := List.exists_mem_of_forall₂ hpairs hq
  obtain ⟨t, ht, -, -⟩ := (hnames e he).exists_step hkey
  exact ⟨t, ht⟩

/-- A step that the value can take leads to what the part was built from. -/
theorem exists_enters (hnamed : node.IsNamed) (hv : build document node = .ok v)
    (hw : v.part? s = some w) :
    ∃ below child, node.Enters (Kept document) s below child ∧ build document child = .ok w := by
  cases hnamed with
  | scalar head text =>
    rw [scalarValue_part? (build_scalar_eq_ok hv)] at hw
    cases hw
  | sequence head items htag hitems =>
    obtain ⟨vs, hvs, rfl⟩ := (build_sequence_eq_ok htag).mp hv
    cases s with
    | text t => cases hw
    | whole i =>
      obtain ⟨hi, hw⟩ := Option.ite_none_right_eq_some.mp hw
      obtain ⟨child, hchild, hbuild⟩ := List.exists_getElem?_of_forall₂ hvs hw
      refine ⟨child.line, child, ?_, hbuild⟩
      rw [← Int.toNat_of_nonneg hi]
      exact .item hchild
  | mapping head entries htag hnames hvalues =>
    obtain ⟨pairs, hpairs, rfl⟩ := (build_mapping_eq_ok htag).mp hv
    obtain ⟨before, after, rfl, hafter⟩ :=
      (Entries.find?_ofPairs_iff (areSteps_of_names hnames hpairs)).mp hw
    obtain ⟨earlier, rest, rfl, -, hrest⟩ := List.exists_append_of_forall₂ hpairs.flip
    obtain ⟨⟨key, child⟩, later, ⟨⟨hkey, -⟩, hchild⟩, hlater, rfl⟩ :=
      List.forall₂_cons_left_iff.mp hrest
    refine ⟨key.line, child, .entry ⟨hkey, fun e he hsame => ?_⟩, hchild⟩
    obtain ⟨q, hq, ⟨hbuild, -⟩, -⟩ := List.exists_mem_of_forall₂ hlater he
    exact hafter q hq (Except.ok.inj (hbuild.symm.trans hsame))

/-- What a step to a last entry leads to was built into the part of the value there. -/
theorem Enters.exists_part? (hnamed : node.IsNamed) (hv : build document node = .ok v)
    (h : node.Enters (Kept document) s below child) :
    ∃ w, v.part? s = some w ∧ build document child = .ok w := by
  cases h with
  | @item head items child i hi =>
    cases hnamed with
    | sequence _ _ htag _ =>
      obtain ⟨vs, hvs, rfl⟩ := (build_sequence_eq_ok htag).mp hv
      obtain ⟨w, hw, hbuild⟩ := List.exists_getElem?_of_forall₂ hvs.flip hi
      exact ⟨w, Option.ite_none_right_eq_some.mpr ⟨Int.natCast_nonneg i, hw⟩, hbuild⟩
  | @entry head earlier later key child s hkept =>
    obtain ⟨hkey, hlater⟩ := hkept
    cases hnamed with
    | mapping _ _ htag hnames _ =>
      obtain ⟨pairs, hpairs, rfl⟩ := (build_mapping_eq_ok htag).mp hv
      have hsteps := areSteps_of_names hnames hpairs
      obtain ⟨before, rest, rfl, -, hrest⟩ := List.exists_append_of_forall₂ hpairs
      obtain ⟨⟨k, w⟩, after, ⟨⟨hk, -⟩, hw⟩, hafter, rfl⟩ := List.forall₂_cons_left_iff.mp hrest
      obtain rfl : s.value = k := Except.ok.inj (hkey.symm.trans hk)
      refine ⟨w, (Entries.find?_ofPairs_iff hsteps).mpr ⟨before, after, rfl, ?_⟩, hw⟩
      intro q hq hsame
      obtain ⟨e, he, ⟨hbuild, -⟩, -⟩ := List.exists_mem_of_forall₂ hafter hq
      exact hlater e he (hbuild.trans (congrArg Except.ok hsame))

/-- **The value of the last entries**: at a place stands what was built from the node that a row of
steps from last entry to last entry leads to. -/
theorem at?_iff (hnamed : node.IsNamed) (hv : build document node = .ok v) (hp : p ≠ []) :
    v.at? p = some w ↔
      ∃ below child, node.Reaches (Kept document) p below child ∧ build document child = .ok w := by
  induction p generalizing node v with
  | nil => exact absurd rfl hp
  | cons s p ih =>
    show (v.part? s).bind (Value.at? p) = some w ↔ _
    rw [Option.bind_eq_some_iff]
    constructor
    · intro hat
      obtain ⟨part, hpart, hrest⟩ := hat
      obtain ⟨below, child, henter, hbuild⟩ := exists_enters hnamed hv hpart
      obtain rfl | hp := eq_or_ne p []
      · obtain rfl := Option.some.inj hrest
        exact ⟨below, child, .last henter, hbuild⟩
      · obtain ⟨below, last, hreach, hlast⟩ :=
          (ih (henter.isNamed hnamed) hbuild hp).mp hrest
        exact ⟨below, last, .step henter hreach, hlast⟩
    · rintro ⟨below, child, hreach, hw⟩
      cases hreach with
      | last henter =>
        obtain ⟨part, hpart, hbuild⟩ := henter.exists_part? hnamed hv
        exact ⟨part, hpart, congrArg some (Except.ok.inj (hbuild.symm.trans hw))⟩
      | step henter hreach =>
        obtain ⟨part, hpart, hbuild⟩ := henter.exists_part? hnamed hv
        exact ⟨part, hpart, (ih (henter.isNamed hnamed) hbuild hreach.ne_nil).mpr
          ⟨below, child, hreach, hw⟩⟩

/-- What a row of such steps leads to was built. -/
theorem Reaches.exists_build (hnamed : node.IsNamed) (hv : build document node = .ok v)
    (h : node.Reaches (Kept document) p below child) : ∃ w, build document child = .ok w := by
  induction h generalizing v with
  | last henter =>
    obtain ⟨w, -, hw⟩ := henter.exists_part? hnamed hv
    exact ⟨w, hw⟩
  | step henter _ ih =>
    obtain ⟨w, -, hw⟩ := henter.exists_part? hnamed hv
    exact ih (henter.isNamed hnamed) hw

end Yaml.Node

/-! ### Lines -/

namespace Locator

open Yaml (Node)
open Yaml.Node (Found)

variable {l : Locator} {node child : Node} {below : Nat} {s : Step} {p : List Step}
variable {contents : Text}

theorem ofText_of_composed {document : Yaml.Document}
    (h : Yaml.compose (.ofText contents) = .ok document) : ofText contents = .ok ⟨document⟩ := by
  unfold ofText
  generalize Yaml.compose (.ofText contents) = composed at *
  subst h
  rfl

theorem ofText_of_malformed (h : Yaml.compose (.ofText contents) = .error .malformed) :
    ofText contents = .ok ⟨.empty⟩ := by
  unfold ofText
  generalize Yaml.compose (.ofText contents) = composed at *
  subst h
  rfl

theorem lineOf_empty (path : List Value) : lineOf ⟨.empty⟩ path = .ok wholeDocument := by
  rw [lineOf]
  rfl

/-- The locator takes the first key that has the text of a step. -/
theorem entry?_of_found {earlier later : List (Node × Node)} {key child : Node}
    (hnames : ∀ e ∈ earlier ++ (key, child) :: later, e.1.IsName)
    (h : Found earlier key later s) :
    l.entry? s.value.text (earlier ++ (key, child) :: later) = some (key.line, child) := by
  obtain ⟨⟨-, hname⟩, hother⟩ := h
  induction earlier with
  | nil =>
    rw [List.nil_append, entry?_cons (hnames _ List.mem_cons_self), if_pos hname]
  | cons e earlier ih =>
    obtain ⟨k, c⟩ := e
    obtain ⟨hk, hnames⟩ := List.forall_mem_cons.mp hnames
    obtain ⟨hne, hother⟩ := List.forall_mem_cons.mp hother
    rw [List.cons_append, entry?_cons hk, if_neg hne]
    exact ih hnames hother

/-- The locator takes the first entry. -/
theorem step_of_enters (hnamed : node.IsNamed) (h : node.Enters Found s below child) :
    l.step s.value node = .ok (some (below, child)) := by
  have hresolve : l.document.resolve? child = some child := resolve?_of_isNamed (h.isNamed hnamed)
  cases h with
  | @item head items child i hi =>
    show Except.ok ((item? (i : Int) items).bind fun item => (l.document.resolve? item).bind _) = _
    rw [item?, if_pos (Int.natCast_nonneg i), Int.toNat_natCast, hi, Option.bind_some, hresolve]
    rfl
  | entry hfound =>
    cases hnamed with
    | mapping head entries htag hnames hvalues =>
      show (if _ then _ else _) = _
      rw [hfound.1.1, Bool.false_and, if_neg Bool.false_ne_true, entry?_of_found hnames hfound]
      show Except.ok ((l.document.resolve? child).bind _) = _
      rw [hresolve]
      rfl

theorem trace_of_reaches (hnamed : node.IsNamed) (h : node.Reaches Found p below child)
    (line : Nat) : l.trace line node (p.map Step.value) = .ok (below + 1, child, []) := by
  induction h generalizing line with
  | last henter =>
    rw [List.map_singleton, trace, step_of_enters hnamed henter]
    rfl
  | @step node child child' s p below below' henter _ ih =>
    rw [List.map_cons, trace, step_of_enters hnamed henter]
    exact ih (henter.isNamed hnamed) (below + 1)

/-- **The line of the first entries**: a row of steps that goes from first entry to first entry has the
line of the last one, and what cannot be followed from there leaves the line as it is. -/
theorem lineOf_of_reaches {root : Node} (hroot : l.document.root? = some root)
    (hnamed : root.IsNamed) (h : root.Reaches Found p below child) :
    l.lineOf (p.map Step.value) = .ok (below + 1) ∧
      ∀ s rest, child.Stops s → l.lineOf (p.map Step.value ++ s :: rest) = .ok (below + 1) := by
  have hline : ∀ path, l.lineOf path = (l.trace 0 root path).map (·.1) := by
    intro path
    rw [lineOf, ← follow_eq_trace]
    simp only [hroot]
    rfl
  have htrace := trace_of_reaches (l := l) hnamed h 0
  refine ⟨?_, fun s rest hstops => ?_⟩
  · rw [hline, htrace]
    rfl
  · rw [hline, trace_append _ htrace, trace, step_of_stops (h.isNamed hnamed) hstops]
    rfl

end Locator

end ApiLint
