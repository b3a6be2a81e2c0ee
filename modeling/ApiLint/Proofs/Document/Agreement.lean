import ApiLint.Document.Line
import ApiLint.Proofs.Value.Place
import ApiLint.Proofs.Value.Same
import ApiLint.Proofs.Yaml.Content
import ApiLint.Proofs.Yaml.Whole
import ApiLint.Yaml.Graph.Value
import Mathlib.Data.List.Nodup

/-! The locator and the data of a document agree. Both go through the same nodes, but by different
rules: the data is asked for a key or an index as a value, the locator compares the texts of key
nodes and reads indices from what it is given. On plain trees this makes no difference. A place of
the data is followed to its end, to the very node that the value there was built from
(`lineOf_agrees`); and what cannot be followed further changes nothing. -/
namespace ApiLint

open Yaml (Node Head build)

/-! ### Plain trees -/

namespace Yaml.Node

def name : Node → Text
  | .scalar _ text => text
  | _ => []

/-- Whether a node is a key that is a text, or a whole number spelled as it is written. -/
inductive IsName : Node → Prop
  | text (head : Head) (t : Text) : scalarKind head.tag t = .str → IsName (.scalar head t)
  | whole (head : Head) (n : Int) : head.tag = none → IsName (.scalar head (Value.int n).text)

/-- Whether a node is a tree without aliases whose collections have no tags and whose keys are names
with different texts. -/
inductive IsPlain : Node → Prop
  | scalar (head : Head) (text : Text) : IsPlain (.scalar head text)
  | sequence (head : Head) (items : List Node) : head.tag = none →
      (∀ item ∈ items, IsPlain item) → IsPlain (.sequence head items)
  | mapping (head : Head) (entries : List (Node × Node)) : head.tag = none →
      (∀ e ∈ entries, IsName e.1) → (entries.map fun e => e.1.name).Nodup →
      (∀ e ∈ entries, IsPlain e.2) → IsPlain (.mapping head entries)

/-- Whether a node is a tree without aliases whose collections have no tags and whose keys are names,
of which several may be the same. -/
inductive IsNamed : Node → Prop
  | scalar (head : Head) (text : Text) : IsNamed (.scalar head text)
  | sequence (head : Head) (items : List Node) : head.tag = none →
      (∀ item ∈ items, IsNamed item) → IsNamed (.sequence head items)
  | mapping (head : Head) (entries : List (Node × Node)) : head.tag = none →
      (∀ e ∈ entries, IsName e.1) → (∀ e ∈ entries, IsNamed e.2) → IsNamed (.mapping head entries)

/-- One step down: the entry or the item that a step finds in the data was built from `child`, and
its key, or the item itself, starts on the line `below`. -/
inductive Leads (document : Nat) : Node → Step → Nat → Node → Prop
  | key {head : Head} {entries : List (Node × Node)} {key child : Node} {s : Step} :
      (key, child) ∈ entries → build document key = .ok s.value →
      Leads document (.mapping head entries) s key.line child
  | item {head : Head} {items : List Node} {child : Node} {i : Nat} :
      items[i]? = some child → Leads document (.sequence head items) (.whole i) child.line child

/-- A row of steps down. The line is counted from one and is that of the last step; where there is
no step it stays as it was. -/
inductive Descends (document : Nat) : Nat → Node → List Step → Nat → Node → Prop
  | here (line : Nat) (node : Node) : Descends document line node [] line node
  | step {line below line' : Nat} {node child node' : Node} {s : Step} {p : List Step} :
      Leads document node s below child → Descends document (below + 1) child p line' node' →
      Descends document line node (s :: p) line' node'

/-- Whether a step leads nowhere from a node: it is a scalar, or a mapping with no key of that text,
or a sequence of which the step means no valid index. A number too long to be written has no text to
be compared with a key. -/
def Stops (s : Value) : Node → Prop
  | .scalar _ _ => True
  | .mapping _ entries =>
    (s.hasLongNumeral = true → entries = []) ∧ ∀ e ∈ entries, e.1.name ≠ s.text
  | .sequence _ items => ∃ i?, Locator.index? s = .ok i? ∧
      ∀ i, i? = some i → ¬(0 ≤ i ∧ i < items.length)
  | .alias _ => False

end Yaml.Node

/-! ### Keys -/

namespace Yaml

variable {document : Nat} {key : Node}

/-- The value of a name is a step, and the name is how the step is written. -/
theorem Node.IsName.exists_step (h : key.IsName) {k : Value} (hk : build document key = .ok k) :
    ∃ s : Step, k = s.value ∧ s.value.text = key.name ∧ s.value.hasLongNumeral = false := by
  cases h with
  | text head t hkind =>
    have hv := build_scalar_eq_ok hk
    rw [hkind] at hv
    obtain rfl := Except.ok.inj hv
    exact ⟨.text t, rfl, rfl, rfl⟩
  | whole head n htag =>
    have hv := build_scalar_eq_ok hk
    rw [htag, scalarKind, kindOfText_int] at hv
    obtain ⟨m, hm, rfl⟩ := Except.map_eq_ok.mp hv
    obtain ⟨rfl, hshort⟩ := readWhole_int_eq_ok hm
    exact ⟨.whole m, rfl, rfl, hshort⟩

theorem Node.IsName.isName (h : key.IsName) : key.kind.isName = true := by
  cases h with
  | text head t hkind => rw [Node.kind, hkind]; rfl
  | whole head n htag => rw [Node.kind, htag, scalarKind, kindOfText_int]; rfl

theorem areTrees_of_forall {items : List Node} (h : ∀ item ∈ items, item.isTree = true) :
    areTrees items = true := by
  induction items with
  | nil => rfl
  | cons item items ih =>
    rw [areTrees, h item List.mem_cons_self, ih fun i hi => h i (List.mem_cons_of_mem _ hi)]
    rfl

/-- A mapping is a tree when its keys are names and its values are trees. -/
theorem areTreeEntries_of_forall {entries : List (Node × Node)}
    (hnames : ∀ e ∈ entries, e.1.IsName) (h : ∀ e ∈ entries, e.2.isTree = true) :
    areTreeEntries entries = true := by
  induction entries with
  | nil => rfl
  | cons e entries ih =>
    obtain ⟨k, v⟩ := e
    have hk := hnames (k, v) List.mem_cons_self
    have htree : k.isTree = true := by
      cases hk <;> rfl
    rw [areTreeEntries, hk.isName, htree, h (k, v) List.mem_cons_self,
      ih (fun f hf => hnames f (List.mem_cons_of_mem _ hf))
        fun f hf => h f (List.mem_cons_of_mem _ hf)]
    rfl

theorem Node.IsNamed.isTree {node : Node} (h : node.IsNamed) : node.isTree = true := by
  induction h with
  | scalar head text => rfl
  | sequence head items htag hitems ih => exact areTrees_of_forall ih
  | mapping head entries htag hnames hvalues ih => exact areTreeEntries_of_forall hnames ih

theorem Node.IsPlain.isNamed {node : Node} (h : node.IsPlain) : node.IsNamed := by
  induction h with
  | scalar head text => exact .scalar head text
  | sequence head items htag hitems ih => exact .sequence head items htag ih
  | mapping head entries htag hnames hdistinct hvalues ih => exact .mapping head entries htag hnames ih

/-- In a plain tree a step is found in one entry or item only. -/
theorem Node.Leads.unique {node child child' : Node} {s : Step} {below below' : Nat}
    (hplain : node.IsPlain) (h : node.Leads document s below child)
    (h' : node.Leads document s below' child') : below' = below ∧ child' = child := by
  cases hplain with
  | scalar head text => cases h
  | sequence head items htag hitems =>
    cases h with
    | item hi =>
      cases h' with
      | item hi' =>
        rw [hi] at hi'
        cases hi'
        exact ⟨rfl, rfl⟩
  | mapping head entries htag hnames hdistinct hvalues =>
    cases h with
    | key hmem hkey =>
      cases h' with
      | key hmem' hkey' =>
        obtain ⟨t, ht, hname, -⟩ := (hnames _ hmem).exists_step hkey
        obtain ⟨t', ht', hname', -⟩ := (hnames _ hmem').exists_step hkey'
        have heq := List.inj_on_of_nodup_map hdistinct hmem' hmem
          (by rw [← hname', ← hname, ← ht, ← ht'])
        cases heq
        exact ⟨rfl, rfl⟩

theorem Node.Leads.isPlain {node child : Node} {s : Step} {below : Nat}
    (hplain : node.IsPlain) (h : node.Leads document s below child) : child.IsPlain := by
  cases hplain with
  | scalar head text => cases h
  | sequence head items htag hitems =>
    cases h with
    | item hi => exact hitems _ (List.mem_of_getElem? hi)
  | mapping head entries htag hnames hdistinct hvalues =>
    cases h with
    | key hmem hkey => exact hvalues _ hmem

/-- A path leads to one place at most: in a plain tree each step is found once. -/
theorem Node.Descends.unique {line below below' : Nat} {node child child' : Node} {p : List Step}
    (hplain : node.IsPlain) (h : node.Descends document line p below child)
    (h' : node.Descends document line p below' child') : below' = below ∧ child' = child := by
  induction h with
  | here line node =>
    cases h'
    exact ⟨rfl, rfl⟩
  | step hlead _ ih =>
    cases h' with
    | step hlead' hdown' =>
      obtain ⟨rfl, rfl⟩ := hlead.unique hplain hlead'
      exact ih (hlead.isPlain hplain) hdown'

/-- What the entries of a plain mapping are built into: keys with different texts are different
keys. -/
theorem ofPairs_of_names {entries : List (Node × Node)} {pairs : List (Value × Value)}
    (hnames : ∀ e ∈ entries, e.1.IsName) (hdistinct : (entries.map fun e => e.1.name).Nodup)
    (hpairs : List.Forall₂ (fun e q => (build document e.1 = .ok q.1 ∧ q.1.isKey = true) ∧
      build document e.2 = .ok q.2) entries pairs) :
    Entries.ofPairs pairs = pairs := by
  apply Entries.ofPairs_eq_self
  induction hpairs with
  | nil => exact .nil
  | @cons e q entries pairs he hpairs ih =>
    rw [List.map_cons, List.nodup_cons] at hdistinct
    refine .cons (fun r hr => ?_) (ih (fun f hf => hnames f (List.mem_cons_of_mem _ hf))
      hdistinct.2)
    obtain ⟨f, hf, hfr⟩ := List.exists_mem_of_forall₂ hpairs hr
    obtain ⟨s, hs, hsname, -⟩ := (hnames e List.mem_cons_self).exists_step he.1.1
    obtain ⟨t, ht, htname, -⟩ := (hnames f (List.mem_cons_of_mem _ hf)).exists_step hfr.1.1
    rw [hs, ht, ← Bool.not_eq_true, Step.same_value]
    intro heq
    obtain rfl := heq
    exact hdistinct.1 (List.mem_map.mpr ⟨f, hf, htname.symm.trans hsname⟩)

end Yaml

/-! ### One step -/

namespace Locator

variable {document : Nat} {l : Locator} {node : Node} {s : Step}

theorem resolve?_of_isNamed (h : node.IsNamed) : l.document.resolve? node = some node := by
  cases h <;> rfl

theorem entry?_cons {t : Text} {key child : Node} {entries : List (Node × Node)}
    (h : key.IsName) :
    l.entry? t ((key, child) :: entries) =
      if key.name = t then some (key.line, child) else l.entry? t entries := by
  cases h <;> rfl

/-- Among keys with different texts each is found by its text. -/
theorem entry?_of_mem {entries : List (Node × Node)} {key child : Node}
    (hnames : ∀ e ∈ entries, e.1.IsName) (hdistinct : (entries.map fun e => e.1.name).Nodup)
    (hmem : (key, child) ∈ entries) :
    l.entry? key.name entries = some (key.line, child) := by
  induction entries with
  | nil => cases hmem
  | cons e entries ih =>
    obtain ⟨k, c⟩ := e
    rw [List.map_cons, List.nodup_cons] at hdistinct
    rw [entry?_cons (hnames _ List.mem_cons_self)]
    obtain heq | hmem := List.mem_cons.mp hmem
    · cases heq
      exact if_pos rfl
    · rw [if_neg fun ht => hdistinct.1 (List.mem_map.mpr ⟨(key, child), hmem, ht.symm⟩)]
      exact ih (fun f hf => hnames f (List.mem_cons_of_mem _ hf)) hdistinct.2 hmem

/-- A text that no key has is not found. -/
theorem entry?_eq_none {entries : List (Node × Node)} {t : Text}
    (hnames : ∀ e ∈ entries, e.1.IsName) (ht : ∀ e ∈ entries, e.1.name ≠ t) :
    l.entry? t entries = none := by
  induction entries with
  | nil => rfl
  | cons e entries ih =>
    obtain ⟨k, c⟩ := e
    rw [entry?_cons (hnames _ List.mem_cons_self), if_neg (ht (k, c) List.mem_cons_self)]
    exact ih (fun f hf => hnames f (List.mem_cons_of_mem _ hf))
      fun f hf => ht f (List.mem_cons_of_mem _ hf)

/-- A step that the data can take, the locator takes to the node that the part was built from. -/
theorem step_of_part? {v w : Value} (hplain : node.IsPlain) (hv : build document node = .ok v)
    (hw : v.part? s = some w) :
    ∃ below child, node.Leads document s below child ∧ child.IsPlain ∧
      build document child = .ok w ∧ l.step s.value node = .ok (some (below, child)) := by
  cases hplain with
  | scalar head text =>
    rw [Yaml.scalarValue_part? (Yaml.build_scalar_eq_ok hv)] at hw
    cases hw
  | sequence head items htag hitems =>
    obtain ⟨vs, hvs, rfl⟩ := (Yaml.build_sequence_eq_ok htag).mp hv
    cases s with
    | text t => cases hw
    | whole i =>
      rw [Value.part?] at hw
      split at hw
      · next hi =>
        obtain ⟨child, hchild, hbuild⟩ := List.exists_getElem?_of_forall₂ hvs hw
        have hplain := hitems child (List.mem_of_getElem? hchild)
        have hlead : Node.Leads document (.sequence head items) (.whole i.toNat) child.line child :=
          .item hchild
        rw [Int.toNat_of_nonneg hi] at hlead
        refine ⟨child.line, child, hlead, hplain, hbuild, ?_⟩
        show Except.ok ((item? i items).bind fun item => (l.document.resolve? item).bind _) = _
        rw [item?, if_pos hi, hchild, Option.bind_some, resolve?_of_isNamed hplain.isNamed]
        rfl
      · cases hw
  | mapping head entries htag hnames hdistinct hvalues =>
    obtain ⟨pairs, hpairs, rfl⟩ := (Yaml.build_mapping_eq_ok htag).mp hv
    rw [Yaml.ofPairs_of_names hnames hdistinct hpairs] at hw
    obtain ⟨k, hmem, hsame⟩ := Entries.exists_of_find? hw
    obtain ⟨⟨key, child⟩, hentry, ⟨hkey, -⟩, hchild⟩ := List.exists_mem_of_forall₂ hpairs hmem
    obtain ⟨t, rfl, hname, hshort⟩ := (hnames _ hentry).exists_step hkey
    obtain rfl := Step.same_value.mp hsame
    have hfound := entry?_of_mem (l := l) hnames hdistinct hentry
    refine ⟨key.line, child, .key hentry hkey, hvalues _ hentry, hchild, ?_⟩
    show (if _ then _ else _) = _
    rw [hshort, Bool.false_and, if_neg Bool.false_ne_true, hname, hfound]
    show Except.ok ((l.document.resolve? child).bind _) = _
    rw [resolve?_of_isNamed (hvalues _ hentry).isNamed]
    rfl

/-- A step that leads nowhere is not taken. -/
theorem step_of_stops {segment : Value} (hnamed : node.IsNamed) (h : node.Stops segment) :
    l.step segment node = .ok none := by
  cases hnamed with
  | scalar head text => rfl
  | sequence head items htag hitems =>
    obtain ⟨i?, hindex, houtside⟩ := h
    show (index? segment).map _ = _
    rw [hindex]
    cases i? with
    | none => rfl
    | some i =>
      have hitem : item? i items = none := by
        rw [item?]
        split
        · next hi =>
          rw [List.getElem?_eq_none_iff]
          have := houtside i rfl
          omega
        · rfl
      show Except.ok ((item? i items).bind _) = _
      rw [hitem]
      rfl
  | mapping head entries htag hnames hvalues =>
    obtain ⟨hlong, hother⟩ := h
    have hwritten : (segment.hasLongNumeral && !entries.isEmpty) = false := by
      cases hs : segment.hasLongNumeral with
      | false => rfl
      | true => rw [hlong hs]; rfl
    show (if _ then _ else _) = _
    rw [hwritten, if_neg Bool.false_ne_true, entry?_eq_none hnames hother]
    rfl

/-! ### All steps -/

/-- Following steps from a node: the line of the last step that could be taken, the node that it led
to, and the steps that were not taken. -/
def trace (l : Locator) (line : Nat) (node : Node) :
    List Value → Except Failure (Nat × Node × List Value)
  | [] => .ok (line, node, [])
  | segment :: path =>
    match l.step segment node with
    | .error e => .error e
    | .ok none => .ok (line, node, segment :: path)
    | .ok (some (found, next)) => trace l (found + 1) next path

/-- What the locator comes to is where its trace ends. -/
theorem follow_eq_trace (line : Nat) (path : List Value) :
    l.follow line node path = (l.trace line node path).map (·.1) := by
  induction path generalizing line node with
  | nil => rfl
  | cons segment path ih =>
    rw [follow, trace]
    cases l.step segment node with
    | error e => rfl
    | ok taken =>
      cases taken with
      | none => rfl
      | some taken => exact ih (taken.1 + 1)

/-- What comes after steps that were all taken is followed from the node that they led to. -/
theorem trace_append {line line' : Nat} {node' : Node} {p : List Value} (q : List Value)
    (h : l.trace line node p = .ok (line', node', [])) :
    l.trace line node (p ++ q) = l.trace line' node' q := by
  induction p generalizing line node with
  | nil =>
    cases h
    rfl
  | cons segment p ih =>
    rw [trace] at h
    rw [List.cons_append, trace]
    split at h
    · cases h
    · cases h
    · exact ih h

/-- A place of the data is followed to its end. -/
theorem trace_of_at? {v w : Value} {p : List Step} (line : Nat) (hplain : node.IsPlain)
    (hv : build document node = .ok v) (hw : v.at? p = some w) :
    ∃ line' node', node'.IsPlain ∧ build document node' = .ok w ∧
      Node.Descends document line node p line' node' ∧
      l.trace line node (p.map Step.value) = .ok (line', node', []) := by
  induction p generalizing line node v with
  | nil =>
    obtain rfl := Option.some.inj hw
    exact ⟨line, node, hplain, hv, .here line node, rfl⟩
  | cons s p ih =>
    obtain ⟨part, hpart, hw⟩ := Option.bind_eq_some_iff.mp hw
    obtain ⟨below, child, hlead, hchild, hbuild, hstep⟩ := step_of_part? (l := l) hplain hv hpart
    obtain ⟨line', node', hplain', hbuild', hdown, htrace⟩ := ih (below + 1) hchild hbuild hw
    refine ⟨line', node', hplain', hbuild', .step hlead hdown, ?_⟩
    rw [List.map_cons, trace, hstep]
    exact htrace

end Locator

/-- **The locator and the data agree on plain trees.** Every place of the data is followed to its end,
to the one node that the value there was built from, and has the line of the last key or item on the
way. Where that node can be followed no further, what comes after it leaves the line as it is. -/
theorem lineOf_agrees (d : Yaml.Document) (root : Node) (hroot : d.root? = some root)
    (hplain : root.IsPlain) (document : Nat) (v : Value) (hv : d.value document = .ok v)
    (p : List Step) (w : Value) (hw : v.at? p = some w) :
    ∃ line node, build document node = .ok w ∧
      (∀ line' node', root.Descends document 0 p line' node' ↔ line' = line ∧ node' = node) ∧
      Locator.trace ⟨d⟩ 0 root (p.map Step.value) = .ok (line, node, []) ∧
      Locator.lineOf ⟨d⟩ (p.map Step.value) = .ok line ∧
      ∀ s rest, node.Stops s → Locator.lineOf ⟨d⟩ (p.map Step.value ++ s :: rest) = .ok line := by
  have hbuild : build document root = .ok v := by
    rw [Yaml.Document.value, hroot] at hv
    simp only [hplain.isNamed.isTree, if_true] at hv
    exact Except.mapError_ok_iff.mp hv
  have hline : ∀ path, Locator.lineOf ⟨d⟩ path = (Locator.trace ⟨d⟩ 0 root path).map (·.1) := by
    intro path
    rw [Locator.lineOf, ← Locator.follow_eq_trace]
    simp only [hroot]
    rfl
  obtain ⟨line, node, hplain', hbuild', hdown, htrace⟩ :=
    Locator.trace_of_at? (l := ⟨d⟩) 0 hplain hbuild hw
  refine ⟨line, node, hbuild', fun line' node' => ⟨hdown.unique hplain, ?_⟩, htrace, ?_, ?_⟩
  · intro h
    obtain ⟨rfl, rfl⟩ := h
    exact hdown
  · rw [hline, htrace]
    rfl
  · intro s rest hstops
    rw [hline, Locator.trace_append _ htrace, Locator.trace, Locator.step_of_stops hplain'.isNamed hstops]
    rfl

/-- A mapping with a sequence whose second item is a mapping with a number as its key. -/
def sampleRoot : Node :=
  .mapping { mark := ⟨0, 0⟩ }
    [(.scalar { mark := ⟨0, 0⟩ } "tags", .sequence { mark := ⟨1, 6⟩ }
      [.scalar { mark := ⟨1, 8⟩ } "dog", .mapping { mark := ⟨2, 14⟩ }
        [(.scalar { mark := ⟨2, 14⟩ } "1", .scalar { mark := ⟨2, 17⟩ } "cat")]])]

theorem sampleRoot_isPlain : sampleRoot.IsPlain := by
  refine .mapping _ _ rfl (List.forall_mem_singleton.mpr ?_) (by decide)
    (List.forall_mem_singleton.mpr ?_)
  · exact .text _ _ (by decide +kernel)
  · refine .sequence _ _ rfl (List.forall_mem_cons.mpr ⟨.scalar _ _, ?_⟩)
    refine List.forall_mem_singleton.mpr (.mapping _ _ rfl (List.forall_mem_singleton.mpr ?_)
      (by decide) (List.forall_mem_singleton.mpr ?_))
    · exact .whole _ 1 rfl
    · exact .scalar _ _

theorem lineOf_agrees_sample :
    Locator.lineOf ⟨.ofRoot sampleRoot⟩ [.str "tags", .int 1, .int 1] = .ok 3 ∧
      ∀ s rest, Locator.lineOf ⟨.ofRoot sampleRoot⟩ ([.str "tags", .int 1, .int 1] ++
        s :: rest) = .ok 3 := by
  obtain ⟨line, node, -, hdown, -, hline, hstop⟩ :=
    lineOf_agrees (.ofRoot sampleRoot) sampleRoot rfl sampleRoot_isPlain 0 _ rfl
      [.text "tags", .whole 1, .whole 1] (.str "cat") rfl
  obtain ⟨rfl, rfl⟩ := (hdown 3 (.scalar { mark := ⟨2, 17⟩ } "cat")).mp
    (.step (.key List.mem_cons_self rfl) (.step (.item (i := 1) rfl)
      (.step (.key List.mem_cons_self rfl) (.here _ _))))
  exact ⟨hline, fun s rest => hstop s rest trivial⟩

end ApiLint
