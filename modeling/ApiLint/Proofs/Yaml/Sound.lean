import ApiLint.Proofs.Value.Keyed
import ApiLint.Proofs.Yaml.Content
import ApiLint.Yaml.Graph.Value

/-! What is read from YAML is sound. The value of a tree is put together from sound ones, and a mapping
from its pairs, put one after the other. In a graph the shapes of the nodes are sound, numbers and all;
so is what is assembled from them, and a label is left only on what contains itself. -/
namespace ApiLint.Yaml

/-! ### Texts -/

/-- Whatever its kind, a scalar is built to a value without parts. -/
theorem isScalar_of_scalarValue {kind : Kind} {origin : Origin} {t : Text} {v : Value}
    (h : scalarValue kind origin t = .ok v) : v.isScalar = true := by
  unfold scalarValue at h
  split at h
  · cases h
    rfl
  · obtain ⟨_, -, rfl⟩ := Except.map_eq_ok.mp h
    rfl
  · obtain ⟨_, -, rfl⟩ := Except.map_eq_ok.mp h
    rfl
  · unfold readDecimal at h
    simp only at h
    split at h
    · cases h
    · split at h
      · cases h
        rfl
      · obtain ⟨x, -, rfl⟩ := Except.map_eq_ok.mp h
        split <;> rfl
  · unfold readBytes at h
    split at h
    · cases h
    · split at h
      · cases h
        rfl
      · cases h
  · unfold readTime at h
    split at h
    · cases h
    · split at h
      · split at h
        · cases h
        · cases h
          rfl
      · simp only at h
        split at h
        · cases h
        · cases h
          rfl
  · cases h
    rfl
  · cases h

/-! ### Trees -/

section Trees

variable {document : Nat}

mutual

/-- What is built from a node is sound; keys that are the same come once. -/
theorem build_isSound : ∀ {node : Node} {v : Value}, build document node = .ok v → v.IsSound
  | .scalar head text, v, h => by
    rw [build] at h
    split at h
    · cases h
    · exact .scalar (isScalar_of_scalarValue (Except.mapError_ok_iff.mp h))
  | .sequence head items, v, h => by
    rw [build] at h
    split at h
    · obtain ⟨vs, hvs, rfl⟩ := Except.map_eq_ok.mp h
      exact .list (buildItems_isSound hvs)
    · obtain ⟨vs, hvs, rfl⟩ := Except.map_eq_ok.mp h
      exact .list (buildPairs_isSound hvs)
    · obtain ⟨vs, hvs, rfl⟩ := Except.map_eq_ok.mp h
      exact .list (buildPairs_isSound hvs)
    · cases h
    · cases h
    · cases h
  | .mapping head entries, v, h => by
    rw [build] at h
    split at h
    · obtain ⟨pairs, hpairs, rfl⟩ := Except.map_eq_ok.mp h
      exact .ofPairs (buildEntries_isSound hpairs)
    · obtain ⟨pairs, -, rfl⟩ := Except.map_eq_ok.mp h
      exact .set
    · cases h
    · cases h
    · cases h
    · cases h
  | .alias _, v, h => by
    rw [build] at h
    cases h

theorem buildItems_isSound : ∀ {items : List Node} {vs : List Value},
    buildItems document items = .ok vs → ∀ v ∈ vs, v.IsSound
  | [], vs, h => by
    rw [buildItems] at h
    cases h
    exact List.forall_mem_nil _
  | item :: items, vs, h => by
    rw [buildItems, Built.both_eq_ok] at h
    obtain ⟨x, xs, hx, hxs, rfl⟩ := h
    exact List.forall_mem_cons.mpr
      ⟨build_isSound (Built.below_eq_ok.mp hx), buildItems_isSound hxs⟩

theorem buildPairs_isSound : ∀ {items : List Node} {vs : List Value},
    buildPairs document items = .ok vs → ∀ v ∈ vs, v.IsSound
  | [], vs, h => by
    rw [buildPairs] at h
    cases h
    exact List.forall_mem_nil _
  | .mapping _ [(key, value)] :: items, vs, h => by
    rw [buildPairs, Built.both_eq_ok] at h
    obtain ⟨x, xs, hx, hxs, rfl⟩ := h
    obtain ⟨k, v, hk, hv, rfl⟩ := Built.both_eq_ok.mp hx
    refine List.forall_mem_cons.mpr ⟨.tuple fun w hw => ?_, buildPairs_isSound hxs⟩
    rcases List.mem_pair.mp hw with rfl | rfl
    · exact build_isSound (Built.below_eq_ok.mp hk)
    · exact build_isSound (Built.below_eq_ok.mp hv)
  | .mapping _ [] :: items, vs, h => by cases h
  | .mapping _ (_ :: _ :: _) :: items, vs, h => by cases h
  | .scalar _ _ :: items, vs, h => by cases h
  | .sequence _ _ :: items, vs, h => by cases h
  | .alias _ :: items, vs, h => by cases h

theorem buildEntries_isSound : ∀ {entries : List (Node × Node)} {pairs : List (Value × Value)},
    buildEntries document entries = .ok pairs → ∀ pair ∈ pairs, pair.2.IsSound
  | [], pairs, h => by
    rw [buildEntries] at h
    cases h
    exact List.forall_mem_nil _
  | (key, value) :: entries, pairs, h => by
    rw [buildEntries, Built.both_eq_ok] at h
    obtain ⟨pair, pairs', hpair, hpairs, rfl⟩ := h
    obtain ⟨k, v, -, hv, rfl⟩ := Built.both_eq_ok.mp hpair
    exact List.forall_mem_cons.mpr
      ⟨build_isSound (Built.below_eq_ok.mp hv), buildEntries_isSound hpairs⟩

end

end Trees

/-! ### Values by number -/

namespace Values

variable {values : Values}

def AreSound (values : Values) : Prop :=
  ∀ n v, values.get? n = some v → v.IsSound

theorem get?_setIfInBounds {n m : Nat} {v w : Value}
    (h : get? (values.setIfInBounds n (some v)) m = some w) : w = v ∨ values.get? m = some w := by
  rw [get?, Array.getElem?_setIfInBounds] at h
  split at h
  · split at h
    · exact .inl (Option.some.inj h).symm
    · cases h
  · exact .inr h

theorem AreSound.set {n : Nat} {v : Value} (h : values.AreSound) (hv : v.IsSound) :
    AreSound (values.setIfInBounds n (some v)) := by
  intro m w hw
  rcases get?_setIfInBounds hw with rfl | hw
  · exact hv
  · exact h m w hw

theorem areSound_replicate (size : Nat) : AreSound (Array.replicate size none) := by
  intro n v h
  rw [get?, Array.getElem?_replicate] at h
  split at h <;> cases h

theorem getD_isSound (h : values.AreSound) (n : Nat) : ((values.get? n).getD .null).IsSound := by
  cases hv : values.get? n with
  | none => exact .scalar rfl
  | some v => exact h n v hv

end Values

/-! ### Shapes -/

namespace Assembly

/-- The shapes of the nodes that have come up are sound. -/
def IsSound (a : Assembly) : Prop :=
  a.shapes.AreSound

variable {document : Nat} {a a' : Assembly}

theorem isSound_start (graph : Graph) : (start graph).IsSound :=
  Values.areSound_replicate graph.size

theorem IsSound.record (h : a.IsSound) {n : Nat} {shape : Value} (hshape : shape.IsSound) :
    (a.record n shape).IsSound :=
  Values.AreSound.set h hshape

theorem isScalar_of_scalar {graph : Graph} {n : Nat} {v : Value}
    (h : graph.scalar document n = .ok v) : v.isScalar = true := by
  unfold Graph.scalar at h
  simp only at h
  split at h
  · cases h
  · obtain ⟨text, -, h⟩ := Except.bind_eq_ok.mp h
    split at h
    · cases h
    · exact isScalar_of_scalarValue h

theorem IsSound.visit (h : a.IsSound) {n : Nat} (hvisit : a.visit document n = .ok a') :
    a'.IsSound := by
  unfold Assembly.visit at hvisit
  split at hvisit
  · cases hvisit
    exact h
  · split at hvisit
    · cases hvisit
      exact h.record .again
    · obtain ⟨v, hv, rfl⟩ := Except.map_eq_ok.mp hvisit
      exact h.record (.scalar (isScalar_of_scalar hv))

/-- What has been found so far is sound, and so are the shapes. -/
def Found {α : Type} (part : α → Value) (found : List α × Assembly) : Prop :=
  (∀ x ∈ found.1, (part x).IsSound) ∧ found.2.IsSound

theorem found_visitEntry {found found' : List (Value × Value) × Assembly} {entry : Nat × Nat}
    (h : Found Prod.snd found) (hvisit : visitEntry document found entry = .ok found') :
    Found Prod.snd found' := by
  unfold visitEntry at hvisit
  obtain ⟨a, ha, hvisit⟩ := Except.bind_eq_ok.mp hvisit
  split at hvisit
  · obtain ⟨a', ha', heq⟩ := Except.bind_eq_ok.mp hvisit
    cases heq
    exact ⟨List.forall_mem_cons.mpr ⟨.again, h.1⟩, (h.2.visit ha).visit ha'⟩
  · cases hvisit

theorem IsSound.visitEntries (h : a.IsSound) {n : Nat} {entries : Entries}
    (hvisit : a.visitEntries document n = .ok (entries, a')) :
    (Value.map entries).IsSound ∧ a'.IsSound := by
  unfold Assembly.visitEntries at hvisit
  obtain ⟨graph, -, hvisit⟩ := Except.bind_eq_ok.mp hvisit
  obtain ⟨⟨found, a''⟩, hfound, heq⟩ := Except.bind_eq_ok.mp hvisit
  cases heq
  obtain ⟨hpairs, hsound⟩ := Except.foldlM_induction (fun _ _ _ => found_visitEntry)
    ⟨List.forall_mem_nil _, h⟩ hfound
  exact ⟨.ofPairs fun pair hpair => hpairs pair (List.mem_reverse.mp hpair), hsound⟩

theorem found_visitPair {found found' : List Value × Assembly} {item : Nat} (h : Found id found)
    (hvisit : visitPair document found item = .ok found') : Found id found' := by
  unfold visitPair at hvisit
  split at hvisit
  · obtain ⟨a, ha, hvisit⟩ := Except.bind_eq_ok.mp hvisit
    obtain ⟨a', ha', heq⟩ := Except.bind_eq_ok.mp hvisit
    cases heq
    refine ⟨List.forall_mem_cons.mpr ⟨.tuple fun v hv => ?_, h.1⟩, (h.2.visit ha).visit ha'⟩
    rcases List.mem_pair.mp hv with rfl | rfl <;> exact .again
  · cases hvisit

theorem IsSound.completePairs (h : a.IsSound) {n : Nat} {items : List Nat}
    (hcomplete : (do
      let (found, a) ← items.foldlM (visitPair document) ([], a)
      return a.record n (.list found.reverse)) = Except.ok a') : a'.IsSound := by
  obtain ⟨⟨found, a''⟩, hfound, heq⟩ := Except.bind_eq_ok.mp hcomplete
  cases heq
  obtain ⟨hitems, hsound⟩ := Except.foldlM_induction (fun _ _ _ => found_visitPair)
    ⟨List.forall_mem_nil _, h⟩ hfound
  exact hsound.record (.list fun v hv => hitems v (List.mem_reverse.mp hv))

/-- A node that is completed keeps the shapes sound. -/
theorem IsSound.complete (h : a.IsSound) {n : Nat} (hcomplete : a.complete document n = .ok a') :
    a'.IsSound := by
  unfold Assembly.complete at hcomplete
  simp only at hcomplete
  split at hcomplete
  · obtain ⟨a'', ha'', heq⟩ := Except.bind_eq_ok.mp hcomplete
    cases heq
    have hsound : a''.IsSound :=
      Except.foldlM_induction (fun _ _ _ hb hvisit => hb.visit hvisit) h ha''
    exact hsound.record (.list (List.forall_mem_map.mpr fun _ _ => .again))
  · obtain ⟨⟨entries, a''⟩, hvisit, heq⟩ := Except.bind_eq_ok.mp hcomplete
    cases heq
    obtain ⟨hentries, hsound⟩ := h.visitEntries hvisit
    exact hsound.record hentries
  · obtain ⟨⟨entries, a''⟩, hvisit, heq⟩ := Except.bind_eq_ok.mp hcomplete
    cases heq
    exact (h.visitEntries hvisit).2.record .set
  · exact h.completePairs hcomplete
  · exact h.completePairs hcomplete
  · cases hcomplete

/-- So do all that are left. -/
theorem IsSound.finish (h : a.IsSound) {levels : Nat}
    (hfinish : a.finish document levels = .ok a') : a'.IsSound := by
  induction levels generalizing a with
  | zero =>
    cases hfinish
    exact h
  | succ levels ih =>
    unfold Assembly.finish at hfinish
    split at hfinish
    · cases hfinish
      exact h
    · obtain ⟨a'', ha'', hfinish⟩ := Except.bind_eq_ok.mp hfinish
      have hwaiting : ({ a with waiting := [] } : Assembly).IsSound := h
      have hsound : a''.IsSound :=
        Except.foldlM_induction (fun _ _ _ hb hcomplete => hb.complete hcomplete) hwaiting ha''
      exact ih hsound hfinish

end Assembly

/-! ### Assembled values -/

theorem assembleAll_eq (part : Nat → Value) (items : List Value) :
    assembleAll part items = items.map (assemble part) := by
  induction items with
  | nil => rfl
  | cons x items ih => rw [assembleAll, ih, List.map_cons]

theorem assembleEntries_eq (part : Nat → Value) (entries : Entries) :
    assembleEntries part entries = entries.map fun e => (e.1, assemble part e.2) := by
  induction entries with
  | nil => rfl
  | cons e entries ih => rw [assembleEntries, ih, List.map_cons]

/-- Shapes that are sound, with sound values in place of numbers, are sound values. -/
theorem assemble_isSound {part : Nat → Value} (hpart : ∀ n, (part n).IsSound) {shape : Value}
    (h : shape.IsSound) : (assemble part shape).IsSound := by
  induction h with
  | @scalar v h =>
    have hself : assemble part v = v := by
      cases v <;> first | rfl | cases h
    rw [hself]
    exact .scalar h
  | list _ ih =>
    rw [assemble, assembleAll_eq]
    exact .list (List.forall_mem_map.mpr ih)
  | tuple _ ih =>
    rw [assemble, assembleAll_eq]
    exact .tuple (List.forall_mem_map.mpr ih)
  | set => exact .set
  | @map entries hkeys _ ih =>
    have hkeys' : ((assembleEntries part entries).map (·.1)).Pairwise Value.Differ := by
      rw [assembleEntries_eq, List.map_map]
      exact hkeys
    rw [assemble]
    refine .map hkeys' ?_
    rw [assembleEntries_eq]
    exact List.forall_mem_map.mpr ih
  | loop h hendless _ => exact .loop h hendless
  | again => exact hpart _

namespace Values

variable {shapes values : Values}

theorem AreSound.extend (hshapes : shapes.AreSound) (h : values.AreSound) (n : Nat) :
    (Values.extend shapes values n).AreSound := by
  unfold Values.extend
  split
  · next shape hshape _ =>
    split
    · exact h.set (assemble_isSound (getD_isSound h) (hshapes n shape hshape))
    · exact h
  · exact h

theorem AreSound.settle (hshapes : shapes.AreSound) (h : values.AreSound) (rounds : Nat) :
    (Values.settle shapes rounds values).AreSound := by
  induction rounds generalizing values with
  | zero => exact h
  | succ rounds ih =>
    unfold Values.settle
    simp only
    split
    · exact h
    · exact ih (List.foldlRecOn _ _ h fun _ hb n _ => hshapes.extend hb n)

theorem AreSound.unfold (hshapes : shapes.AreSound) (h : values.AreSound) (depth : Nat)
    (around : List Nat) (n : Nat) : (Values.unfold shapes values depth around n).IsSound := by
  induction depth generalizing around n with
  | zero => exact .again
  | succ depth ih =>
    unfold Values.unfold
    split
    · next v hv => exact h n v hv
    · split
      · exact .again
      · exact .labelled (assemble_isSound (ih _) (getD_isSound hshapes n))

end Values

theorem graphValue_isSound {document : Nat} {g : Graph} {v : Value}
    (h : g.value document = .ok v) : v.IsSound := by
  obtain ⟨a, ha, h⟩ := Except.bind_eq_ok.mp h
  obtain ⟨a', ha', h⟩ := Except.bind_eq_ok.mp h
  have hshapes : a'.IsSound := ((Assembly.isSound_start g).visit ha).finish ha'
  cases h
  exact hshapes.unfold (hshapes.settle (Values.areSound_replicate g.size) g.size) _ _ _

theorem readFrom_isSound {document : Nat} {source : Source} {v : Value}
    (h : readFrom document source = .ok v) : v.IsSound := by
  obtain ⟨d, -, h⟩ := Except.bind_eq_ok.mp h
  unfold Document.value at h
  split at h
  · cases h
    exact .scalar rfl
  · split at h
    · exact build_isSound (Except.mapError_ok_iff.mp h)
    · exact graphValue_isSound h

end ApiLint.Yaml
