import ApiLint.Proofs.Document.References
import Mathlib.Data.List.Perm.Subperm

/-! When the references of a document form a circle. The walk over a document follows each reference
once. Its references are at every moment of three kinds: those that are being followed, each of which
leads to the next; those that are done, which lead only to others that are done and lie on no circle
(`Settled`); and those that have not come up. To meet one that is being followed closes a circle, and so
the walk finds a circle exactly when there is one that can be reached (`isCircular_exact`). -/
namespace ApiLint.Reference

open Relation (ReflTransGen TransGen)

variable {document : Value} {active done done' : List Text} {r s : Text}

/-! ### References that are done -/

/-- The references that are done lead only to others that are done, none of them lies on a circle, and
none is being followed. -/
structure Settled (document : Value) (active done : List Text) : Prop where
  closed : ∀ r ∈ done, ∀ s, Leads document r s → s ∈ done
  straight : ∀ r ∈ done, ¬TransGen (Leads document) r r
  apart : ∀ r ∈ active, r ∉ done

/-- A reference from which one on a circle is reached. -/
def Circles (document : Value) (r : Text) : Prop :=
  ∃ s, ReflTransGen (Leads document) r s ∧ TransGen (Leads document) s s

namespace Settled

theorem nil (document : Value) (active : List Text) : Settled document active [] :=
  ⟨fun _ hr => (List.not_mem_nil hr).elim, fun _ hr => (List.not_mem_nil hr).elim,
    fun _ _ => List.not_mem_nil⟩

theorem mem_of_reaches (h : Settled document active done) (hr : r ∈ done)
    (hrs : ReflTransGen (Leads document) r s) : s ∈ done := by
  induction hrs with
  | refl => exact hr
  | tail _ hlead ih => exact h.closed _ ih _ hlead

theorem not_circles (h : Settled document active done) (hr : r ∈ done) : ¬Circles document r := by
  rintro ⟨s, hrs, hs⟩
  exact h.straight s (h.mem_of_reaches hr hrs) hs

/-- A reference comes to be followed. -/
theorem follow (h : Settled document active done) (hr : r ∉ done) :
    Settled document (r :: active) done :=
  ⟨h.closed, h.straight, List.forall_mem_cons.mpr ⟨hr, h.apart⟩⟩

/-- A reference that was followed is done when all that it leads to is. If it were on a circle it would
be among what it leads to, and have been done before. -/
theorem finish (h : Settled document (r :: active) done) (hleads : ∀ s, Leads document r s → s ∈ done)
    (hr : r ∉ active) : Settled document active (r :: done) where
  closed := by
    refine List.forall_mem_cons.mpr ⟨fun s hs => ?_, fun t ht s hs => ?_⟩
    · exact List.mem_cons_of_mem _ (hleads s hs)
    · exact List.mem_cons_of_mem _ (h.closed t ht s hs)
  straight := by
    refine List.forall_mem_cons.mpr ⟨fun hcircle => ?_, h.straight⟩
    obtain ⟨s, hlead, hback⟩ := TransGen.head'_iff.mp hcircle
    exact h.apart r List.mem_cons_self (h.mem_of_reaches (hleads s hlead) hback)
  apart t ht := by
    rw [List.mem_cons, not_or]
    exact ⟨fun heq => hr (heq ▸ ht), h.apart t (List.mem_cons_of_mem _ ht)⟩

end Settled

/-! ### Walks -/

/-- A walk over some references settles them: it finds a circle that one of them leads into, or all of
them are done after it. -/
def Walker.Settles (document : Value) (active rs : List Text) (w : Walker) : Prop :=
  ∀ done, Settled document active done →
    (∃ done', w done = .ok (true, done') ∧ ∃ r ∈ rs, Circles document r) ∨
      ∃ done', w done = .ok (false, done') ∧ Settled document active done' ∧
        (∀ r ∈ done, r ∈ done') ∧ ∀ r ∈ rs, r ∈ done'

namespace Walker.Settles

variable {rs rs' : List Text} {w w' : Walker}

theorem skip : Walker.skip.Settles document active [] := fun done h =>
  .inr ⟨done, rfl, h, fun _ => id, List.forall_mem_nil _⟩

/-- Two walks that settle one after the other settle as one walk over both rows of references. -/
theorem andThen (hw : w.Settles document active rs) (hw' : w'.Settles document active rs') :
    (w.andThen w').Settles document active (rs ++ rs') := by
  intro done h
  rw [Walker.andThen]
  obtain ⟨done', hfound, r, hr, hcircles⟩ | ⟨done₁, hnone, h₁, hkept, hdone⟩ := hw done h
  · rw [hfound]
    exact .inl ⟨done', rfl, r, List.mem_append_left _ hr, hcircles⟩
  · rw [hnone]
    obtain ⟨done', hfound, r, hr, hcircles⟩ | ⟨done₂, hnone₂, h₂, hkept₂, hdone₂⟩ := hw' done₁ h₁
    · exact .inl ⟨done', hfound, r, List.mem_append_right _ hr, hcircles⟩
    · refine .inr ⟨done₂, hnone₂, h₂, fun r hr => hkept₂ r (hkept r hr), fun r hr => ?_⟩
      rcases List.mem_append.mp hr with hr | hr
      · exact hkept₂ r (hdone r hr)
      · exact hdone₂ r hr

end Walker.Settles

variable {expand : Text → Walker} {stuck : Failure}

theorem settles_walkItems {items : List Value}
    (h : ∀ v ∈ items, (walkWith expand stuck v).Settles document active (refs v)) :
    (walkItems expand stuck items).Settles document active (items.flatMap refs) := by
  induction items with
  | nil => exact .skip
  | cons v items ih =>
    obtain ⟨hv, hitems⟩ := List.forall_mem_cons.mp h
    exact hv.andThen (ih hitems)

/-- A walk over entries settles the references in the values that are searched; what stands under the
keyword is left out. -/
theorem settles_walkEntries {entries : Entries}
    (h : ∀ e ∈ searched entries, (walkWith expand stuck e.2).Settles document active (refs e.2)) :
    (walkEntries expand stuck entries).Settles document active
      ((searched entries).flatMap fun e => refs e.2) := by
  induction entries with
  | nil => exact .skip
  | cons e entries ih =>
    obtain ⟨k, v⟩ := e
    rw [walkEntries]
    cases hk : k.same keyword with
    | true =>
      have hsearched : searched ((k, v) :: entries) = searched entries := by
        rw [searched, List.filter_cons, hk]
        rfl
      rw [hsearched] at h ⊢
      exact ih h
    | false =>
      have hsearched : searched ((k, v) :: entries) = (k, v) :: searched entries := by
        rw [searched, List.filter_cons, hk]
        rfl
      rw [hsearched] at h ⊢
      obtain ⟨hv, hentries⟩ := List.forall_mem_cons.mp h
      exact hv.andThen (ih hentries)

/-- A walk over a value settles its references, if the walks over what they name do. -/
theorem settles_walkWith {v : Value} (hv : v.IsFinite)
    (h : ∀ r ∈ refs v, (expand r).Settles document active [r]) :
    (walkWith expand stuck v).Settles document active (refs v) := by
  induction hv with
  | @scalar v hscalar => cases v <;> first | exact .skip | cases hscalar
  | tuple | set => exact .skip
  | @list items _ ih =>
    rw [refs_list] at h ⊢
    exact settles_walkItems fun v hv => ih v hv fun r hr =>
      h r (List.mem_flatMap.mpr ⟨v, hv, hr⟩)
  | @map entries _ ih =>
    rw [refs_map] at h ⊢
    rw [walkWith]
    refine Walker.Settles.andThen ?_ (settles_walkEntries fun e he => ?_)
    · cases hlocal : local? entries with
      | none => exact .skip
      | some r => exact h r (List.mem_append_left _ (hlocal ▸ List.mem_singleton_self r))
    · exact ih e (List.mem_filter.mp he).1 fun r hr =>
        h r (List.mem_append_right _ (List.mem_flatMap.mpr ⟨e, he, hr⟩))

/-! ### Following references -/

/-- What the walk over a document does at a reference. -/
def pursue (document : Value) (fuel : Nat) (active : List Text) : Text → Walker := fun ref done =>
  if active.contains ref then .ok (true, done)
  else if done.contains ref then .ok (false, done)
  else
    match resolve document ref with
    | .error e => .error e
    | .ok none | .ok (some .null) => .ok (false, ref :: done)
    | .ok (some target) =>
      match walk document fuel (ref :: active) target done with
      | .ok (false, done) => .ok (false, ref :: done)
      | stop => stop

theorem exists_walk_succ (document : Value) (fuel : Nat) (active : List Text) (v : Value) :
    ∃ stuck, walk document (fuel + 1) active v = walkWith (pursue document fuel active) stuck v :=
  ⟨_, rfl⟩

theorem pursue_of_active {fuel : Nat} (h : r ∈ active) :
    pursue document fuel active r done = .ok (true, done) :=
  if_pos (List.contains_iff_mem.mpr h)

theorem pursue_of_done {fuel : Nat} (hactive : r ∉ active) (h : r ∈ done) :
    pursue document fuel active r done = .ok (false, done) := by
  rw [pursue, if_neg (mt List.contains_iff_mem.mp hactive), if_pos (List.contains_iff_mem.mpr h)]

theorem pursue_of_missing {fuel : Nat} (hactive : r ∉ active) (hdone : r ∉ done)
    (h : resolve document r = .ok none) :
    pursue document fuel active r done = .ok (false, r :: done) := by
  rw [pursue, if_neg (mt List.contains_iff_mem.mp hactive),
    if_neg (mt List.contains_iff_mem.mp hdone), h]

theorem walk_null (fuel : Nat) : walk document fuel active .null done = .ok (false, done) := by
  cases fuel <;> rfl

theorem pursue_of_target {fuel : Nat} {target : Value} (hactive : r ∉ active) (hdone : r ∉ done)
    (h : resolve document r = .ok (some target)) :
    pursue document fuel active r done =
      match walk document fuel (r :: active) target done with
      | .ok (false, done) => .ok (false, r :: done)
      | stop => stop := by
  rw [pursue, if_neg (mt List.contains_iff_mem.mp hactive),
    if_neg (mt List.contains_iff_mem.mp hdone), h]
  cases target with
  | null => rw [walk_null]
  | _ => rfl

/-- The references that are being followed are different ones that the document holds, and each of them
leads to those that come up next; there is fuel for all that the document can have at once. -/
structure Chain (document : Value) (fuel : Nat) (active next : List Text) : Prop where
  nodup : active.Nodup
  held : ∀ r ∈ active, r ∈ held document
  fuel : mappings document + 1 ≤ fuel + active.length
  leads : ∀ a ∈ active, ∀ r ∈ next, TransGen (Leads document) a r
  resolves : ∀ r ∈ next, ∀ s, ReflTransGen (Leads document) r s →
    ∃ found, resolve document s = .ok found

/-- The fuel is not used up. -/
theorem Chain.fuel_pos {fuel : Nat} {next : List Text} (h : Chain document fuel active next)
    (hdocument : document.IsFinite) : 0 < fuel := by
  have hle := (List.Nodup.subperm h.nodup h.held).length_le
  have := length_held_le hdocument
  have := h.fuel
  omega

/-- The chain when a reference comes to be followed. -/
theorem Chain.follow {fuel : Nat} {next : List Text} {target : Value}
    (h : Chain document (fuel + 1) active next) (hr : r ∈ next) (hactive : r ∉ active)
    (hheld : r ∈ Reference.held document) (htarget : resolve document r = .ok (some target)) :
    Chain document fuel (r :: active) (refs target) where
  nodup := List.nodup_cons.mpr ⟨hactive, h.nodup⟩
  held := List.forall_mem_cons.mpr ⟨hheld, h.held⟩
  fuel := by
    have := h.fuel
    rw [List.length_cons]
    omega
  leads := by
    refine List.forall_mem_cons.mpr ⟨fun s hs => ?_, fun a ha s hs => ?_⟩
    · exact .single ⟨target, htarget, hs⟩
    · exact (h.leads a ha r hr).tail ⟨target, htarget, hs⟩
  resolves s hs t hst := h.resolves r hr t (.head ⟨target, htarget, hs⟩ hst)

/-- A walk over a value settles the references in it. -/
theorem settles_walk (hdocument : document.IsFinite) (fuel : Nat) {v : Value} (hv : v.IsFinite)
    (hheld : ∀ r ∈ held v, r ∈ held document) (hchain : Chain document fuel active (refs v)) :
    (walk document fuel active v).Settles document active (refs v) := by
  induction fuel generalizing active v with
  | zero => exact absurd (hchain.fuel_pos hdocument) (Nat.lt_irrefl 0)
  | succ fuel ih =>
    obtain ⟨stuck, hwalk⟩ := exists_walk_succ document fuel active v
    rw [hwalk]
    refine settles_walkWith hv fun r hr done h => ?_
    by_cases hactive : r ∈ active
    · -- The chain from `r` on leads back to it.
      refine .inl ⟨done, pursue_of_active hactive, r, List.mem_singleton_self r, r, .refl, ?_⟩
      exact hchain.leads r hactive r hr
    by_cases hdone : r ∈ done
    · exact .inr ⟨done, pursue_of_done hactive hdone, h, fun _ => id,
        List.forall_mem_singleton.mpr hdone⟩
    obtain ⟨found, hfound⟩ := hchain.resolves r hr r .refl
    cases found with
    | none =>
      refine .inr ⟨r :: done, pursue_of_missing hactive hdone hfound, ?_,
        fun _ => List.mem_cons_of_mem _, List.forall_mem_singleton.mpr List.mem_cons_self⟩
      refine (h.follow hdone).finish (fun s hlead => ?_) hactive
      obtain ⟨target, htarget, -⟩ := hlead
      rw [hfound] at htarget
      cases htarget
    | some target =>
      obtain ⟨hfinite, hsub⟩ := held_resolve hdocument hfound
      have hrheld := hheld r (mem_held_of_mem_refs hv hr)
      rw [pursue_of_target hactive hdone hfound]
      obtain ⟨done', hwalk', s, hs, hcircles⟩ | ⟨done', hwalk', h', hkept, hsettled⟩ :=
        ih hfinite hsub (hchain.follow hr hactive hrheld hfound) done (h.follow hdone)
      · rw [hwalk']
        obtain ⟨t, hst, ht⟩ := hcircles
        exact .inl ⟨done', rfl, r, List.mem_singleton_self r, t, .head ⟨target, hfound, hs⟩ hst, ht⟩
      · rw [hwalk']
        refine .inr ⟨r :: done', rfl, h'.finish (fun s hlead => ?_) hactive,
          fun s hs => List.mem_cons_of_mem _ (hkept s hs),
          List.forall_mem_singleton.mpr List.mem_cons_self⟩
        obtain ⟨target', htarget', hs⟩ := hlead
        rw [hfound] at htarget'
        cases htarget'
        exact hsettled s hs

/-- The walk tells whether a circle is reached. -/
theorem exists_isCircular (hfinite : document.IsFinite)
    (hresolves : ∀ r, Reaches document r → ∃ found, resolve document r = .ok found) :
    ∃ circular, isCircular document = .ok circular ∧
      (circular = true ↔ ∃ r, Reaches document r ∧ TransGen (Leads document) r r) := by
  have hchain : Chain document (mappings document + 1) [] (refs document) := by
    refine ⟨List.nodup_nil, List.forall_mem_nil _, Nat.le_refl _, List.forall_mem_nil _, ?_⟩
    exact fun r hr s hrs => hresolves s ⟨r, hr, hrs⟩
  obtain ⟨done, hwalk, r, hr, s, hrs, hs⟩ | ⟨done, hwalk, h, -, hsettled⟩ :=
    settles_walk hfinite _ hfinite (fun _ => id) hchain [] (.nil document [])
  · refine ⟨true, by rw [isCircular, hwalk]; rfl, ?_⟩
    exact ⟨fun _ => ⟨s, ⟨r, hr, hrs⟩, hs⟩, fun _ => rfl⟩
  · refine ⟨false, by rw [isCircular, hwalk]; rfl, nofun, ?_⟩
    rintro ⟨s, ⟨r, hr, hrs⟩, hs⟩
    exact (h.not_circles (hsettled r hr) ⟨s, hrs, hs⟩).elim

/-- **When the references of a document form a circle.** In a document in which every reference that is
reached can be looked up, a circle is found exactly when a reference that stands in the document, or is
led to from one that does, leads back to itself. The order of the entries of a mapping plays no part. -/
theorem isCircular_exact (hfinite : document.IsFinite)
    (hresolves : ∀ r, Reaches document r → ∃ found, resolve document r = .ok found) :
    (∃ circular, isCircular document = .ok circular ∧
        (circular = true ↔ ∃ r, Reaches document r ∧ TransGen (Leads document) r r)) ∧
      ∀ document', ReflTransGen Swaps document document' →
        isCircular document' = isCircular document := by
  obtain ⟨circular, hcircular, hiff⟩ := exists_isCircular hfinite hresolves
  refine ⟨⟨circular, hcircular, hiff⟩, fun document' hreordered => ?_⟩
  have hmirrors := Mirrors.of_reorders hreordered
  obtain ⟨circular', hcircular', hiff'⟩ := exists_isCircular (hmirrors.isFinite hfinite)
    fun r hr => (hmirrors.resolves r).mpr (hresolves r ((hmirrors.reaches r).mp hr))
  simp only [hmirrors.reaches, hmirrors.leads_eq] at hiff'
  rw [hcircular, hcircular', Bool.eq_iff_iff.mpr (hiff'.trans hiff.symm)]

/-- A mapping with a reference beside other entries, one of which holds a reference that leads
nowhere. -/
def sampleDocument : Value :=
  .record [("a", .record [("$ref", .str "#/b"), ("x", .list [.record [("$ref", .str "#/none")]])]),
    ("b", .record [("y", .record [("$ref", .str "#/a")])])]

/-- The references of the sample, which are all that are reached. -/
def sampleRefs : List Text := ["#/b", "#/none", "#/a"]

theorem resolve_sample : ∀ r ∈ sampleRefs, (resolve sampleDocument r).holds (fun found =>
    ((found.map refs).getD []).all (· ∈ sampleRefs)) = true := by
  decide +kernel

theorem mem_sampleRefs (h : Reaches sampleDocument r) : r ∈ sampleRefs := by
  obtain ⟨s, hs, hsr⟩ := h
  have hstands : ∀ s ∈ refs sampleDocument, s ∈ sampleRefs := by decide +kernel
  induction hsr with
  | refl => exact hstands s hs
  | tail _ hlead ih =>
    obtain ⟨target, htarget, hmem⟩ := hlead
    obtain ⟨found, hfound, hall⟩ := Except.exists_of_holds (resolve_sample _ ih)
    rw [htarget] at hfound
    cases hfound
    exact of_decide_eq_true (List.all_eq_true.mp hall _ hmem)

theorem exists_resolve_sample (h : Reaches sampleDocument r) :
    ∃ found, resolve sampleDocument r = .ok found := by
  obtain ⟨found, hfound, -⟩ := Except.exists_of_holds (resolve_sample r (mem_sampleRefs h))
  exact ⟨found, hfound⟩

theorem sampleDocument_isTree : sampleDocument.IsTree := by
  have href : ∀ t : Text, (Value.record [("$ref", .str t)]).IsTree := fun _ => .single (.scalar rfl)
  refine .record (by decide) (List.forall_mem_cons.mpr ⟨?_, List.forall_mem_singleton.mpr ?_⟩)
  · refine .record (by decide) (List.forall_mem_cons.mpr ⟨.scalar rfl, ?_⟩)
    exact List.forall_mem_singleton.mpr (.list (List.forall_mem_singleton.mpr (href _)))
  · exact .single (href _)

/-- In the sample two references lead to each other, whatever stands beside them. -/
theorem isCircular_exact_sample : sampleDocument.IsFinite ∧
    (∀ r, Reaches sampleDocument r → ∃ found, resolve sampleDocument r = .ok found) ∧
    ∃ r, Reaches sampleDocument r ∧ TransGen (Leads sampleDocument) r r := by
  have hfinite := sampleDocument_isTree.isFinite
  have hresolves := fun r => exists_resolve_sample (r := r)
  obtain ⟨circular, hcircular, hiff⟩ := (isCircular_exact hfinite hresolves).1
  have hfound : (isCircular sampleDocument).holds id = true := by decide +kernel
  rw [hcircular] at hfound
  exact ⟨hfinite, hresolves, hiff.mp hfound⟩

end ApiLint.Reference
