import ApiLint.Proofs.Numeral.Whole
import ApiLint.Proofs.Value.Keys

/-! What keys stand for. A key can be written in several ways: `1`, `1.0` and `true` are one number, two
moments are one instant however far ahead their clocks are. Two keys are the same exactly when they
stand for one thing (`same_iff_identity`); so among three keys two pairs that are the same make the third
one the same (`IsProper.agree`), and what entries are is known from what is found in them (`eq_of_find?`). -/
namespace ApiLint

theorem Calendar.Moment.same_iff {m n : Moment} :
    m.same n = true ↔ m.ahead.isSome = n.ahead.isSome ∧
      m.clockMicros - m.ahead.getD 0 * 60000000 = n.clockMicros - n.ahead.getD 0 * 60000000 := by
  rw [same]
  cases m.ahead <;> cases n.ahead <;> simp

namespace Value

/-- What a key stands for. -/
inductive Identity
  | null
  | number (n : Int ⊕ Float)
  | nan (origin : Origin)
  | str (s : Text)
  | bytes (bs : List UInt8)
  | date (d : Calendar.Date)
  | time (t : Calendar.Time)
  /-- What a clock shows or, when it says how far ahead it is, the instant at which it does. -/
  | moment (isInstant : Bool) (micros : Int)
  | row (items : List Identity)
  /-- A collection that cannot be a key. -/
  | collection

mutual

/-- What a value stands for as a key. -/
def identity : Value → Identity
  | null => .null
  | bool b => .number (.inl (if b then 1 else 0))
  | int n => .number (.inl n)
  | float x => .number (Numeral.standing x)
  | nan origin => .nan origin
  | str s => .str s
  | bytes bs => .bytes bs
  | date d => .date d
  | time t => .time t
  | moment m => .moment m.ahead.isSome (m.clockMicros - m.ahead.getD 0 * 60000000)
  | tuple items => .row (identities items)
  | list _ | set _ | map _ | loop _ _ | again _ => .collection
termination_by structural v => v

def identities : List Value → List Identity
  | [] => []
  | x :: xs => identity x :: identities xs

end

/-- What can be a key and is the same as itself: everything that can be a key, when what is not a number
is written as such. -/
structure IsProper (key : Value) : Prop where
  isKey : key.isKey = true
  same_self : key.same key = true

theorem isProper_str (t : Text) : (str t).IsProper :=
  ⟨rfl, same_str.mpr rfl⟩

/-- Rows are the same exactly if what they stand for is, place by place. -/
theorem sameEach_iff {xs ys : List Value}
    (h : ∀ x ∈ xs, ∀ y ∈ ys, x.same y = true ↔ x.identity = y.identity) :
    sameEach xs ys = true ↔ identities xs = identities ys := by
  induction xs generalizing ys with
  | nil => cases ys <;> simp [sameEach, identities]
  | cons x xs ih =>
    cases ys with
    | nil => simp [sameEach, identities]
    | cons y ys =>
      rw [sameEach, identities, identities, Bool.and_eq_true, List.cons.injEq,
        h x List.mem_cons_self y List.mem_cons_self,
        ih fun x hx y hy => h x (List.mem_cons_of_mem _ hx) y (List.mem_cons_of_mem _ hy)]

theorem IsProper.item {items : List Value} (h : (tuple items).IsProper) :
    ∀ x ∈ items, x.IsProper := by
  have hkey : areKeys items = true := h.isKey
  have hself : sameEach items items = true := h.same_self
  clear h
  induction items with
  | nil => exact List.forall_mem_nil _
  | cons x items ih =>
    obtain ⟨hkey, hkeys⟩ := Bool.and_eq_true_iff.mp hkey
    obtain ⟨hself, hselves⟩ := Bool.and_eq_true_iff.mp hself
    exact List.forall_mem_cons.mpr ⟨⟨hkey, hself⟩, ih hkeys hselves⟩

/-- **Keys are the same when they stand for one thing.** -/
theorem same_iff_identity (v w : Value) (hv : v.IsProper) (hw : w.IsProper) :
    v.same w = true ↔ v.identity = w.identity := by
  cases v with
  | list _ | set _ | map _ | loop _ _ | again _ => cases hv.isKey
  | tuple xs =>
    cases w with
    | tuple ys =>
      rw [same, identity, identity, Identity.row.injEq]
      exact sameEach_iff fun x hx y hy => same_iff_identity x y (hv.item x hx) (hw.item y hy)
    | _ => simp [same, sameScalar, identity, whole?]
  | float x =>
    cases w with
    | float y => simpa [same, sameScalar, identity] using Numeral.beq_iff_standing hv.same_self
    | _ => simp [same, sameScalar, identity, whole?, Numeral.standing_eq_inl]
  | moment m =>
    cases w with
    | moment n => simpa [same, sameScalar, identity] using Calendar.Moment.same_iff
    | _ => simp [same, sameScalar, identity, whole?]
  | _ => cases w <;> simp [same, sameScalar, identity, whole?, Numeral.inl_eq_standing]

namespace IsProper

variable {k l m : Value}

theorem agree (hk : k.IsProper) (hl : l.IsProper) (hm : m.IsProper) : k.Agree l m := by
  refine ⟨fun hkl => ?_, fun hkm hlm => ?_⟩
  · rw [Bool.eq_iff_iff, same_iff_identity k m hk hm, same_iff_identity l m hl hm,
      (same_iff_identity k l hk hl).mp hkl]
  · rw [same_iff_identity k m hk hm] at hkm
    rw [same_iff_identity l m hl hm] at hlm
    exact (same_iff_identity k l hk hl).mpr (hkm.trans hlm.symm)

end IsProper

/-- The keys of a mapping. -/
structure AreKeys (keys : List Value) : Prop where
  differ : keys.Pairwise Differ
  proper : ∀ k ∈ keys, k.IsProper

end Value

namespace Entries

open Value (AreKeys IsProper)

variable {entries entries' : Entries} {key value : Value}

theorem agree_of_proper (h : ∀ k ∈ entries.map (·.1), k.IsProper) {l : Value} (hl : l.IsProper)
    (hkey : key.IsProper) : ∀ e ∈ entries, e.1.Agree l key :=
  fun _ he => (h _ (List.mem_map_of_mem he)).agree hl hkey

theorem proper_put (h : ∀ k ∈ entries.map (·.1), k.IsProper) (hkey : key.IsProper) :
    ∀ k ∈ (entries.put key value).map (·.1), k.IsProper := by
  rw [keys_put]
  refine List.forall_mem_append.mpr ⟨h, ?_⟩
  split
  · exact List.forall_mem_nil _
  · exact List.forall_mem_singleton.mpr hkey

theorem areKeys_put (h : AreKeys (entries.map (·.1))) (hkey : key.IsProper) :
    AreKeys ((entries.put key value).map (·.1)) :=
  ⟨differ_put h.differ, proper_put h.proper hkey⟩

/-- The value of an entry is found under its key. -/
theorem find?_of_mem (h : AreKeys (entries.map (·.1))) {e : Value × Value} (he : e ∈ entries) :
    entries.find? e.1 = some e.2 := by
  induction entries with
  | nil => cases he
  | cons f entries ih =>
    obtain ⟨hdiffer, hproper⟩ := h
    rw [List.map_cons, List.pairwise_cons] at hdiffer
    obtain ⟨hf, hrest⟩ := List.forall_mem_cons.mp hproper
    obtain ⟨k, v⟩ := f
    rw [find?]
    rcases List.mem_cons.mp he with rfl | hmem
    · exact if_pos hf.same_self
    · have hnot : k.same e.1 = false := hdiffer.1 _ (List.mem_map_of_mem hmem)
      rw [hnot, if_neg Bool.false_ne_true]
      exact ih ⟨hdiffer.2, hrest⟩ hmem

theorem map_find? (h : AreKeys (entries.map (·.1))) :
    (entries.map (·.1)).map (fun k => (k, (entries.find? k).getD .null)) = entries := by
  rw [List.map_map]
  refine (List.map_congr_left fun e he => ?_).trans (List.map_id entries)
  show (e.1, (entries.find? e.1).getD .null) = e
  rw [find?_of_mem h he]
  rfl

/-- Entries are known from their keys, in order, and what is found under each. -/
theorem eq_of_find? (h : AreKeys (entries.map (·.1)))
    (hkeys : entries.map (·.1) = entries'.map (·.1))
    (hfind : ∀ k ∈ entries.map (·.1), entries.find? k = entries'.find? k) :
    entries = entries' := by
  rw [← map_find? h, ← map_find? (hkeys ▸ h : AreKeys (entries'.map (·.1))), ← hkeys]
  exact List.map_congr_left fun k hk => by rw [hfind k hk]

end Entries

end ApiLint
