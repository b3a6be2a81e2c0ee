import ApiLint.Config.Overlay
import ApiLint.Proofs.Value.Layered
import Mathlib.Data.List.Induction

/-! What lies on top of a configuration and what shows from below. Where the keys below are names and
those on top differ, the entries below keep their places, each with what the top has under its key laid
over it, and the new entries of the top follow (`overlay_eq`). Down through the layers of mappings a
place therefore shows what the top has there, or else what was below (`under?_overlayValue`), and the names
at a place are those from below followed by the new ones (`namesAt_overlayValue`). -/
namespace ApiLint.Config

/-! ### One layer -/

theorem overlayValue_none (v : Value) : overlayValue none v = v := by
  cases v with
  | map entries => rw [overlayValue, Option.map_none]
  | loop label body => cases body <;> simp [overlayValue]
  | _ => rfl

theorem overlay_cons {base top : Entries} {e : Value × Value} (he : e.2 ≠ .null) :
    overlay base (e :: top) =
      overlay (base.put e.1 (overlayValue (base.find? e.1) e.2)) top := by
  obtain ⟨key, value⟩ := e
  rw [overlay]
  exact fun h => he h

theorem overlay_append (base top top' : Entries) :
    overlay base (top ++ top') = overlay (overlay base top) top' := by
  induction top generalizing base with
  | nil => rw [List.nil_append, overlay]
  | cons e top ih =>
    obtain ⟨key, value⟩ := e
    by_cases hnull : value = .null
    · subst hnull
      rw [List.cons_append, overlay, overlay, ih]
    · rw [List.cons_append, overlay_cons hnull, overlay_cons hnull, ih]

/-- What holds of the entries below and is kept when an entry from the top is laid over them holds of the
whole. -/
theorem overlay_induction {P : Entries → Prop} {base top : Entries} (hbase : P base)
    (hstep : ∀ below, P below → ∀ e ∈ top, e.2 ≠ .null →
      P (below.put e.1 (overlayValue (below.find? e.1) e.2))) : P (overlay base top) := by
  induction top generalizing base with
  | nil =>
    rw [overlay]
    exact hbase
  | cons e top ih =>
    have hrest := fun below hbelow f hf => hstep below hbelow f (List.mem_cons_of_mem _ hf)
    obtain ⟨key, value⟩ := e
    by_cases hnull : value = .null
    · rw [hnull, overlay]
      exact ih hbase hrest
    · rw [overlay_cons hnull]
      exact ih (hstep base hbase _ List.mem_cons_self hnull) hrest

/-- Where each declared name has values of its kind, and a value of a kind that is laid over another one
of it is of it again, what entries of the declared names are laid over such entries are such entries. -/
theorem declared_overlay {α : Type} {declared : List (Text × α)} {C : Text → α → Value → Prop}
    {base top : Entries} (hnames : (declared.map (·.1)).Nodup)
    (hC : ∀ name x b t, (name, x) ∈ declared → C name x b → C name x t →
      C name x (overlayValue (some b) t))
    (hbase : ∀ e ∈ base, ∃ name x, (name, x) ∈ declared ∧ e.1 = .str name ∧ C name x e.2)
    (htop : ∀ e ∈ top, ∃ name x, (name, x) ∈ declared ∧ e.1 = .str name ∧ C name x e.2) :
    ∀ e ∈ overlay base top, ∃ name x, (name, x) ∈ declared ∧ e.1 = .str name ∧ C name x e.2 := by
  refine overlay_induction (P := fun entries => ∀ e ∈ entries, ∃ name x,
    (name, x) ∈ declared ∧ e.1 = .str name ∧ C name x e.2) hbase fun below hbelow e he _ f hf => ?_
  obtain hmem | ⟨hkey, hvalue⟩ := Entries.mem_put hf
  · exact hbelow f hmem
  obtain ⟨name, x, hx, hname, ht⟩ := htop e he
  rw [hname] at hkey hvalue
  refine ⟨name, x, hx, hkey.elim id fun hsame => Value.same_str.mp hsame.2, ?_⟩
  rw [hvalue]
  cases hfind : below.find? (.str name) with
  | none => rwa [overlayValue_none]
  | some b =>
    obtain ⟨k, hmem, hsame⟩ := Entries.exists_of_find? hfind
    obtain ⟨name', y, hy, hname', hb⟩ := hbelow _ hmem
    obtain rfl := Value.str.inj (hname'.symm.trans (Value.same_str.mp hsame))
    obtain rfl : x = y := congrArg Prod.snd (List.inj_on_of_nodup_map hnames hx hy rfl)
    exact hC name' x b e.2 hx hb ht

/-- The keys from below come first, then the new ones of the top. -/
theorem keys_overlay {base top : Entries} (htop : (top.map (·.1)).Pairwise Value.Differ)
    (hnull : ∀ e ∈ top, e.2 ≠ .null) :
    (overlay base top).map (·.1) = Value.withNew (base.map (·.1)) (top.map (·.1)) := by
  induction top generalizing base with
  | nil =>
    rw [overlay]
    exact (Value.withNew_nil _).symm
  | cons e top ih =>
    obtain ⟨hnull, hrest⟩ := List.forall_mem_cons.mp hnull
    rw [List.map_cons, List.pairwise_cons] at htop
    rw [overlay_cons hnull, ih htop.2 hrest, Entries.keys_put, List.map_cons, Value.withNew_cons htop.1,
      Entries.has_eq_any]

/-- An entry with what entries on top have under its key laid over its value. -/
def laid (top : Entries) (e : Value × Value) : Value × Value :=
  (e.1, (top.find? e.1).elim e.2 (overlayValue (some e.2)))

/-- The entries on top whose keys are new. -/
def added (base top : Entries) : Entries :=
  top.filter fun f => !base.has f.1

section Layer

variable {base top : Entries}

theorem keys_laid (base top : Entries) : (base.map (laid top)).map (·.1) = base.map (·.1) := by
  rw [List.map_map]
  rfl

/-- Below, a name is the only key that is the same as one on top. -/
theorem same_of_areNames (hbase : Value.AreNames (base.map (·.1))) {e : Value × Value}
    (he : e ∈ base) {key : Value} : key.same e.1 = true ↔ key = e.1 := by
  obtain ⟨names, -, heq⟩ := hbase
  have hmem : e.1 ∈ names.map Value.str := heq ▸ List.mem_map_of_mem he
  obtain ⟨t, -, ht⟩ := List.mem_map.mp hmem
  rw [← ht]
  exact Value.same_str

theorem exists_of_has (hbase : Value.AreNames (base.map (·.1))) {key : Value}
    (h : base.has key = true) : ∃ t w, key = .str t ∧ (.str t, w) ∈ base := by
  obtain ⟨w, hw⟩ := Option.isSome_iff_exists.mp h
  obtain ⟨k, hmem, hsame⟩ := Entries.exists_of_find? hw
  obtain ⟨names, -, heq⟩ := hbase
  have hk : k ∈ names.map Value.str := heq ▸ List.mem_map_of_mem hmem
  obtain ⟨t, -, rfl⟩ := List.mem_map.mp hk
  exact ⟨t, w, Value.str_same.mp hsame, hmem⟩

/-- One more entry on top shows in the entry below it alone. -/
theorem laid_append_of_ne {e f : Value × Value} (hbase : Value.AreNames (base.map (·.1)))
    (he : e ∈ base) (hne : f.1 ≠ e.1) : laid (top ++ [f]) e = laid top e := by
  have hnone : Entries.find? e.1 [f] = none := by
    refine Entries.find?_eq_none.mpr fun g hg => ?_
    obtain rfl := List.mem_singleton.mp hg
    exact Bool.eq_false_iff.mpr fun hsame => hne ((same_of_areNames hbase he).mp hsame)
  rw [laid, Entries.find?_append, hnone, Option.or_none]
  rfl

theorem map_laid_append_of_new {f : Value × Value} (hbase : Value.AreNames (base.map (·.1)))
    (hnew : base.has f.1 = false) : base.map (laid (top ++ [f])) = base.map (laid top) := by
  refine List.map_congr_left fun e he => laid_append_of_ne hbase he fun heq => ?_
  have hsame := Entries.has_eq_false.mp hnew e he
  rw [heq, (same_of_areNames hbase he).mpr rfl] at hsame
  cases hsame

theorem find?_map_laid {t : Text} {w : Value} (hbase : Value.AreNames (base.map (·.1)))
    (hmem : (.str t, w) ∈ base) : Entries.find? (.str t) (base.map (laid top)) =
      some ((top.find? (.str t)).elim w (overlayValue (some w))) := by
  rw [Entries.find?_str (by rw [keys_laid]; exact hbase.differ.imp Value.Differ.apart)]
  exact List.mem_map.mpr ⟨_, hmem, rfl⟩

/-- One more entry on top, under a name that is below, is laid over the value that it has there. -/
theorem map_laid_append {t : Text} {w : Value} (hbase : Value.AreNames (base.map (·.1)))
    (hmem : (.str t, w) ∈ base) (hnone : Entries.find? (.str t) top = none) (v : Value) :
    base.map (laid (top ++ [(.str t, v)])) =
      Entries.put (.str t) (overlayValue (some w) v) (base.map (laid top)) := by
  have hkeys : (base.map (·.1)).Pairwise Value.Apart := hbase.differ.imp Value.Differ.apart
  have hhas : Entries.has (.str t) (base.map (laid top)) = true := by
    rw [Entries.has, find?_map_laid hbase hmem]
    rfl
  rw [Entries.put_str (by rwa [keys_laid]) hhas, List.map_map]
  refine List.map_congr_left fun e he => ?_
  show _ = if e.1 = .str t then (e.1, overlayValue (some w) v) else laid top e
  by_cases hkey : e.1 = .str t
  · have hw : e.2 = w := by
      have he : base.find? (.str t) = some e.2 := (Entries.find?_str hkeys).mpr (hkey ▸ he)
      exact Option.some.inj (he.symm.trans ((Entries.find?_str hkeys).mpr hmem))
    have htop : Entries.find? e.1 (top ++ [(.str t, v)]) = some v := by
      rw [hkey, Entries.find?_append, hnone, Entries.find?, if_pos (Value.same_str.mpr rfl),
        Option.none_or]
    rw [if_pos hkey, laid, htop, hw]
    rfl
  · rw [if_neg hkey, laid_append_of_ne hbase he (Ne.symm hkey)]

/-- **What a layer of a configuration is with another one on top.** -/
theorem overlay_eq (hbase : Value.AreNames (base.map (·.1)))
    (htop : (top.map (·.1)).Pairwise Value.Differ) (hnull : ∀ e ∈ top, e.2 ≠ .null) :
    overlay base top = base.map (laid top) ++ added base top := by
  induction top using List.reverseRecOn with
  | nil =>
    have hself : base.map (laid []) = base := List.map_id' base
    rw [overlay, hself]
    exact (List.append_nil base).symm
  | append_singleton top f ih =>
    obtain ⟨key, v⟩ := f
    rw [List.map_append, List.pairwise_append] at htop
    rw [List.forall_mem_append] at hnull
    have hlast : ∀ g ∈ top, g.1.same key = false := fun g hg =>
      htop.2.2 g.1 (List.mem_map_of_mem hg) key List.mem_cons_self
    have hnew : ∀ g ∈ added base top, g.1.same key = false := fun g hg =>
      hlast g (List.mem_of_mem_filter hg)
    rw [overlay_append, overlay_cons (hnull.2 _ List.mem_cons_self), overlay,
      ih htop.1 hnull.1, Entries.find?_append, Entries.find?_eq_none.mpr hnew, Option.or_none]
    cases hhas : base.has key with
    | false =>
      have hbelow : ∀ e ∈ base.map (laid top), e.1.same key = false :=
        List.forall_mem_map.mpr (Entries.has_eq_false.mp hhas)
      have hadded : added base (top ++ [(key, v)]) = added base top ++ [(key, v)] := by
        simp [added, List.filter_append, hhas]
      rw [Entries.find?_eq_none.mpr hbelow, overlayValue_none, map_laid_append_of_new hbase hhas,
        hadded, Entries.put_of_not_same (List.forall_mem_append.mpr ⟨hbelow, hnew⟩),
        List.append_assoc]
    | true =>
      obtain ⟨t, w, rfl, hmem⟩ := exists_of_has hbase hhas
      have hnone : Entries.find? (.str t) top = none := Entries.find?_eq_none.mpr hlast
      have hlaid : Entries.find? (.str t) (base.map (laid top)) = some w := by
        rw [find?_map_laid hbase hmem, hnone]
        rfl
      have hadded : added base (top ++ [(.str t, v)]) = added base top := by
        simp [added, List.filter_append, hhas]
      rw [hlaid, hadded, Entries.put_append_of_has (by rw [Entries.has, hlaid]; rfl),
        map_laid_append hbase hmem hnone]

/-- A key that is new shows what the top has. -/
theorem find?_overlay_of_none (hbase : Value.AreNames (base.map (·.1)))
    (htop : (top.map (·.1)).Pairwise Value.Differ) (hnull : ∀ e ∈ top, e.2 ≠ .null) {key : Value}
    (h : base.find? key = none) : Entries.find? key (overlay base top) = top.find? key := by
  have hbelow : Entries.find? key (base.map (laid top)) = none := by
    rw [Entries.find?_eq_none, List.forall_mem_map]
    exact Entries.find?_eq_none.mp h
  have hnew : ∀ f : Value × Value, f.1.same key = true → base.has f.1 = false := by
    intro f hsame
    by_contra hhas
    rw [Bool.not_eq_false] at hhas
    obtain ⟨t, w, ht, hmem⟩ := exists_of_has hbase hhas
    have hkey : key = .str t := Value.str_same.mp (ht ▸ hsame)
    have hnot := Entries.find?_eq_none.mp h _ hmem
    rw [hkey, Value.same_str.mpr rfl] at hnot
    cases hnot
  have hadded : Entries.find? key (added base top) = top.find? key := by
    rw [Entries.find?_eq, Entries.find?_eq, added, List.find?_filter]
    congr 2
    funext f
    by_cases hsame : f.1.same key = true
    · simp [hsame, hnew f hsame]
    · simp [hsame]
  rw [overlay_eq hbase htop hnull, Entries.find?_append, hbelow, hadded, Option.none_or]

/-- A key from below shows what was there with what the top has laid over it. -/
theorem find?_overlay_of_some (hbase : Value.AreNames (base.map (·.1)))
    (htop : (top.map (·.1)).Pairwise Value.Differ) (hnull : ∀ e ∈ top, e.2 ≠ .null) {key b : Value}
    (h : base.find? key = some b) :
    Entries.find? key (overlay base top) =
      some ((top.find? key).elim b (overlayValue (some b))) := by
  have hkeys : (base.map (·.1)).Pairwise Value.Apart := hbase.differ.imp Value.Differ.apart
  obtain ⟨t, -, rfl, -⟩ := exists_of_has hbase (Option.isSome_of_eq_some h)
  rw [overlay_eq hbase htop hnull, Entries.find?_append,
    find?_map_laid hbase ((Entries.find?_str hkeys).mp h), Option.some_or]

end Layer

/-! ### All layers -/

section Layers

variable {n : Nat} {base top : Entries} {b t : Value}

theorem overlayValue_map (base top : Entries) :
    overlayValue (some (.map base)) (.map top) = .map (overlay base top) := by
  rw [overlayValue]
  rfl

theorem overlayValue_of_isFlat (below : Option Value) (h : t.IsFlat) : overlayValue below t = t := by
  cases h with
  | scalar h => cases t <;> first | rfl | cases h
  | list _ => rfl

/-- Layers over layers are layers again. -/
theorem layered_overlayValue (hb : b.Layered (List.Pairwise Value.Differ) n)
    (ht : t.Layered (List.Pairwise Value.Differ) n) :
    (overlayValue (some b) t).Layered (List.Pairwise Value.Differ) n := by
  induction n generalizing b t with
  | zero =>
    rw [overlayValue_of_isFlat _ ht.1]
    exact ht
  | succ n ih =>
    obtain ⟨base, rfl, hbase, hbelow⟩ := hb
    obtain ⟨top, rfl, -, habove⟩ := ht
    rw [overlayValue_map]
    refine overlay_induction (P := fun entries => (Value.map entries).Layered _ (n + 1))
      ⟨base, rfl, hbase, hbelow⟩ fun below hlayered e he _ =>
        ⟨_, rfl, Entries.differ_put hlayered.keys, fun f hf => ?_⟩
    obtain hmem | ⟨-, hvalue⟩ := Entries.mem_put hf
    · exact hlayered.entry hmem
    · rw [hvalue]
      cases hfind : below.find? e.1 with
      | none => exact (overlayValue_none e.2).symm ▸ habove e he
      | some b =>
        obtain ⟨_, hmem, -⟩ := Entries.exists_of_find? hfind
        exact ih (hlayered.entry hmem) (habove e he)

/-- **What shows at a place is what the top has there, or else what was below.** -/
theorem under?_overlayValue (hb : b.Layered Value.AreNames n)
    (ht : t.Layered (List.Pairwise Value.Differ) n) {place : List Value} (hplace : place.length = n) :
    (overlayValue (some b) t).under? place = (t.under? place).or (b.under? place) := by
  induction n generalizing b t place with
  | zero =>
    obtain rfl := List.length_eq_zero_iff.mp hplace
    rw [overlayValue_of_isFlat _ ht.1]
    rfl
  | succ n ih =>
    obtain ⟨base, rfl, hbase, hbelow⟩ := hb
    obtain ⟨top, rfl, htop, habove⟩ := ht
    have hnull : ∀ e ∈ top, e.2 ≠ .null := fun e he => (habove e he).ne_null
    obtain ⟨key, place, rfl⟩ := List.exists_cons_of_length_eq_add_one hplace
    simp only [overlayValue_map, Value.under?_cons]
    cases hfind : Entries.find? key base with
    | none => rw [find?_overlay_of_none hbase htop hnull hfind, Option.bind_none, Option.or_none]
    | some b =>
      rw [find?_overlay_of_some hbase htop hnull hfind]
      cases hfind' : Entries.find? key top with
      | none => rfl
      | some t =>
        obtain ⟨_, hb, -⟩ := Entries.exists_of_find? hfind
        obtain ⟨_, ht, -⟩ := Entries.exists_of_find? hfind'
        exact ih (hbelow _ hb) (habove _ ht) (Nat.succ.inj hplace)

/-- **The names at a place are those from below, followed by the new ones of the top.** -/
theorem namesAt_overlayValue (hb : b.Layered Value.AreNames n)
    (ht : t.Layered (List.Pairwise Value.Differ) n) {place : List Value} (hplace : place.length < n) :
    (overlayValue (some b) t).namesAt place = Value.withNew (b.namesAt place) (t.namesAt place) := by
  induction n generalizing b t place with
  | zero => exact absurd hplace (Nat.not_lt_zero _)
  | succ n ih =>
    obtain ⟨base, rfl, hbase, hbelow⟩ := hb
    obtain ⟨top, rfl, htop, habove⟩ := ht
    have hnull : ∀ e ∈ top, e.2 ≠ .null := fun e he => (habove e he).ne_null
    cases place with
    | nil => simp only [overlayValue_map, Value.namesAt_nil, keys_overlay htop hnull]
    | cons key place =>
      simp only [overlayValue_map, Value.namesAt_cons]
      cases hfind : Entries.find? key base with
      | none =>
        rw [find?_overlay_of_none hbase htop hnull hfind]
        exact (Value.nil_withNew _).symm
      | some b =>
        rw [find?_overlay_of_some hbase htop hnull hfind]
        cases hfind' : Entries.find? key top with
        | none => exact (Value.withNew_nil _).symm
        | some t =>
          obtain ⟨_, hb, -⟩ := Entries.exists_of_find? hfind
          obtain ⟨_, ht, -⟩ := Entries.exists_of_find? hfind'
          exact ih (hbelow _ hb) (habove _ ht) (Nat.lt_of_succ_lt_succ hplace)

end Layers

end ApiLint.Config
