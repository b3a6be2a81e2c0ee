import ApiLint.Proofs.Document.Circles
import ApiLint.Proofs.Except
import ApiLint.Proofs.Numeral.Digits

/-! What the search for circles in a document can stumble over. A reference that leads to a list and asks
there for an item by digits that no number can be read from is not looked up (`resolve_eq_error`); and a
document that contains itself is walked over without end. Nothing else makes the search fail
(`stumbles_of_error`). -/
namespace ApiLint.Reference

open Relation (ReflTransGen)

variable {document v : Value} {active done : List Text} {token r : Text} {e : Failure}

/-! ### Looking up -/

/-- Digits that no number can be read from, and what is wrong with them. -/
inductive Misread : Text → Numeral.Fault → Prop
  | intro {cs : List Char} {fault : Numeral.Fault} (hindex : isIndex (Text.ofChars cs) = true)
      (h : Numeral.Unreadable cs fault) : Misread (Text.ofChars cs) fault

/-- A row of keys and indices trips: it leads to a list, and what it asks for there is misread. -/
inductive Trips : Value → List Text → Numeral.Fault → Prop
  | here {v : Value} {items : List Value} {token : Text} {tokens : List Text} {fault : Numeral.Fault}
      (hlist : v.opened = .list items) (h : Misread token fault) : Trips v (token :: tokens) fault
  | later {v part : Value} {token : Text} {tokens : List Text} {fault : Numeral.Fault}
      (hstep : step v token = .ok (some part)) (h : Trips part tokens fault) :
      Trips v (token :: tokens) fault

/-- The keys and indices that a reference spells. -/
def route (r : Text) : List Text := (Text.pieces (.char '/') (r.drop 2)).map unescape

/-- What counts as a number of an item consists of characters, and of digits of any kind. -/
theorem exists_chars (h : isIndex token = true) :
    ∃ cs, token = Text.ofChars cs ∧ cs ≠ [] ∧ ∀ c ∈ cs, Text.isDigitLike c = true := by
  rw [isIndex, Bool.and_eq_true, Bool.not_eq_true', List.isEmpty_eq_false_iff] at h
  obtain ⟨hne, hall⟩ := h
  have hchars : ∃ cs, token = Text.ofChars cs ∧ ∀ c ∈ cs, Text.isDigitLike c = true := by
    clear hne
    induction token with
    | nil => exact ⟨[], rfl, List.forall_mem_nil _⟩
    | cons c token ih =>
      rw [List.all_cons, Bool.and_eq_true] at hall
      obtain ⟨cs, rfl, hcs⟩ := ih hall.2
      cases c with
      | half u => cases hall.1
      | char c => exact ⟨c :: cs, rfl, List.forall_mem_cons.mpr ⟨hall.1, hcs⟩⟩
  obtain ⟨cs, rfl, hcs⟩ := hchars
  exact ⟨cs, rfl, fun hnil => hne (hnil ▸ rfl), hcs⟩

/-- A number of an item fails only as a numeral: a digit that has no value, or too many of them. -/
theorem index_eq_error (h : isIndex token = true) :
    index token = .error e ↔ ∃ fault, Misread token fault ∧ e = .number fault := by
  obtain ⟨cs, rfl, hne, hcs⟩ := exists_chars h
  have hread : ∀ fault, Numeral.readInt 10 (Text.ofChars cs) = .error fault ↔
      Numeral.Unreadable cs fault := fun _ => Numeral.readInt_row_eq_error hne hcs
  rw [index]
  constructor
  · intro herror
    split at herror
    · cases herror
    · next fault hfault =>
      exact ⟨fault, .intro h ((hread fault).mp hfault), (Except.error.inj herror).symm⟩
  · rintro ⟨fault, hmisread, rfl⟩
    generalize htoken : Text.ofChars cs = token at hmisread
    cases hmisread with
    | intro _ hunreadable =>
      obtain rfl := Text.ofChars_inj.mp htoken
      rw [(hread fault).mpr hunreadable]

/-- A step fails only at a list, and only by its number. -/
theorem step_eq_error :
    step v token = .error e ↔
      ∃ items fault, v.opened = .list items ∧ Misread token fault ∧ e = .number fault := by
  constructor
  · intro h
    rw [step] at h
    split at h
    · cases h
    · next items hlist =>
      split at h
      · next hindex =>
        obtain ⟨fault, hmisread, rfl⟩ := (index_eq_error hindex).mp (Except.map_eq_error.mp h)
        exact ⟨items, fault, hlist, hmisread, rfl⟩
      · cases h
    · cases h
  · rintro ⟨items, fault, hlist, hmisread, rfl⟩
    have hindex : isIndex token = true := by
      cases hmisread with
      | intro h => exact h
    rw [step, hlist]
    show (if isIndex token then (index token).map fun n => items[n]? else .ok none) = _
    rw [if_pos hindex]
    exact Except.map_eq_error.mpr ((index_eq_error hindex).mpr ⟨fault, hmisread, rfl⟩)

/-- The rows of keys and indices that are not followed are those that trip. -/
theorem follow_eq_error {tokens : List Text} :
    follow v tokens = .error e ↔ ∃ fault, Trips v tokens fault ∧ e = .number fault := by
  induction tokens generalizing v with
  | nil => exact ⟨nofun, fun ⟨_, htrips, _⟩ => nomatch htrips⟩
  | cons token tokens ih =>
    rw [follow]
    constructor
    · intro h
      split at h
      · next hstep =>
        rw [h] at hstep
        obtain ⟨items, fault, hlist, hmisread, rfl⟩ := step_eq_error.mp hstep
        exact ⟨fault, .here hlist hmisread, rfl⟩
      · cases h
      · next hstep =>
        obtain ⟨fault, htrips, rfl⟩ := ih.mp h
        exact ⟨fault, .later hstep htrips, rfl⟩
    · rintro ⟨fault, htrips, rfl⟩
      cases htrips with
      | here hlist hmisread => rw [step_eq_error.mpr ⟨_, fault, hlist, hmisread, rfl⟩]
      | later hstep htrips =>
        rw [hstep]
        exact ih.mpr ⟨fault, htrips, rfl⟩

/-- The references that are not looked up are those whose way through the document trips. -/
theorem resolve_eq_error :
    resolve document r = .error e ↔ ∃ fault, Trips document (route r) fault ∧ e = .number fault :=
  follow_eq_error

/-! ### Walks -/

theorem Walker.andThen_eq_error {w w' : Walker} (h : w.andThen w' done = .error e) :
    w done = .error e ∨ ∃ done', w' done' = .error e := by
  rw [Walker.andThen] at h
  split at h
  · exact .inr ⟨_, h⟩
  · exact .inl h

variable {expand : Text → Walker} {stuck : Failure}

mutual

/-- A walk over a value fails because the value contains itself, or at a reference in it. -/
theorem walkWith_eq_error : ∀ {v : Value} {done : List Text},
    walkWith expand stuck v done = .error e →
      e = stuck ∧ ¬v.IsFinite ∨ ∃ r ∈ refs v, ∃ done, expand r done = .error e
  | .map entries, done, h => by
    rw [walkWith] at h
    obtain h | ⟨done', h⟩ := Walker.andThen_eq_error h
    · cases hlocal : local? entries with
      | none =>
        rw [hlocal] at h
        cases h
      | some r =>
        rw [hlocal] at h
        refine .inr ⟨r, ?_, done, h⟩
        rw [refs, hlocal]
        exact List.mem_cons_self
    · obtain ⟨hstuck, hfinite⟩ | ⟨r, hr, hexpand⟩ := walkEntries_eq_error h
      · exact .inl ⟨hstuck, fun hv => hfinite fun _ => hv.entry⟩
      · exact .inr ⟨r, List.mem_append_right _ hr, hexpand⟩
  | .list items, done, h => by
    obtain ⟨hstuck, hfinite⟩ | hexpand := walkItems_eq_error h
    · exact .inl ⟨hstuck, fun hv => hfinite fun _ => hv.item⟩
    · exact .inr hexpand
  | .loop _ body, done, h => by
    obtain ⟨hstuck, -⟩ | hexpand := walkWith_eq_error (v := body) h
    · refine .inl ⟨hstuck, fun hv => ?_⟩
      cases hv with
      | scalar hscalar => cases hscalar
    · exact .inr hexpand
  | .again _, done, h => by
    refine .inl ⟨(Except.error.inj h).symm, fun hv => ?_⟩
    cases hv with
    | scalar hscalar => cases hscalar
  | .null, _, h | .bool _, _, h | .int _, _, h | .float _, _, h | .nan _, _, h | .str _, _, h
  | .bytes _, _, h | .date _, _, h | .time _, _, h | .moment _, _, h | .tuple _, _, h
  | .set _, _, h => nomatch h

/-- A walk over items fails where one of them has no end, or where a reference in them fails. -/
theorem walkItems_eq_error : ∀ {items : List Value} {done : List Text},
    walkItems expand stuck items done = .error e →
      e = stuck ∧ ¬(∀ v ∈ items, v.IsFinite) ∨
        ∃ r ∈ refsOfItems items, ∃ done, expand r done = .error e
  | [], _, h => nomatch h
  | v :: items, done, h => by
    rw [List.forall_mem_cons, refsOfItems]
    obtain h | ⟨done', h⟩ := Walker.andThen_eq_error h
    · obtain ⟨hstuck, hv⟩ | ⟨r, hr, hexpand⟩ := walkWith_eq_error h
      · exact .inl ⟨hstuck, fun hall => hv hall.1⟩
      · exact .inr ⟨r, List.mem_append_left _ hr, hexpand⟩
    · obtain ⟨hstuck, hitems⟩ | ⟨r, hr, hexpand⟩ := walkItems_eq_error h
      · exact .inl ⟨hstuck, fun hall => hitems hall.2⟩
      · exact .inr ⟨r, List.mem_append_right _ hr, hexpand⟩

/-- A walk over entries fails where one of their values has no end, or where a reference in them fails.
-/
theorem walkEntries_eq_error : ∀ {entries : List (Value × Value)} {done : List Text},
    walkEntries expand stuck entries done = .error e →
      e = stuck ∧ ¬(∀ x ∈ entries, x.2.IsFinite) ∨
        ∃ r ∈ refsOfEntries entries, ∃ done, expand r done = .error e
  | [], _, h => nomatch h
  | (k, v) :: entries, done, h => by
    rw [walkEntries] at h
    rw [List.forall_mem_cons, refsOfEntries]
    split at h
    · next hk =>
      rw [if_pos hk]
      obtain ⟨hstuck, hentries⟩ | hexpand := walkEntries_eq_error h
      · exact .inl ⟨hstuck, fun hall => hentries hall.2⟩
      · exact .inr hexpand
    · next hk =>
      rw [if_neg hk]
      obtain h | ⟨done', h⟩ := Walker.andThen_eq_error h
      · obtain ⟨hstuck, hv⟩ | ⟨r, hr, hexpand⟩ := walkWith_eq_error h
        · exact .inl ⟨hstuck, fun hall => hv hall.1⟩
        · exact .inr ⟨r, List.mem_append_left _ hr, hexpand⟩
      · obtain ⟨hstuck, hentries⟩ | ⟨r, hr, hexpand⟩ := walkEntries_eq_error h
        · exact .inl ⟨hstuck, fun hall => hentries hall.2⟩
        · exact .inr ⟨r, List.mem_append_right _ hr, hexpand⟩

end

/-- Pursuing a reference fails in looking it up, or in the walk over what it names. -/
theorem pursue_eq_error {fuel : Nat} (h : pursue document fuel active r done = .error e) :
    resolve document r = .error e ∨ ∃ target, resolve document r = .ok (some target) ∧
      walk document fuel (r :: active) target done = .error e := by
  rw [pursue] at h
  split at h
  · cases h
  split at h
  · cases h
  split at h
  · next hresolve =>
    obtain rfl := Except.error.inj h
    exact .inl hresolve
  · cases h
  · cases h
  · next target _ htarget =>
    refine .inr ⟨target, htarget, ?_⟩
    split at h
    · cases h
    · exact h

/-- A walk over a part of a document fails because the document contains itself, or because a reference
that is led to from one in the part is not looked up. -/
theorem walk_eq_error {fuel : Nat} (hv : document.IsFinite → v.IsFinite)
    (h : walk document fuel active v done = .error e) :
    ¬document.IsFinite ∧ (∃ inMapping, e = .endless inMapping) ∨
      ∃ r ∈ refs v, ∃ s, ReflTransGen (Leads document) r s ∧ resolve document s = .error e := by
  induction fuel generalizing active v done with
  | zero => cases h
  | succ fuel ih =>
    rw [walk] at h
    obtain ⟨hstuck, hfinite⟩ | ⟨r, hr, done', h⟩ := walkWith_eq_error h
    · exact .inl ⟨mt hv hfinite, _, hstuck⟩
    obtain hresolve | ⟨target, htarget, hwalk⟩ := pursue_eq_error h
    · exact .inr ⟨r, hr, r, .refl, hresolve⟩
    have htargetFinite := fun hdocument => (held_resolve hdocument htarget).1
    obtain hendless | ⟨s, hs, t, hst, hresolve⟩ := ih htargetFinite hwalk
    · exact .inl hendless
    · exact .inr ⟨r, hr, t, .head ⟨target, htarget, hs⟩ hst, hresolve⟩

/-- What the search for circles stumbles over: a reference that is reached and trips, or a document that
contains itself. -/
inductive Stumbles (document : Value) : Failure → Prop
  | index {r : Text} {fault : Numeral.Fault} (hr : Reaches document r)
      (h : Trips document (route r) fault) : Stumbles document (.number fault)
  | endless (h : ¬document.IsFinite) (inMapping : Bool) : Stumbles document (.endless inMapping)

theorem stumbles_of_error (h : isCircular document = .error e) : Stumbles document e := by
  obtain ⟨hfinite, inMapping, rfl⟩ | ⟨r, hr, s, hrs, hresolve⟩ :=
    walk_eq_error (fun h => h) (Except.map_eq_error.mp h)
  · exact .endless hfinite inMapping
  · obtain ⟨fault, htrips, rfl⟩ := resolve_eq_error.mp hresolve
    exact .index ⟨r, hr, hrs⟩ htrips

end ApiLint.Reference
