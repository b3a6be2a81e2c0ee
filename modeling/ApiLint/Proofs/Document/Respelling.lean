import ApiLint.Proofs.Document.Circles
import ApiLint.Proofs.Text.Utf8

/-! Documents in which references are spelled as fragments are, some characters by a percent sign and the
digits of each of their bytes. A reference is looked up as it stands, so one that is spelled like this asks
for keys that hold percent signs. Where the keys of a document hold none it leads nowhere
(`ne_some_of_percent`), and the circles that are found in the document are those of the references that
were left as they are (`isCircular_respelled`). -/
namespace ApiLint

/-- A document without percent signs in the texts that are its keys. -/
inductive Value.HasPlainKeys : Value → Prop
  | scalar {v : Value} (h : v.isScalar = true) : HasPlainKeys v
  | list {items : List Value} (h : ∀ v ∈ items, HasPlainKeys v) : HasPlainKeys (.list items)
  | tuple {items : List Value} (h : ∀ v ∈ items, v.IsFinite) : HasPlainKeys (.tuple items)
  | set {items : List Value} (h : ∀ v ∈ items, v.IsFinite) : HasPlainKeys (.set items)
  | map {entries : Entries} (hkeys : ∀ e ∈ entries, ∀ t, e.1 = .str t → .char '%' ∉ t)
      (h : ∀ e ∈ entries, HasPlainKeys e.2) : HasPlainKeys (.map entries)

theorem Value.HasPlainKeys.isFinite {v : Value} (h : v.HasPlainKeys) : v.IsFinite := by
  induction h with
  | scalar h => exact .scalar h
  | list _ ih => exact .list ih
  | tuple h => exact .tuple h
  | set h => exact .set h
  | map _ _ ih => exact .map ih

theorem Value.HasPlainKeys.record {fields : List (Text × Value)}
    (hkeys : ∀ field ∈ fields, CodePoint.char '%' ∉ field.1)
    (h : ∀ field ∈ fields, field.2.HasPlainKeys) : (Value.record fields).HasPlainKeys := by
  refine .map (fun e he t ht => ?_) fun e he => ?_
  · obtain ⟨field, hfield, rfl⟩ := List.mem_map.mp he
    exact Value.str.inj ht ▸ hkeys field hfield
  · obtain ⟨field, hfield, rfl⟩ := List.mem_map.mp he
    exact h field hfield

namespace Reference

open Relation (ReflTransGen TransGen)

variable {document document' v v' part : Value} {r s t token : Text} {tokens tokens' : List Text}

/-! ### Spelling by bytes -/

/-- A byte as a fragment spells it: a percent sign and two hexadecimal digits. -/
inductive IsEscape : UInt8 → Text → Prop
  | intro {byte : UInt8} {a b : Char} (h : Text.hexNumber? [a, b] = some byte.toNat) :
      IsEscape byte [.char '%', .char a, .char b]

/-- The second text is the first one with some of its characters spelled by their bytes. -/
inductive Escapes : Text → Text → Prop
  | nil : Escapes [] []
  | kept (c : CodePoint) {s t : Text} (h : Escapes s t) : Escapes (c :: s) (c :: t)
  | spelled {c : Char} {codes : List Text} {s t : Text}
      (hcodes : List.Forall₂ IsEscape (Text.Utf8.encode [c]) codes) (h : Escapes s t) :
      Escapes (.char c :: s) (codes.flatten ++ t)

/-- An escaped character starts with a percent sign, whatever its bytes are. -/
theorem exists_percent {c : Char} {codes : List Text}
    (h : List.Forall₂ IsEscape (Text.Utf8.encode [c]) codes) :
    ∃ more, codes.flatten = .char '%' :: more := by
  generalize hbytes : Text.Utf8.encode [c] = bytes at h
  cases h with
  | nil =>
    have hdecode := Text.Utf8.decode_encode [c]
    rw [hbytes] at hdecode
    cases hdecode
  | cons hcode _ =>
    cases hcode with
    | intro => exact ⟨_, rfl⟩

/-- What stands in front is left as it is. -/
theorem Escapes.front (front : Text) (h : Escapes s t) : Escapes (front ++ s) (front ++ t) := by
  induction front with
  | nil => exact h
  | cons c front ih => exact .kept c ih

theorem Escapes.eq_or_percent (h : Escapes s t) : s = t ∨ .char '%' ∈ t := by
  induction h with
  | nil => exact .inl rfl
  | kept c _ ih => exact ih.imp (congrArg (c :: ·)) (List.mem_cons_of_mem c)
  | spelled hcodes _ _ =>
    obtain ⟨more, hmore⟩ := exists_percent hcodes
    rw [hmore]
    exact .inr List.mem_cons_self

/-- Rows that are the same up to a text with a percent sign, whatever comes behind it and whatever stands
there in the first row. -/
inductive Meets : List Text → List Text → Prop
  | done : Meets [] []
  | same (piece : Text) {pieces pieces' : List Text} (h : Meets pieces pieces') :
      Meets (piece :: pieces) (piece :: pieces')
  | percent (pieces : List Text) {piece : Text} (h : .char '%' ∈ piece) (pieces' : List Text) :
      Meets pieces (piece :: pieces')

theorem Meets.cons_head {c : CodePoint} {p q : Text} {ps qs : List Text}
    (h : Meets (p :: ps) (q :: qs)) : Meets ((c :: p) :: ps) ((c :: q) :: qs) := by
  cases h with
  | same _ h => exact .same _ h
  | percent _ hq => exact .percent _ (List.mem_cons_of_mem c hq) _

/-- The pieces of both spellings are the same up to the first one with a percent sign in it. -/
theorem Escapes.pieces (h : Escapes s t) :
    Meets (Text.pieces (.char '/') s) (Text.pieces (.char '/') t) := by
  induction h with
  | nil => exact .same [] .done
  | @kept c s t _ ih =>
    by_cases hc : c = .char '/'
    · rw [Text.pieces, Text.pieces, if_pos hc, if_pos hc]
      exact .same [] ih
    · obtain ⟨p, ps, hs, hcs⟩ := Text.exists_pieces_cons hc s
      obtain ⟨q, qs, ht, hct⟩ := Text.exists_pieces_cons hc t
      rw [hs, ht] at ih
      rw [hcs, hct]
      exact ih.cons_head
  | @spelled c codes s t hcodes _ _ =>
    -- The rows may have different lengths from here on: the character may be a slash.
    have hslash : CodePoint.char '%' ≠ .char '/' := by decide
    obtain ⟨more, hmore⟩ := exists_percent hcodes
    obtain ⟨piece, later, -, hpieces⟩ := Text.exists_pieces_cons hslash (more ++ t)
    rw [hmore, List.cons_append, hpieces]
    exact .percent _ List.mem_cons_self _

theorem mem_replaceTilde {c : CodePoint} (digit by_ : Char) (htilde : c ≠ .char '~')
    (hdigit : c ≠ .char digit) (h : c ∈ t) : c ∈ replaceTilde digit by_ t := by
  fun_induction replaceTilde digit by_ t with
  | case1 rest ih => grind
  | case2 d rest hd ih => grind
  | case3 d rest hd ih => grind
  | case4 => exact h

/-- Reading a key back does away with no percent sign. -/
theorem mem_unescape (h : .char '%' ∈ t) : .char '%' ∈ unescape t :=
  mem_replaceTilde '0' '~' (by decide) (by decide)
    (mem_replaceTilde '1' '/' (by decide) (by decide) h)

theorem Meets.unescape (h : Meets tokens tokens') :
    Meets (tokens.map unescape) (tokens'.map unescape) := by
  induction h with
  | done => exact .done
  | same piece _ ih => exact .same _ ih
  | percent pieces h pieces' => exact .percent _ (mem_unescape h) _

/-! ### Looking up -/

theorem step_map (entries : Entries) (token : Text) :
    step (.map entries) token = .ok (Entries.find? (.str token) entries) := rfl

theorem step_list (items : List Value) (token : Text) :
    step (.list items) token =
      if isIndex token then (index token).map fun n => items[n]? else .ok none := rfl

/-- Where no key holds a percent sign, a step with one leads nowhere. -/
theorem step_of_percent (hv : v.HasPlainKeys) (htoken : .char '%' ∈ token) :
    step v token = .ok none := by
  cases hv with
  | @scalar v h => cases v <;> first | rfl | cases h
  | tuple | set => rfl
  | @list items _ =>
    have hindex : isIndex token = false := by
      rw [isIndex, Bool.and_eq_false_iff, List.all_eq_false]
      exact .inr ⟨_, htoken, by decide⟩
    rw [step_list, hindex]
    rfl
  | @map entries hkeys _ =>
    have hnone : Entries.find? (.str token) entries = none :=
      Entries.find?_eq_none.mpr fun e he =>
        Value.same_str_eq_false.mpr fun hkey => hkeys e he token hkey htoken
    rw [step_map, hnone]

/-- Parts of a value have plain keys if the value has. -/
theorem step_hasPlainKeys (hv : v.HasPlainKeys) (h : step v token = .ok (some part)) :
    part.HasPlainKeys := by
  cases hv with
  | @scalar v hscalar => cases v <;> first | cases h | cases hscalar
  | tuple | set => cases h
  | @list items hitems =>
    rw [step_list] at h
    split at h
    · obtain ⟨n, -, hn⟩ := Except.map_eq_ok.mp h
      exact hitems _ (List.mem_of_getElem? hn)
    · cases h
  | @map entries _ hentries =>
    obtain ⟨k, hmem, -⟩ := Entries.exists_of_find? (Except.ok.inj h)
    exact hentries _ hmem

/-- Where a row of keys and indices is followed without failure, so is one that meets it. -/
theorem exists_follow_of_meets {found : Option Value} (hv : v.HasPlainKeys)
    (hmeets : Meets tokens tokens') (h : follow v tokens = .ok found) :
    ∃ found', follow v tokens' = .ok found' := by
  induction hmeets generalizing v with
  | done => exact ⟨_, h⟩
  | same piece _ ih =>
    rw [follow] at h ⊢
    split at h
    · cases h
    · exact ⟨none, rfl⟩
    · next hstep => exact ih (step_hasPlainKeys hv hstep) h
  | percent _ hpiece _ =>
    rw [follow, step_of_percent hv hpiece]
    exact ⟨none, rfl⟩

/-- A row of steps with a percent sign in one of them leads nowhere. -/
theorem follow_of_percent (hv : v.HasPlainKeys) (htoken : token ∈ tokens) (hpercent : .char '%' ∈ token) :
    follow v tokens ≠ .ok (some part) := by
  induction tokens generalizing v with
  | nil => cases htoken
  | cons first tokens ih =>
    intro h
    rw [follow] at h
    split at h
    · cases h
    · cases h
    · next hstep =>
      rcases List.mem_cons.mp htoken with rfl | htoken
      · rw [step_of_percent hv hpercent] at hstep
        cases hstep
      · exact ih (step_hasPlainKeys hv hstep) htoken h

/-- A reference with a percent sign leads nowhere. -/
theorem ne_some_of_percent (hdocument : document.HasPlainKeys) (h : .char '%' ∈ r.drop 2) :
    resolve document r ≠ .ok (some part) := by
  have hslash : CodePoint.char '%' ≠ .char '/' := by decide
  obtain ⟨piece, hpiece, hmem⟩ := Text.exists_mem_pieces hslash h
  exact follow_of_percent hdocument (List.mem_map_of_mem hpiece) (mem_unescape hmem)

/-- A reference is spelled anew, with a percent sign. -/
def Marks (r s : Text) : Prop :=
  Escapes (r.drop 2) (s.drop 2) ∧ .char '%' ∈ s.drop 2

theorem resolve_of_marks {found : Option Value} (hdocument : document.HasPlainKeys) (hmarks : Marks r s)
    (h : resolve document r = .ok found) : resolve document s = .ok none := by
  obtain ⟨found', hfound'⟩ := exists_follow_of_meets hdocument hmarks.1.pieces.unescape h
  cases found' with
  | none => exact hfound'
  | some part => exact absurd hfound' (ne_some_of_percent hdocument hmarks.2)

/-! ### Documents -/

/-- A key with the values that it has in two documents. -/
structure Row where
  key : Value
  left : Value
  right : Value

def lefts (rows : List Row) : Entries := rows.map fun row => (row.key, row.left)

def rights (rows : List Row) : Entries := rows.map fun row => (row.key, row.right)

/-- The second document is the first one with some of its local references spelled by bytes: any
characters behind the number sign, in any of the texts that have the form of a local reference. -/
inductive Respells : Value → Value → Prop
  | same (v : Value) : Respells v v
  | reference {p t : Text} (h : Escapes (.char '/' :: p) t) :
      Respells (.str (.char '#' :: .char '/' :: p)) (.str (.char '#' :: t))
  | list (pairs : List (Value × Value)) (h : ∀ pair ∈ pairs, Respells pair.1 pair.2) :
      Respells (.list (pairs.map (·.1))) (.list (pairs.map (·.2)))
  | map (rows : List Row) (h : ∀ row ∈ rows, Respells row.left row.right) :
      Respells (.map (lefts rows)) (.map (rights rows))

theorem Respells.record (fields : List (Text × Value × Value))
    (h : ∀ field ∈ fields, Respells field.2.1 field.2.2) :
    Respells (.record (fields.map fun field => (field.1, field.2.1)))
      (.record (fields.map fun field => (field.1, field.2.2))) := by
  have hmap := Respells.map (fields.map fun field => ⟨.str field.1, field.2.1, field.2.2⟩)
    fun row hrow => by
      obtain ⟨field, hfield, rfl⟩ := List.mem_map.mp hrow
      exact h field hfield
  simpa only [lefts, rights, List.map_map, Function.comp_def, Value.record] using hmap

/-- A reference stands at one place of two documents. -/
inductive Keeps (r : Text) : Value → Value → Prop
  | here {entries entries' : Entries} (h : local? entries = some r) (h' : local? entries' = some r) :
      Keeps r (.map entries) (.map entries')
  | item (pairs : List (Value × Value)) {pair : Value × Value} (hpair : pair ∈ pairs)
      (h : Keeps r pair.1 pair.2) : Keeps r (.list (pairs.map (·.1))) (.list (pairs.map (·.2)))
  | entry (rows : List Row) {row : Row} (hrow : row ∈ rows) (hkey : row.key.same keyword = false)
      (h : Keeps r row.left row.right) : Keeps r (.map (lefts rows)) (.map (rights rows))

theorem find?_lefts (key : Value) (rows : List Row) :
    Entries.find? key (lefts rows) = (rows.find? (·.key.same key)).map (·.left) := by
  rw [Entries.find?_eq, lefts, List.find?_map, Option.map_map]
  rfl

theorem find?_rights (key : Value) (rows : List Row) :
    Entries.find? key (rights rows) = (rows.find? (·.key.same key)).map (·.right) := by
  rw [Entries.find?_eq, rights, List.find?_map, Option.map_map]
  rfl

/-- A mapping holds a local reference if its keyword has a text of that form. -/
theorem local?_eq_some {entries : Entries} :
    local? entries = some r ↔ Entries.find? keyword entries = some (.str r) ∧ r.take 2 = "#/" := by
  rw [local?]
  constructor
  · intro h
    split at h
    · next ref hfind =>
      obtain ⟨hlocal, heq⟩ := Option.ite_none_right_eq_some.mp h
      cases heq
      exact ⟨hfind, hlocal⟩
    · cases h
  · rintro ⟨hfind, hlocal⟩
    rw [hfind]
    exact if_pos hlocal

/-! ### References at one place -/

/-- A reference that is kept stands in both documents. -/
theorem Keeps.mem_refs (h : Keeps r v v') : r ∈ refs v ∧ r ∈ refs v' := by
  induction h with
  | here h h' =>
    rw [refs, refs, h, h']
    exact ⟨List.mem_cons_self, List.mem_cons_self⟩
  | item _ hpair _ ih =>
    rw [refs_list, refs_list]
    exact ⟨List.mem_flatMap.mpr ⟨_, List.mem_map_of_mem hpair, ih.1⟩,
      List.mem_flatMap.mpr ⟨_, List.mem_map_of_mem hpair, ih.2⟩⟩
  | @entry rows row hrow hkey _ ih =>
    have hleft : (row.key, row.left) ∈ searched (lefts rows) :=
      List.mem_filter.mpr ⟨List.mem_map_of_mem hrow, by rw [hkey]; rfl⟩
    have hright : (row.key, row.right) ∈ searched (rights rows) :=
      List.mem_filter.mpr ⟨List.mem_map_of_mem hrow, by rw [hkey]; rfl⟩
    rw [refs_map, refs_map]
    exact ⟨List.mem_append_right _ (List.mem_flatMap.mpr ⟨_, hleft, ih.1⟩),
      List.mem_append_right _ (List.mem_flatMap.mpr ⟨_, hright, ih.2⟩)⟩

/-- A finite value keeps all of its own references. -/
theorem keeps_self (hv : v.IsFinite) (h : r ∈ refs v) : Keeps r v v := by
  induction hv with
  | @scalar v hscalar => cases v <;> first | cases h | cases hscalar
  | tuple | set => cases h
  | @list items _ ih =>
    rw [refs_list] at h
    obtain ⟨x, hx, hr⟩ := List.mem_flatMap.mp h
    have hkeeps := Keeps.item (items.map fun x => (x, x)) (List.mem_map_of_mem hx) (ih x hx hr)
    simpa only [List.map_map, Function.comp_def, List.map_id'] using hkeeps
  | @map entries _ ih =>
    rw [refs_map] at h
    rcases List.mem_append.mp h with h | h
    · have hlocal := Option.mem_toList.mp h
      exact .here hlocal hlocal
    · obtain ⟨e, he, hr⟩ := List.mem_flatMap.mp h
      obtain ⟨hmem, hkey⟩ := List.mem_filter.mp he
      have hkeeps := Keeps.entry (entries.map fun e => ⟨e.1, e.2, e.2⟩)
        (List.mem_map_of_mem hmem) (Bool.not_eq_true' _ ▸ hkey) (ih e hmem hr)
      simpa only [lefts, rights, List.map_map, Function.comp_def, List.map_id'] using hkeeps

/-- A reference that was spelled anew and is still a local one. -/
theorem eq_or_marks {p t : Text} (h : Escapes (.char '/' :: p) t)
    (hlocal : (CodePoint.char '#' :: t).take 2 = "#/") :
    CodePoint.char '#' :: .char '/' :: p = .char '#' :: t ∨
      Marks (.char '#' :: .char '/' :: p) (.char '#' :: t) := by
  cases h with
  | kept _ h =>
    obtain rfl | hpercent := h.eq_or_percent
    · exact .inl rfl
    · exact .inr ⟨h, hpercent⟩
  | spelled hcodes _ =>
    obtain ⟨more, hmore⟩ := exists_percent hcodes
    rw [hmore] at hlocal
    exact absurd (List.cons.inj (List.cons.inj hlocal).2).1 (by decide)

/-- A local reference of the second document stands in the place of one in the first. -/
theorem Respells.exists_local (h : Respells v (.str s)) (hlocal : s.take 2 = "#/") :
    ∃ r, v = .str r ∧ r.take 2 = "#/" ∧ (r = s ∨ Marks r s) := by
  generalize hs : Value.str s = v' at h
  cases h with
  | same =>
    subst hs
    exact ⟨s, rfl, hlocal, .inl rfl⟩
  | reference hescapes =>
    cases hs
    exact ⟨_, rfl, rfl, eq_or_marks hescapes hlocal⟩
  | list | map => cases hs

/-- Each reference of the second document stands at its place in the first one, or another one stands there
that it spells anew. -/
theorem Respells.exists_of_mem_refs (h : Respells v v') (hv : v.IsFinite) (hs : s ∈ refs v') :
    Keeps s v v' ∨ ∃ r ∈ refs v, Marks r s := by
  induction h with
  | same v => exact .inl (keeps_self hv hs)
  | reference => cases hs
  | @list pairs _ ih =>
    rw [refs_list] at hs
    obtain ⟨_, hx, hs⟩ := List.mem_flatMap.mp hs
    obtain ⟨pair, hpair, rfl⟩ := List.mem_map.mp hx
    have hmem : pair.1 ∈ pairs.map (·.1) := List.mem_map_of_mem hpair
    obtain hkeeps | ⟨r, hr, hmarks⟩ := ih pair hpair (hv.item hmem) hs
    · exact .inl (.item pairs hpair hkeeps)
    · refine .inr ⟨r, ?_, hmarks⟩
      rw [refs_list]
      exact List.mem_flatMap.mpr ⟨_, hmem, hr⟩
  | @map rows hrows ih =>
    rw [refs_map] at hs
    rcases List.mem_append.mp hs with hs | hs
    · obtain ⟨hfind, hlocal⟩ := local?_eq_some.mp (Option.mem_toList.mp hs)
      rw [find?_rights, Option.map_eq_some_iff] at hfind
      obtain ⟨row, hfound, hright⟩ := hfind
      have hleft : Entries.find? keyword (lefts rows) = some row.left := by
        rw [find?_lefts, hfound]
        rfl
      have hrow := hrows row (List.mem_of_find?_eq_some hfound)
      rw [hright] at hrow
      obtain ⟨r, hr, hlocal', heq⟩ := hrow.exists_local hlocal
      rw [hr] at hleft
      have hlocalLeft := local?_eq_some.mpr ⟨hleft, hlocal'⟩
      obtain rfl | hmarks := heq
      · exact .inl (.here hlocalLeft (Option.mem_toList.mp hs))
      · refine .inr ⟨r, ?_, hmarks⟩
        rw [refs_map]
        exact List.mem_append_left _ (Option.mem_toList.mpr hlocalLeft)
    · obtain ⟨_, he, hs⟩ := List.mem_flatMap.mp hs
      obtain ⟨hmem, hkey⟩ := List.mem_filter.mp he
      obtain ⟨row, hrow, rfl⟩ := List.mem_map.mp hmem
      have hkey' : row.key.same keyword = false := Bool.not_eq_true' _ ▸ hkey
      have hleft : (row.key, row.left) ∈ lefts rows := List.mem_map_of_mem hrow
      obtain hkeeps | ⟨r, hr, hmarks⟩ := ih row hrow (hv.entry hleft) hs
      · exact .inl (.entry rows hrow hkey' hkeeps)
      · refine .inr ⟨r, ?_, hmarks⟩
        rw [refs_map]
        exact List.mem_append_right _ (List.mem_flatMap.mpr ⟨_, List.mem_filter.mpr ⟨hleft, hkey⟩, hr⟩)

/-! ### The same place of both documents -/

/-- Two answers of one kind: both fail alike, both find nothing, or the second one finds what the first one
finds, spelled anew. -/
inductive Answers : Except Failure (Option Value) → Except Failure (Option Value) → Prop
  | error (e : Failure) : Answers (.error e) (.error e)
  | none : Answers (.ok none) (.ok none)
  | some {v v' : Value} (h : Respells v v') : Answers (.ok (some v)) (.ok (some v'))

theorem Answers.refl (x : Except Failure (Option Value)) : Answers x x := by
  cases x with
  | error e => exact .error e
  | ok found =>
    cases found with
    | none => exact .none
    | some v => exact .some (.same v)

/-- A step leads to parts that respell each other, nowhere in both values, or fails alike. -/
theorem Respells.step (h : Respells v v') (token : Text) : Answers (step v token) (step v' token) := by
  cases h with
  | same => exact .refl _
  | reference => exact .none
  | @list pairs hpairs =>
    rw [step_list, step_list]
    split
    · cases index token with
      | error e => exact .error e
      | ok n =>
        show Answers (.ok (pairs.map (·.1))[n]?) (.ok (pairs.map (·.2))[n]?)
        rw [List.getElem?_map, List.getElem?_map]
        cases hpair : pairs[n]? with
        | none => exact .none
        | some pair => exact .some (hpairs pair (List.mem_of_getElem? hpair))
    · exact .none
  | @map rows hrows =>
    rw [step_map, step_map, find?_lefts, find?_rights]
    cases hrow : rows.find? (·.key.same (.str token)) with
    | none => exact .none
    | some row => exact .some (hrows row (List.mem_of_find?_eq_some hrow))

/-- Following the same steps in both values leads to parts that respell each other, nowhere, or fails
alike. -/
theorem Respells.follow (h : Respells v v') (tokens : List Text) :
    Answers (follow v tokens) (follow v' tokens) := by
  induction tokens generalizing v v' with
  | nil => exact .some h
  | cons token tokens ih =>
    have hstep := h.step token
    rw [Reference.follow, Reference.follow]
    generalize Reference.step v token = x at hstep
    generalize Reference.step v' token = y at hstep
    cases hstep with
    | error e => exact .error e
    | none => exact .none
    | some h => exact ih h

/-- A respelled document is as finite as the first one. -/
theorem Respells.isFinite (h : Respells v v') (hv : v.IsFinite) : v'.IsFinite := by
  induction h with
  | same => exact hv
  | reference => exact .scalar rfl
  | @list pairs _ ih =>
    refine .list fun x hx => ?_
    obtain ⟨pair, hpair, rfl⟩ := List.mem_map.mp hx
    exact ih pair hpair (hv.item (List.mem_map_of_mem hpair))
  | @map rows _ ih =>
    refine .map fun e he => ?_
    obtain ⟨row, hrow, rfl⟩ := List.mem_map.mp he
    exact ih row hrow (hv.entry (e := (row.key, row.left)) (List.mem_map_of_mem hrow))

/-! ### Circles -/

/-- A reference leads to another one in both documents: what it names in them holds that one at one
place. -/
def StillLeads (document document' : Value) (r s : Text) : Prop :=
  ∃ target target', resolve document r = .ok (some target) ∧
    resolve document' r = .ok (some target') ∧ Keeps s target target'

/-- A reference stands at one place of both documents, or is led to in both from one that does. -/
def StillReaches (document document' : Value) (s : Text) : Prop :=
  ∃ r, Keeps r document document' ∧ ReflTransGen (StillLeads document document') r s

/-- A circle of references is left as it was, together with a way to it. -/
def KeepsCircle (document document' : Value) : Prop :=
  ∃ r, StillReaches document document' r ∧ TransGen (StillLeads document document') r r

theorem StillLeads.leads (h : StillLeads document document' r s) :
    Leads document r s ∧ Leads document' r s := by
  obtain ⟨target, target', htarget, htarget', hkeeps⟩ := h
  exact ⟨⟨target, htarget, hkeeps.mem_refs.1⟩, ⟨target', htarget', hkeeps.mem_refs.2⟩⟩

theorem KeepsCircle.exists_circle (h : KeepsCircle document document') :
    (∃ r, Reaches document r ∧ TransGen (Leads document) r r) ∧
      ∃ r, Reaches document' r ∧ TransGen (Leads document') r r := by
  obtain ⟨r, ⟨s, hs, hsr⟩, hr⟩ := h
  have hleft : ∀ r s, StillLeads document document' r s → Leads document r s := fun _ _ h => h.leads.1
  have hright : ∀ r s, StillLeads document document' r s → Leads document' r s := fun _ _ h => h.leads.2
  exact ⟨⟨r, ⟨s, hs.mem_refs.1, ReflTransGen.mono hleft _ _ hsr⟩, TransGen.mono hleft _ _ hr⟩,
    ⟨r, ⟨s, hs.mem_refs.2, ReflTransGen.mono hright _ _ hsr⟩, TransGen.mono hright _ _ hr⟩⟩

section Respelled

variable (hdocument : document.HasPlainKeys) (h : Respells document document')
include hdocument h

/-- What a reference names in the second document it names in the first one, spelled anew. -/
theorem exists_target {target' : Value} (htarget' : resolve document' s = .ok (some target')) :
    ∃ target, resolve document s = .ok (some target) ∧ target.IsFinite ∧ Respells target target' := by
  have hanswers : Answers (resolve document s) (resolve document' s) := h.follow _
  rw [htarget'] at hanswers
  generalize hresolve : resolve document s = x at hanswers
  cases hanswers with
  | some hrespells => exact ⟨_, rfl, (held_resolve hdocument.isFinite hresolve).1, hrespells⟩

/-- A reference that names something stands where it stood. -/
theorem keeps_of_names {target' : Value} (hrespells : Respells v v') (hv : v.IsFinite) (hs : s ∈ refs v')
    (htarget' : resolve document' s = .ok (some target')) : Keeps s v v' := by
  obtain hkeeps | ⟨r, -, hmarks⟩ := hrespells.exists_of_mem_refs hv hs
  · exact hkeeps
  · obtain ⟨target, htarget, -⟩ := exists_target hdocument h htarget'
    exact absurd htarget (ne_some_of_percent hdocument hmarks.2)

theorem stillLeads_of_leads {target' : Value} (hlead : Leads document' r s)
    (htarget' : resolve document' s = .ok (some target')) : StillLeads document document' r s := by
  obtain ⟨part', hpart', hs⟩ := hlead
  obtain ⟨part, hpart, hfinite, hrespells⟩ := exists_target hdocument h hpart'
  exact ⟨part, part', hpart, hpart', keeps_of_names hdocument h hrespells hfinite hs htarget'⟩

/-- A way that ends where a reference names something is left as it was: the references on it that lead to
others name something too. -/
theorem stillLeads_of_transGen {target' : Value} (hrs : TransGen (Leads document') r s)
    (htarget' : resolve document' s = .ok (some target')) :
    TransGen (StillLeads document document') r s := by
  induction hrs generalizing target' with
  | single hlead => exact .single (stillLeads_of_leads hdocument h hlead htarget')
  | tail _ hlead ih =>
    obtain ⟨part', hpart', -⟩ := id hlead
    exact (ih hpart').tail (stillLeads_of_leads hdocument h hlead htarget')

/-- The circles of the second document are those that were left as they were. -/
theorem keepsCircle_of_circle (hs : Reaches document' s) (hcircle : TransGen (Leads document') s s) :
    KeepsCircle document document' := by
  obtain ⟨r, hr, hrs⟩ := hs
  obtain ⟨_, ⟨target', htarget', -⟩, -⟩ := TransGen.head'_iff.mp hcircle
  -- The first reference of the way names something too: it leads on, or is the one on the circle.
  have hstart : ∃ part', resolve document' r = .ok (some part') := by
    obtain rfl | ⟨_, ⟨part', hpart', -⟩, -⟩ := hrs.cases_head
    · exact ⟨_, htarget'⟩
    · exact ⟨part', hpart'⟩
  obtain ⟨part', hpart'⟩ := hstart
  refine ⟨s, ⟨r, keeps_of_names hdocument h h hdocument.isFinite hr hpart', ?_⟩,
    stillLeads_of_transGen hdocument h hcircle htarget'⟩
  obtain rfl | hway := Relation.reflTransGen_iff_eq_or_transGen.mp hrs
  · exact .refl
  · exact (stillLeads_of_transGen hdocument h hway htarget').to_reflTransGen

/-- A reference that is reached in the second document is reached in the first one, or spells anew one
that is. -/
theorem reaches_or_marks (hs : Reaches document' s) :
    Reaches document s ∨ ∃ r, Reaches document r ∧ Marks r s := by
  obtain ⟨r, hr, hrs⟩ := hs
  induction hrs with
  | refl =>
    refine (h.exists_of_mem_refs hdocument.isFinite hr).imp (fun hkeeps => ?_) fun ⟨q, hq, hmarks⟩ => ?_
    · exact ⟨r, hkeeps.mem_refs.1, .refl⟩
    · exact ⟨q, ⟨q, hq, .refl⟩, hmarks⟩
  | tail _ hlead ih =>
    obtain ⟨part', hpart', hs⟩ := hlead
    obtain ⟨part, hpart, hfinite, hrespells⟩ := exists_target hdocument h hpart'
    obtain ⟨q, hq, hqb⟩ | ⟨q, -, hmarks⟩ := ih
    · refine (hrespells.exists_of_mem_refs hfinite hs).imp (fun hkeeps => ?_) fun ⟨t, ht, hmarks⟩ => ?_
      · exact ⟨q, hq, hqb.tail ⟨part, hpart, hkeeps.mem_refs.1⟩⟩
      · exact ⟨t, ⟨q, hq, hqb.tail ⟨part, hpart, ht⟩⟩, hmarks⟩
    · exact absurd hpart (ne_some_of_percent hdocument hmarks.2)

/-- Nothing that is reached in the second document makes a look-up fail. -/
theorem exists_resolve_respelled
    (hresolves : ∀ r, Reaches document r → ∃ found, resolve document r = .ok found)
    (hs : Reaches document' s) : ∃ found, resolve document' s = .ok found := by
  have hfirst : ∃ found, resolve document s = .ok found := by
    obtain hs | ⟨r, hr, hmarks⟩ := reaches_or_marks hdocument h hs
    · exact hresolves s hs
    · obtain ⟨found, hfound⟩ := hresolves r hr
      exact ⟨none, resolve_of_marks hdocument hmarks hfound⟩
  have hanswers : Answers (resolve document s) (resolve document' s) := h.follow _
  obtain ⟨found, hfound⟩ := hfirst
  rw [hfound] at hanswers
  generalize resolve document' s = y at hanswers
  cases hanswers with
  | none | some => exact ⟨_, rfl⟩

/-- **The circles that are found are those of the references that were left as they were.** Some references
of a document are spelled by bytes. If no key holds a percent sign and every reference that is reached can
be looked up, both documents are told to be circular or not. The second one is if one can come, by
references that stand and lead alike in both, to one that leads back to itself; so it is told the same as
the first one exactly if a circle is left, or there was none. -/
theorem isCircular_respelled
    (hresolves : ∀ r, Reaches document r → ∃ found, resolve document r = .ok found) :
    ∃ circular circular', isCircular document = .ok circular ∧ isCircular document' = .ok circular' ∧
      (circular' = true ↔ KeepsCircle document document') ∧
      (circular' = circular ↔ (circular = true → KeepsCircle document document')) := by
  obtain ⟨circular, hcircular, hiff⟩ := exists_isCircular hdocument.isFinite hresolves
  obtain ⟨circular', hcircular', hiff'⟩ := exists_isCircular (h.isFinite hdocument.isFinite)
    fun s hs => exists_resolve_respelled hdocument h hresolves hs
  have hkept : circular' = true ↔ KeepsCircle document document' := by
    refine hiff'.trans ⟨fun ⟨s, hs, hcircle⟩ => keepsCircle_of_circle hdocument h hs hcircle, ?_⟩
    exact fun hcircle => hcircle.exists_circle.2
  have hfirst : KeepsCircle document document' → circular = true := fun hcircle =>
    hiff.mpr hcircle.exists_circle.1
  refine ⟨circular, circular', hcircular, hcircular', hkept, ?_⟩
  rw [Bool.eq_iff_iff, hkept]
  exact ⟨fun hsame => hsame.mpr, fun hleft => ⟨hfirst, hleft⟩⟩

end Respelled

/-- The sample with the reference spelled by bytes that leads nowhere and is on no circle. -/
def respelledSample : Value :=
  .record [("a", .record [("$ref", .str "#/b"), ("x", .list [.record [("$ref", .str "#/n%6Fne")]])]),
    ("b", .record [("y", .record [("$ref", .str "#/a")])])]

theorem respells_sample : Respells sampleDocument respelledSample := by
  have hcode : List.Forall₂ IsEscape (Text.Utf8.encode ['o']) ["%6F"] := .cons (.intro rfl) .nil
  have hescapes : Escapes "/none" "/n%6Fne" := .front "/n" (.spelled hcode (.front "ne" .nil))
  have hlist : Respells (.list [.record [("$ref", .str "#/none")]])
      (.list [.record [("$ref", .str "#/n%6Fne")]]) := by
    refine .list [(_, _)] (List.forall_mem_singleton.mpr ?_)
    exact .record [("$ref", _, _)] (List.forall_mem_singleton.mpr (.reference hescapes))
  refine .record [("a", _, _), ("b", _, _)] (List.forall_mem_cons.mpr ⟨?_, ?_⟩)
  · refine .record [("$ref", _, _), ("x", _, _)] (List.forall_mem_cons.mpr ⟨.same _, ?_⟩)
    exact List.forall_mem_singleton.mpr hlist
  · exact List.forall_mem_singleton.mpr (.same _)

theorem sampleDocument_hasPlainKeys : sampleDocument.HasPlainKeys := by
  have hkey : CodePoint.char '%' ∉ ("$ref" : Text) := by decide
  have href : ∀ t : Text, (Value.record [("$ref", .str t)]).HasPlainKeys := fun t =>
    .record (List.forall_mem_singleton.mpr hkey) (List.forall_mem_singleton.mpr (.scalar rfl))
  refine .record (by decide) (List.forall_mem_cons.mpr ⟨?_, List.forall_mem_singleton.mpr ?_⟩)
  · refine .record (by decide) (List.forall_mem_cons.mpr ⟨.scalar rfl, ?_⟩)
    exact List.forall_mem_singleton.mpr (.list (List.forall_mem_singleton.mpr (href _)))
  · exact .record (by decide) (List.forall_mem_singleton.mpr (href _))

/-- The two references of the sample that lead to each other are left as they were. -/
theorem isCircular_respelled_sample : sampleDocument.HasPlainKeys ∧
    Respells sampleDocument respelledSample ∧
    (∀ r, Reaches sampleDocument r → ∃ found, resolve sampleDocument r = .ok found) ∧
    KeepsCircle sampleDocument respelledSample := by
  have hresolves := fun r => exists_resolve_sample (r := r)
  obtain ⟨circular, circular', -, hcircular', hkept, -⟩ :=
    isCircular_respelled sampleDocument_hasPlainKeys respells_sample hresolves
  have hfound : isCircular respelledSample = .ok true := rfl
  obtain rfl := Except.ok.inj (hcircular'.symm.trans hfound)
  exact ⟨sampleDocument_hasPlainKeys, respells_sample, hresolves, hkept.mp rfl⟩

/-- Where a key holds a percent sign, a reference that is spelled by bytes may close a circle. -/
example : isCircular (.record [("a b", .null), ("a%20b", .record [("$ref", .str "#/a b")])]) = .ok false ∧
    isCircular (.record [("a b", .null), ("a%20b", .record [("$ref", .str "#/a%20b")])]) = .ok true :=
  ⟨rfl, rfl⟩

/-- A document with one reference, which stands in a path item with a parameter in its name. -/
def pointing (ref : Text) : Value :=
  .record [("paths", .record [("/pets/\x7bid\x7d", .record [("$ref", .str ref)])])]

/-- The path item that refers to itself is a circle, and is none when the braces are spelled by bytes. -/
theorem isCircular_changes :
    Respells (pointing "#/paths/~1pets~1\x7bid\x7d") (pointing "#/paths/~1pets~1%7Bid%7D") ∧
      isCircular (pointing "#/paths/~1pets~1\x7bid\x7d") = .ok true ∧
      isCircular (pointing "#/paths/~1pets~1%7Bid%7D") = .ok false := by
  have hopen : List.Forall₂ IsEscape (Text.Utf8.encode ['\x7b']) ["%7B"] := .cons (.intro rfl) .nil
  have hclose : List.Forall₂ IsEscape (Text.Utf8.encode ['\x7d']) ["%7D"] := .cons (.intro rfl) .nil
  have hescapes : Escapes "/paths/~1pets~1\x7bid\x7d" "/paths/~1pets~1%7Bid%7D" :=
    .front "/paths/~1pets~1" (.spelled hopen (.front "id" (.spelled hclose .nil)))
  refine ⟨?_, rfl, rfl⟩
  refine .record [("paths", _, _)] (List.forall_mem_singleton.mpr ?_)
  refine .record [("/pets/\x7bid\x7d", _, _)] (List.forall_mem_singleton.mpr ?_)
  exact .record [("$ref", _, _)] (List.forall_mem_singleton.mpr (.reference hescapes))

end Reference

end ApiLint
