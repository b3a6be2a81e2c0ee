import ApiLint.Proofs.Yaml.Scalars
import ApiLint.Yaml.Token.Stream
import Mathlib.Logic.Relation

/-! How the scanner goes through brackets. Where no block collection is open, nothing but the text up
to the cursor, the number of open brackets and the last possible key decides what comes next; each lemma
here is one token, from the place in front of the blanks before it to the place behind it. A possible
key is confirmed by a colon as long as it is on the same line and not too long (`isStale_iff`). -/
namespace ApiLint.Yaml

/-- Whether a key that starts behind `start` can still be one behind `front`. -/
def IsFresh (start front : List Char) : Prop :=
  start.count '\n' = front.count '\n' ∧ front.length - start.length ≤ keyLimit

namespace Progress

/-- The state of the scanner behind `front` and in front of `rest`, inside of brackets only. No
possible key has to be one. -/
structure Stands (front rest : List Char) (depth : Nat) (p : Progress) : Prop where
  cursor : p.cursor.At front rest
  depth : p.outer.length = depth
  free : ∀ key ∈ p.pending :: p.outer, ∀ k ∈ key, k.required = false
  indent : p.indent = -1
  outerIndents : p.outerIndents = []
  count : p.count = p.reversed.length

/-- The scanner is ready to read on behind `front`: it stands there, or in the blanks in front of it. -/
def Ready (front rest : List Char) (depth : Nat) (p : Progress) : Prop :=
  ∃ before gap, front = before ++ gap ∧ IsSpacing gap ∧ p.Stands before (gap ++ rest) depth

/-- One token is read, and more may come. -/
def Step (p q : Progress) : Prop :=
  p.next = .ok (true, q) ∧ p.cursor.index < q.cursor.index

/-- Some tokens are read. -/
abbrev Passes : Progress → Progress → Prop :=
  Relation.ReflTransGen Step

variable {p q : Progress} {front rest : List Char} {depth : Nat}

/-! ### Runs -/

/-- A run goes on from where some tokens lead, and each of them takes a character of the text. -/
theorem Passes.run_eq (h : Passes p q) :
    ∃ n, n + p.cursor.index ≤ q.cursor.index ∧ ∀ fuel, run (fuel + n) p = run fuel q := by
  induction h with
  | refl => exact ⟨0, by omega, fun fuel => rfl⟩
  | tail _ hstep ih =>
    obtain ⟨n, hn, hrun⟩ := ih
    obtain ⟨hnext, hindex⟩ := hstep
    refine ⟨n + 1, by omega, fun fuel => ?_⟩
    rw [Nat.add_comm n 1, ← Nat.add_assoc, hrun, run, hnext]

/-! ### Blanks -/

theorem Stands.ready (h : p.Stands front rest depth) : p.Ready front rest depth :=
  ⟨front, [], (List.append_nil _).symm, List.forall_mem_nil _, h⟩

/-- Blanks may be counted as passed before they are. -/
theorem Ready.behind {gap : List Char} (h : p.Ready front (gap ++ rest) depth)
    (hgap : IsSpacing gap) : p.Ready (front ++ gap) rest depth := by
  obtain ⟨before, blanks, rfl, hblanks, hstands⟩ := h
  refine ⟨before, blanks ++ gap, by rw [List.append_assoc],
    List.forall_mem_append.mpr ⟨hblanks, hgap⟩, ?_⟩
  rwa [List.append_assoc]

theorem Stands.inFlow (h : p.Stands front rest (depth + 1)) : p.inFlow = true := by
  have hdepth := h.depth
  rw [Progress.inFlow]
  cases houter : p.outer with
  | nil => rw [houter] at hdepth; cases hdepth
  | cons key outer => rfl

/-- Blanks are skipped, and keys stay allowed where they were. -/
theorem skipGap_spacing {gap : List Char} {fuel : Nat} (hfuel : gap.length < fuel)
    (hgap : IsSpacing gap) (hend : EndsSpacing rest) (h : p.cursor.At front (gap ++ rest)) :
    ∃ c allowed, c.At (front ++ gap) rest ∧ (p.keyAllowed = true → allowed = true) ∧
      p.skipGap fuel = { p with cursor := c, keyAllowed := allowed } := by
  induction fuel generalizing gap front p with
  | zero => exact absurd hfuel (Nat.not_lt_zero _)
  | succ fuel ih =>
    rw [skipGap]
    obtain hnext | ⟨spaces, more, rfl, hmore, hnext⟩ := h.exists_skipSpaces hgap hend.head_ne_space
    · have hhash : p.cursor.skipSpaces.peek ≠ some '#' := by
        rw [hnext.peek]
        exact fun hhead => (hend '#' hhead).2.1 rfl
      have hbreak : p.cursor.skipSpaces.peek.any isBreak = false := by
        rw [hnext.peek, Option.any_eq_false]
        exact fun x hx => by simp [(hend x hx).2.2]
      refine ⟨_, p.keyAllowed, hnext, id, ?_⟩
      simp only [if_neg hhash, hbreak, Bool.false_eq_true, if_false]
    · have hpeek : p.cursor.skipSpaces.peek = some '\n' := hnext.peek
      have hhash : some '\n' ≠ some '#' := by decide
      have hbreak : (some '\n').any isBreak = true := rfl
      have hlength : more.length < fuel := by
        rw [List.length_append, List.length_cons] at hfuel
        omega
      obtain ⟨c, allowed, hc, hallowed, hskip⟩ := ih (p := { p with
        cursor := p.cursor.skipSpaces.lineBreak.2, keyAllowed := p.keyAllowed || !p.inFlow })
        hlength hmore hnext.lineBreak.2
      refine ⟨c, allowed, by simpa using hc, fun hp => hallowed ?_, ?_⟩
      · rw [hp]
        rfl
      · simp only [hpeek, if_neg hhash, hbreak, if_true]
        exact hskip

/-! ### Possible keys -/

theorem isStale_iff {c : Cursor} {key : KeyStart} {start : List Char} (h : c.At front rest)
    (hkey : key.mark = markAfter start) : isStale c key = false ↔ IsFresh start front := by
  rw [isStale, hkey, h.line, h.index, Bool.or_eq_false_iff]
  exact and_congr (decide_eq_false_iff_not.trans not_not)
    (decide_eq_false_iff_not.trans Nat.not_lt)

/-- What became of the state when the blanks in front of a token were passed. -/
structure Settles (p q : Progress) : Prop where
  reversed : q.reversed = p.reversed
  keyAllowed : p.keyAllowed = true → q.keyAllowed = true
  pending : q.pending = p.pending.filter fun key => !isStale q.cursor key
  index : p.cursor.index ≤ q.cursor.index

theorem unwind_eq_self (column : Int) (hindent : p.indent = -1) (houter : p.outerIndents = []) :
    p.unwind column = p := by
  rw [unwind, houter, closeBlocks]
  split
  · rfl
  · cases p
    simp_all

theorem not_required_of_keep {keys : List (Option KeyStart)} {keep : KeyStart → Bool}
    (h : ∀ key ∈ keys, ∀ k ∈ key, k.required = false) :
    ∀ key ∈ keys.map (·.filter keep), ∀ k ∈ key, k.required = false := by
  intro key hkey k hk
  obtain ⟨key, hmem, rfl⟩ := List.mem_map.mp hkey
  exact h key hmem k (Option.filter_eq_some_iff.mp hk).1

/-- In front of a token the blanks are passed, and keys that are too far back are given up. -/
theorem Ready.exists_settled (h : p.Ready front rest depth) (hend : EndsSpacing rest) :
    ∃ q, q.Stands front rest depth ∧ Settles p q ∧
      (p.skipGap p.cursor.steps).dropStale = .ok q := by
  obtain ⟨before, gap, rfl, hgap, hstands⟩ := h
  have hlength : gap.length < p.cursor.steps :=
    Nat.lt_of_le_of_lt (by simp) hstands.cursor.length_lt_steps
  obtain ⟨c, allowed, hc, hallowed, hskip⟩ := skipGap_spacing hlength hgap hend hstands.cursor
  have hfree := hstands.free
  have hnone : (p.pending :: p.outer).any (fun key => key.any fun k =>
      isStale c k && k.required) = false := by
    rw [List.any_eq_false]
    intro key hkey
    rw [Bool.not_eq_true, Option.any_eq_false]
    intro k hk
    simp [hfree key hkey k hk]
  refine ⟨{ p with
    cursor := c
    keyAllowed := allowed
    pending := p.pending.filter fun key => !isStale c key
    outer := p.outer.map (·.filter fun key => !isStale c key) },
    ⟨hc, ?_, not_required_of_keep hfree, hstands.indent, hstands.outerIndents, hstands.count⟩,
    ⟨rfl, hallowed, rfl, ?_⟩, ?_⟩
  · simpa using hstands.depth
  · show p.cursor.index ≤ c.index
    rw [hstands.cursor.index, hc.index]
    simp
  · rw [hskip]
    exact if_neg (Bool.eq_false_iff.mp hnone)

/-! ### Tokens -/

variable {x : Char}

/-- A character that a token starts with, and what it is made of. -/
theorem Ready.exists_token (h : p.Ready front (x :: rest) depth) (hx : EndsSpacing (x :: rest)) :
    ∃ q, q.Stands front (x :: rest) depth ∧ Settles p q ∧
      ∀ {r front' rest' depth'}, q.token x = .ok r → r.Stands front' rest' depth' →
        front.length < front'.length → Step p r := by
  obtain ⟨q, hq, hsettles, hskip⟩ := h.exists_settled hx
  refine ⟨q, hq, hsettles, fun {r front' rest' depth'} htoken hr hlength => ⟨?_, ?_⟩⟩
  · rw [next, hskip]
    show (if q.cursor.isStuck then _ else _) = _
    rw [hq.cursor.isStuck, if_neg Bool.false_ne_true]
    simp only [unwind_eq_self _ hq.indent hq.outerIndents, hq.cursor.peek, List.head?_cons]
    rw [htoken]
    show (if r.cursor.isStuck then _ else _) = _
    rw [hr.cursor.isStuck, if_neg Bool.false_ne_true]
    rfl
  · have hindex := hsettles.index
    have hfront := hq.cursor.index
    have hfront' := hr.cursor.index
    omega

/-- The key that is possible where a node starts, if one may start there. -/
def Saves (front : List Char) (p : Progress) (key : Option KeyStart) : Prop :=
  ∃ k, key = some k ∧ k.mark = markAfter front ∧ k.position = p.reversed.length

/-- Where a node starts, its place is noted in case it is a key. -/
theorem Stands.exists_saveKey (h : p.Stands front rest depth) :
    ∃ key, p.saveKey = .ok { p with pending := key } ∧ (p.keyAllowed = true → Saves front p key) ∧
      ∀ k ∈ key, k.required = false := by
  by_cases hallowed : p.keyAllowed = true
  · have hpending : p.pending.any (·.required) = false := by
      rw [Option.any_eq_false]
      intro k hk
      simp [h.free _ List.mem_cons_self k hk]
    have hrequired : (!p.inFlow && decide (p.indent = p.cursor.column)) = false := by
      have : p.indent ≠ p.cursor.column := by
        rw [h.indent]
        omega
      simp [this]
    refine ⟨some ⟨false, p.count, p.cursor.mark, p.cursor.column⟩, ?_, fun _ =>
      ⟨_, rfl, h.cursor.mark, h.count⟩, fun k hk => Option.some.inj hk ▸ rfl⟩
    rw [saveKey, if_pos hallowed]
    dsimp only
    rw [hrequired, dropKey, hpending]
    rfl
  · refine ⟨p.pending, ?_, fun hp => absurd hp hallowed, h.free _ List.mem_cons_self⟩
    rw [saveKey, if_neg hallowed]

theorem Stands.dropKey (h : p.Stands front rest depth) :
    p.dropKey = .ok { p with pending := none } := by
  rw [Progress.dropKey, if_neg]
  rw [Bool.not_eq_true, Option.any_eq_false]
  intro k hk
  simp [h.free _ List.mem_cons_self k hk]

theorem not_required_none : ∀ k ∈ (none : Option KeyStart), k.required = false := by
  intro k hk
  cases hk

/-- Only the keys around the innermost brackets count for what was free before. -/
theorem Stands.free_outer (h : p.Stands front rest depth) :
    ∀ key ∈ p.outer, ∀ k ∈ key, k.required = false :=
  fun key hkey => h.free key (List.mem_cons_of_mem _ hkey)

/-- A token was added and passed. -/
theorem Stands.emitted {front' rest' : List Char} {depth' : Nat} {c : Cursor}
    (h : p.Stands front rest depth) (kind : TokenKind) (key : Option KeyStart)
    (outer : List (Option KeyStart)) (allowed : Bool) (hc : c.At front' rest')
    (houter : outer.length = depth')
    (hfree : ∀ k ∈ key :: outer, ∀ l ∈ k, l.required = false) :
    { p.emit kind with cursor := c, pending := key, outer, keyAllowed := allowed }.Stands
      front' rest' depth' where
  cursor := hc
  depth := houter
  free := hfree
  indent := h.indent
  outerIndents := h.outerIndents
  count := congrArg (· + 1) h.count

theorem Stands.emit_reversed (h : p.Stands front rest depth) (kind : TokenKind) :
    (p.emit kind).reversed = ⟨kind, markAfter front⟩ :: p.reversed := by
  rw [emit, h.cursor.mark]

theorem endsSpacing_nil : EndsSpacing [] := by
  intro x hx
  cases hx

theorem endsSpacing_cons (hspace : x ≠ ' ') (hhash : x ≠ '#') (hbreak : isBreak x = false) :
    EndsSpacing (x :: rest) := by
  rintro _ ⟨⟩
  exact ⟨hspace, hhash, hbreak⟩

/-- An opening bracket. -/
theorem Ready.exists_open {kind : TokenKind} (h : p.Ready front (x :: rest) depth)
    (hx : x = '[' ∧ kind = .flowSequenceStart ∨ x = '{' ∧ kind = .flowMappingStart) :
    ∃ r, Step p r ∧ r.Stands (front ++ [x]) rest (depth + 1) ∧
      r.reversed = ⟨kind, markAfter front⟩ :: p.reversed ∧ r.keyAllowed = true := by
  have hend : EndsSpacing (x :: rest) := by
    obtain ⟨rfl, -⟩ | ⟨rfl, -⟩ := hx <;> exact endsSpacing_cons (by decide) (by decide) rfl
  have htoken : ∀ q : Progress, q.token x = q.openFlow kind := by
    obtain ⟨rfl, rfl⟩ | ⟨rfl, rfl⟩ := hx <;> exact fun q => rfl
  obtain ⟨q, hq, hsettles, hstep⟩ := h.exists_token hend
  obtain ⟨key, hsave, -, hkey⟩ := hq.exists_saveKey
  have hopen : q.token x = .ok { q.emit kind with
      cursor := q.cursor.advance, pending := none, outer := key :: q.outer, keyAllowed := true } := by
    rw [htoken, openFlow, hsave]
    rfl
  have hstands := hq.emitted kind none (key :: q.outer) true hq.cursor.advance
    (congrArg (· + 1) hq.depth)
    (List.forall_mem_cons.mpr ⟨not_required_none, List.forall_mem_cons.mpr ⟨hkey, hq.free_outer⟩⟩)
  refine ⟨_, hstep hopen hstands (by simp), hstands, ?_, rfl⟩
  rw [← hsettles.reversed]
  exact hq.emit_reversed kind

/-- A closing bracket. -/
theorem Ready.exists_close {kind : TokenKind} (h : p.Ready front (x :: rest) (depth + 1))
    (hx : x = ']' ∧ kind = .flowSequenceEnd ∨ x = '}' ∧ kind = .flowMappingEnd) :
    ∃ r, Step p r ∧ r.Stands (front ++ [x]) rest depth ∧
      r.reversed = ⟨kind, markAfter front⟩ :: p.reversed := by
  have hend : EndsSpacing (x :: rest) := by
    obtain ⟨rfl, -⟩ | ⟨rfl, -⟩ := hx <;> exact endsSpacing_cons (by decide) (by decide) rfl
  have htoken : ∀ q : Progress, q.token x = q.closeFlow kind := by
    obtain ⟨rfl, rfl⟩ | ⟨rfl, rfl⟩ := hx <;> exact fun q => rfl
  obtain ⟨q, hq, hsettles, hstep⟩ := h.exists_token hend
  obtain ⟨key, outer, houter⟩ : ∃ key outer, q.outer = key :: outer := by
    cases houter : q.outer with
    | nil =>
      have hdepth := hq.depth
      rw [houter] at hdepth
      cases hdepth
    | cons key outer => exact ⟨key, outer, rfl⟩
  have hclose : q.token x = .ok { q.emit kind with
      cursor := q.cursor.advance, pending := key, outer, keyAllowed := false } := by
    simp only [htoken, closeFlow, hq.dropKey, bind, Except.bind, houter]
    rfl
  have hdepth := hq.depth
  have hfree := hq.free_outer
  rw [houter] at hdepth hfree
  have hstands := hq.emitted kind key outer false hq.cursor.advance (Nat.succ.inj hdepth) hfree
  refine ⟨_, hstep hclose hstands (by simp), hstands, ?_⟩
  rw [← hsettles.reversed]
  exact hq.emit_reversed kind

/-- A comma. -/
theorem Ready.exists_comma (h : p.Ready front (',' :: rest) depth) :
    ∃ r, Step p r ∧ r.Stands (front ++ [',']) rest depth ∧
      r.reversed = ⟨.flowEntry, markAfter front⟩ :: p.reversed ∧ r.keyAllowed = true := by
  obtain ⟨q, hq, hsettles, hstep⟩ :=
    h.exists_token (endsSpacing_cons (by decide) (by decide) rfl)
  have htoken : q.token ',' = .ok { q.emit .flowEntry with
      cursor := q.cursor.advance, pending := none, outer := q.outer, keyAllowed := true } := by
    show q.flowEntry = _
    rw [flowEntry, hq.dropKey]
    rfl
  have hstands := hq.emitted .flowEntry none q.outer true hq.cursor.advance hq.depth
    (List.forall_mem_cons.mpr ⟨not_required_none, hq.free_outer⟩)
  refine ⟨_, hstep htoken hstands (by simp), hstands, ?_, rfl⟩
  rw [← hsettles.reversed]
  exact hq.emit_reversed .flowEntry

/-- A string. Where a key may start it is a possible key. -/
theorem Ready.exists_string {body : List Char} {units : Text} (hbody : Json.Body body units)
    (h : p.Ready front (Json.Label.quoted body ++ rest) depth) :
    ∃ r, Step p r ∧ r.Stands (front ++ Json.Label.quoted body) rest depth ∧
      r.reversed = ⟨.scalar units false, markAfter front⟩ :: p.reversed ∧
      (p.keyAllowed = true → Saves front p r.pending) := by
  obtain ⟨q, hq, hsettles, hstep⟩ :=
    h.exists_token (endsSpacing_cons (by decide) (by decide) rfl)
  obtain ⟨key, hsave, hkey, hfree⟩ := hq.exists_saveKey
  obtain ⟨after, hscan, hafter⟩ := scanQuoted_body hbody hq.cursor
  have htoken : q.token '"' = .ok { q.emit (.scalar units false) with
      cursor := after, pending := key, outer := q.outer, keyAllowed := false } := by
    show q.nodePart (fun c => (scanQuoted c).map fun r => (.scalar r.1 false, r.2)) = _
    rw [nodePart, hsave]
    show ((scanQuoted q.cursor).map _ >>= _) = _
    rw [hscan]
    rfl
  have hstands := hq.emitted (.scalar units false) key q.outer false hafter hq.depth
    (List.forall_mem_cons.mpr ⟨hfree, hq.free_outer⟩)
  refine ⟨_, hstep htoken hstands (by simp [Json.Label.quoted]), hstands, ?_, fun hp => ?_⟩
  · rw [← hsettles.reversed]
    exact hq.emit_reversed (.scalar units false)
  · have hsaves := hkey (hsettles.keyAllowed hp)
    rw [Saves, hsettles.reversed] at hsaves
    exact hsaves

theorem ne_of_isAlphanum {d : Char} (hx : x.isAlphanum = true) (hd : d.isAlphanum = false) :
    x ≠ d := by
  rintro rfl
  rw [hx] at hd
  cases hd

theorem not_mem_of_isAlphanum {signs : List Char} (hx : x.isAlphanum = true)
    (hsigns : signs.all (fun d => !d.isAlphanum) = true) : x ∉ signs := by
  intro hmem
  have hnot := List.all_eq_true.mp hsigns x hmem
  simp [hx] at hnot

/-- A letter or a digit is no sign. -/
theorem isIndicator_of_isAlphanum (hx : x.isAlphanum = true) : isIndicator x = false :=
  decide_eq_false (not_mem_of_isAlphanum hx (by decide))

/-- No token but a plain scalar starts with a letter or a digit. -/
theorem token_of_isAlphanum (hx : x.isAlphanum = true) (hblank : isBlank x = false)
    (hbreak : isBreak x = false) : p.token x = p.plainScalar := by
  have hindicator := isIndicator_of_isAlphanum hx
  have hplain : p.atPlain x = true := by simp [atPlain, hblank, hbreak, hindicator]
  have hsigns : x ∉ ['%', '-', '.', '[', '{', ']', '}', ',', '?', ':', '*', '&', '!', '|', '>',
      '\'', '"'] := not_mem_of_isAlphanum hx (by decide)
  simp only [List.mem_cons, not_or] at hsigns
  simp [token, hsigns, hplain]

/-- A minus sign with a letter or a digit behind it starts a plain scalar. -/
theorem token_of_minus {d : Char} (hd : d.isAlphanum = true) (hblank : isBlank d = false)
    (hbreak : isBreak d = false) (h : p.cursor.At front ('-' :: d :: rest)) :
    p.token '-' = p.plainScalar := by
  have hpeek : p.cursor.peekAt 1 = some d := by
    rw [Cursor.peekAt, h.left]
    rfl
  have halone : endsToken (p.cursor.peekAt 1) = false := by
    simp [hpeek, endsToken, hblank, hbreak]
  have hmarker : p.cursor.atMarker = false := by
    have hminus : d ≠ '-' := ne_of_isAlphanum hd rfl
    rw [Cursor.atMarker, h.left]
    split
    · next heq =>
      cases heq
      exact absurd rfl hminus
    · next heq => cases heq
    · rfl
  simp [token, hmarker, halone, atPlain]

/-- A name or a number between brackets, with the blanks behind it. -/
theorem Ready.exists_word {w gap : List Char} {sign : Char} (hword : Json.IsWord w)
    (hgap : IsSpacing gap) (hsign : IsFlowEnd sign)
    (h : p.Ready front (w ++ (gap ++ sign :: rest)) (depth + 1)) :
    ∃ r, Step p r ∧ r.Stands (front ++ (w ++ gap)) (sign :: rest) (depth + 1) ∧
      r.reversed = ⟨.scalar (Text.ofChars w) true, markAfter front⟩ :: p.reversed := by
  obtain ⟨x, more, rfl, hend, htoken⟩ : ∃ x more, w = x :: more ∧ EndsSpacing w ∧
      ∀ q : Progress, q.cursor.At front (w ++ (gap ++ sign :: rest)) →
        q.token x = q.plainScalar := by
    obtain ⟨d, more, hd, hw⟩ := hword.start
    have hmem : d ∈ w := by
      obtain rfl | rfl := hw <;> simp
    obtain ⟨hblank, hbreak, -, -, hhash⟩ := isWordChar_plain (hword.chars d hmem)
    obtain rfl | rfl := hw
    · exact ⟨d, more, rfl, endsSpacing_cons (ne_of_isAlphanum hd rfl) hhash hbreak,
        fun q hq => token_of_isAlphanum hd hblank hbreak⟩
    · exact ⟨'-', d :: more, rfl, endsSpacing_cons (by decide) (by decide) rfl,
        fun q hq => token_of_minus hd hblank hbreak hq⟩
  obtain ⟨q, hq, hsettles, hstep⟩ := h.exists_token hend
  obtain ⟨key, hsave, -, hfree⟩ := hq.exists_saveKey
  obtain ⟨htext, hafter⟩ := scanPlain_word q.indent hword hgap hsign hq.cursor
  have hplain : q.token x = .ok { q.emit (.scalar (Text.ofChars (x :: more)) true) with
      cursor := (scanPlain true q.indent q.cursor).after, pending := key, outer := q.outer,
      keyAllowed := (scanPlain true q.indent q.cursor).passedLine } := by
    rw [htoken q hq.cursor, plainScalar, hsave]
    show Except.ok { ({ q with pending := key } : Progress).emit
        (.scalar (Text.ofChars (scanPlain q.inFlow q.indent q.cursor).text) true) with
      cursor := (scanPlain q.inFlow q.indent q.cursor).after,
      keyAllowed := (scanPlain q.inFlow q.indent q.cursor).passedLine } = _
    rw [hq.inFlow, htext]
    rfl
  have hstands := hq.emitted (.scalar (Text.ofChars (x :: more)) true) key q.outer
    (scanPlain true q.indent q.cursor).passedLine hafter hq.depth
    (List.forall_mem_cons.mpr ⟨hfree, hq.free_outer⟩)
  refine ⟨_, hstep hplain hstands (by simp), hstands, ?_⟩
  rw [← hsettles.reversed]
  exact hq.emit_reversed _

/-- A token put in front of the last one. -/
theorem Stands.insert {scalar : Token} {old : List Token} (h : p.Stands front rest depth)
    (hreversed : p.reversed = scalar :: old) (kind : TokenKind) (mark : Mark) :
    (p.insert kind mark old.length).reversed = scalar :: ⟨kind, mark⟩ :: old ∧
      (p.insert kind mark old.length).Stands front rest depth := by
  have hone : p.count - old.length = 1 := by
    rw [h.count, hreversed, List.length_cons]
    omega
  have hinsert : (p.insert kind mark old.length).reversed = scalar :: ⟨kind, mark⟩ :: old := by
    simp only [Progress.insert, hone, hreversed]
    rfl
  refine ⟨hinsert, ⟨h.cursor, h.depth, h.free, h.indent, h.outerIndents, ?_⟩⟩
  rw [hinsert]
  show p.count + 1 = _
  rw [h.count, hreversed]
  rfl

/-- A colon behind a string: the string is a key if it can still be one. -/
theorem Ready.exists_colon {start : List Char} {scalar : Token} {old : List Token}
    (h : p.Ready front (':' :: rest) (depth + 1)) (hkey : ∃ k, p.pending = some k ∧
      k.mark = markAfter start ∧ k.position = old.length)
    (hreversed : p.reversed = scalar :: old) :
    ∃ r, Step p r ∧ r.Stands (front ++ [':']) rest (depth + 1) ∧
      (IsFresh start front →
        r.reversed = ⟨.value, markAfter front⟩ :: scalar :: ⟨.key, markAfter start⟩ :: old) ∧
      (¬IsFresh start front → r.reversed = ⟨.value, markAfter front⟩ :: scalar :: old) := by
  obtain ⟨q, hq, hsettles, hstep⟩ :=
    h.exists_token (endsSpacing_cons (by decide) (by decide) rfl)
  obtain ⟨k, hk, hmark, hposition⟩ := hkey
  have hflow := hq.inFlow
  have htoken : q.token ':' = q.value := by simp [token, hflow]
  have hfresh := isStale_iff hq.cursor hmark
  have hpending := hsettles.pending
  rw [hk, Option.filter_some] at hpending
  rw [← hsettles.reversed] at hreversed
  have hfree : ∀ key ∈ none :: q.outer, ∀ k ∈ key, k.required = false :=
    List.forall_mem_cons.mpr ⟨not_required_none, hq.free_outer⟩
  by_cases hstale : isStale q.cursor k = false
  · rw [hstale, Bool.not_false, if_pos rfl] at hpending
    obtain ⟨hinsert, hq'⟩ := hq.insert hreversed .key (markAfter start)
    have hvalue : q.token ':' = .ok { (q.insert .key (markAfter start) old.length).emit .value with
        cursor := q.cursor.advance, pending := none, outer := q.outer, keyAllowed := false } := by
      rw [htoken, value]
      simp only [hpending, hmark, hposition]
      have hinserted : (q.insert .key (markAfter start) old.length).inFlow = true := hflow
      rw [if_pos hinserted]
      rfl
    have hstands := hq'.emitted .value none q.outer false hq.cursor.advance hq.depth hfree
    refine ⟨_, hstep hvalue hstands (by simp), hstands, fun _ => ?_, fun hnot =>
      absurd (hfresh.mp hstale) hnot⟩
    rw [← hinsert]
    exact hq'.emit_reversed .value
  · rw [Bool.not_eq_false] at hstale
    rw [hstale, Bool.not_true, if_neg Bool.false_ne_true] at hpending
    have hvalue : q.token ':' = .ok { q.emit .value with
        cursor := q.cursor.advance, pending := none, outer := q.outer, keyAllowed := false } := by
      rw [htoken, value]
      simp only [hpending, openBlockHere, hflow, if_true]
      show Except.ok { q.emitSign .value 1 with keyAllowed := !q.inFlow } = _
      rw [hflow, ← hpending]
      rfl
    have hstands := hq.emitted .value none q.outer false hq.cursor.advance hq.depth hfree
    refine ⟨_, hstep hvalue hstands (by simp), hstands, fun hfits => ?_, fun _ => ?_⟩
    · rw [hfresh.mpr hfits] at hstale
      cases hstale
    · rw [← hreversed]
      exact hq.emit_reversed .value

/-- The end of the text, with nothing open. -/
theorem Ready.run_end (fuel : Nat) (h : p.Ready front [] 0) :
    run (fuel + 1) p = p.reversed.reverse ++ [⟨.streamEnd, markAfter front⟩] := by
  obtain ⟨q, hq, hsettles, hskip⟩ := h.exists_settled endsSpacing_nil
  have hend : q.endBlocks = .ok { q with pending := none, keyAllowed := false } := by
    rw [endBlocks, unwind_eq_self _ hq.indent hq.outerIndents, hq.dropKey]
    rfl
  have hnext : p.next = .ok (false,
      ({ q with pending := none, keyAllowed := false } : Progress).emit .streamEnd) := by
    rw [next, hskip]
    show (if q.cursor.isStuck then _ else _) = _
    rw [hq.cursor.isStuck, if_neg Bool.false_ne_true]
    simp only [unwind_eq_self _ hq.indent hq.outerIndents, hq.cursor.peek, List.head?_nil]
    rw [hend]
    rfl
  rw [run, hnext]
  show (_ :: q.reversed).reverse = _
  rw [List.reverse_cons, hsettles.reversed]
  show _ ++ [(⟨.streamEnd, q.cursor.mark⟩ : Token)] = _
  rw [hq.cursor.mark]

end Progress

end ApiLint.Yaml
