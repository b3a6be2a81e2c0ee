import ApiLint.Proofs.Yaml.Stream

/-! The tokens of JSON. The scanner goes through the brackets of a phrase as the phrase is nested, and
puts a token for the key in front of every name that can still be one at its colon (`Label.Fits`).
`tokens_eq` gives the tokens of a whole text. -/
namespace ApiLint.Json

open Yaml (IsClear IsSpacing IsFlowEnd IsFresh Token markAfter keyLimit Progress)

/-- Whether a name can still be a key when the colon comes: it is on the line of the colon and not too
far away from it. A name itself is always on one line. -/
def Label.Fits (l : Label) : Prop :=
  '\n' ∉ l.gap ∧ (Label.quoted l.body ++ l.gap).length ≤ keyLimit

instance (l : Label) : Decidable l.Fits :=
  inferInstanceAs (Decidable (_ ∧ _))

/-! ### Rows of tokens -/

namespace Label

/-- What stands in front of a name, when `front` stands in front of its label. -/
def start (front : List Char) (l : Label) : List Char :=
  front ++ l.before

def colon (front : List Char) (l : Label) : List Char :=
  l.start front ++ (quoted l.body ++ l.gap)

def tokens (front : List Char) (l : Label) : List Token :=
  (if l.Fits then [⟨.key, markAfter (l.start front)⟩] else []) ++
    [⟨.scalar l.units false, markAfter (l.start front)⟩, ⟨.value, markAfter (l.colon front)⟩]

end Label

/-- The token of the comma in front of every part but the first. -/
def commaTokens (first : Bool) (front : List Char) : List Token :=
  if first then [] else [⟨.flowEntry, markAfter front⟩]

namespace Phrase

mutual

/-- The tokens of a phrase behind `front`. -/
def tokens (front : List Char) : Phrase → List Token
  | word _ cs => [⟨.scalar (Text.ofChars cs) true, markAfter front⟩]
  | string units _ => [⟨.scalar units false, markAfter front⟩]
  | list gap items =>
    ⟨.flowSequenceStart, markAfter front⟩ :: (itemTokens true (front ++ '[' :: gap) items ++
      [⟨.flowSequenceEnd, markAfter (front ++ '[' :: (gap ++ itemChars true items))⟩])
  | object gap members =>
    ⟨.flowMappingStart, markAfter front⟩ :: (memberTokens true (front ++ '{' :: gap) members ++
      [⟨.flowMappingEnd, markAfter (front ++ '{' :: (gap ++ memberChars true members))⟩])
termination_by structural tree => tree

def itemTokens (first : Bool) (front : List Char) : List Item → List Token
  | [] => []
  | ⟨before, item, after⟩ :: items =>
    commaTokens first front ++ (item.tokens (front ++ (comma first ++ before)) ++
      itemTokens false (front ++ (comma first ++ (before ++ (item.chars ++ after)))) items)

/-- The tokens of the members of an object. -/
def memberTokens (first : Bool) (front : List Char) : List Member → List Token
  | [] => []
  | ⟨label, member, after⟩ :: members =>
    commaTokens first front ++ (label.tokens (front ++ comma first) ++
      (member.tokens (front ++ (comma first ++ label.chars)) ++
        memberTokens false (front ++ (comma first ++ (label.chars ++ (member.chars ++ after))))
          members))

end

end Phrase

/-! ### Blanks -/

theorem IsGap.isSpacing {gap : List Char} (h : IsGap gap) (hclear : IsClear gap) :
    IsSpacing gap := by
  intro c hc
  have hspace := h c hc
  obtain ⟨htab, hbreak⟩ := hclear c hc
  simp only [isSpace, Bool.or_eq_true, decide_eq_true_eq] at hspace
  rcases hspace with ((rfl | rfl) | rfl) | rfl
  · exact .inl rfl
  · exact .inr rfl
  · exact absurd rfl htab
  · exact absurd (hbreak rfl) (by decide)

/-! ### Parts of a text -/

/-- From `p` on the scanner passes the characters `cs` behind `front` and is `q` then, with some more
tokens. -/
structure Reads (front cs rest : List Char) (depth : Nat) (tokens : List Token)
    (p q : Progress) : Prop where
  passes : Progress.Passes p q
  ready : q.Ready (front ++ cs) rest depth
  reversed : q.reversed = tokens.reverse ++ p.reversed

variable {p q r : Progress} {front cs ds rest rest' gap : List Char} {depth depth' : Nat}
variable {ts us : List Token} {sign : Char}

theorem Reads.trans (h : Reads front cs rest depth ts p q)
    (h' : Reads (front ++ cs) ds rest' depth' us q r) :
    Reads front (cs ++ ds) rest' depth' (ts ++ us) p r := by
  refine ⟨h.passes.trans h'.passes, ?_, ?_⟩
  · rw [← List.append_assoc]
    exact h'.ready
  · rw [h'.reversed, h.reversed, List.reverse_append, List.append_assoc]

theorem Reads.of_step {t : Token} (hstep : p.Step q) (hq : q.Stands (front ++ cs) rest depth)
    (hreversed : q.reversed = t :: p.reversed) : Reads front cs rest depth [t] p q :=
  ⟨.single hstep, hq.ready, hreversed⟩

theorem Reads.nil (h : p.Ready front rest depth) : Reads front [] rest depth [] p p :=
  ⟨.refl, by rwa [List.append_nil], rfl⟩

theorem isClear_of_ready (h : p.Ready front rest depth) : IsClear rest := by
  obtain ⟨before, gap, -, -, hstands⟩ := h
  exact (Yaml.isClear_append.mp hstands.cursor.clear).2

theorem Reads.of_gap (h : p.Ready front (gap ++ rest) depth) (hgap : IsGap gap) :
    Reads front gap rest depth [] p p :=
  ⟨.refl, h.behind (hgap.isSpacing (Yaml.isClear_append.mp (isClear_of_ready h)).1), rfl⟩

/-- The comma in front of a part. Behind it, or behind the opening bracket, a key may start. -/
theorem exists_comma {first : Bool} (h : p.Ready front (comma first ++ rest) depth)
    (hallowed : first = true → p.keyAllowed = true) :
    ∃ q, Reads front (comma first) rest depth (commaTokens first front) p q ∧
      q.keyAllowed = true := by
  cases first with
  | true => exact ⟨p, .nil h, hallowed rfl⟩
  | false =>
    obtain ⟨q, hstep, hq, hreversed, hallowed⟩ := h.exists_comma
    exact ⟨q, .of_step hstep hq hreversed, hallowed⟩

/-- A string is fresh at its colon when the name fits. -/
theorem Label.fits_iff {l : Label} (h : l.IsJson) (front : List Char) :
    IsFresh (l.start front) (l.colon front) ↔ l.Fits := by
  have hbody := h.body.newline_not_mem
  have hcount : (quoted l.body).count '\n' = 0 := by
    rw [List.count_eq_zero]
    simp [quoted, hbody]
  rw [IsFresh, Fits, colon, List.count_append, List.count_append, hcount, List.length_append,
    Nat.add_sub_cancel_left, ← List.count_eq_zero]
  exact and_congr (by omega) Iff.rfl

/-- A name with its colon. -/
theorem Label.IsJson.exists_reads {l : Label} (hl : l.IsJson)
    (h : p.Ready front (l.chars ++ rest) (depth + 1)) (hallowed : p.keyAllowed = true) :
    ∃ q, Reads front l.chars rest (depth + 1) (l.tokens front) p q := by
  simp only [Label.chars, List.append_assoc, List.cons_append] at h
  have hbefore := Reads.of_gap h hl.before
  obtain ⟨q, hstep, hq, hreversed, hsaves⟩ := hbefore.ready.exists_string hl.body
  have hgap := Reads.of_gap hq.ready hl.gap
  obtain ⟨r, hstep', hr, hfresh, hstale⟩ :=
    hgap.ready.exists_colon (hsaves hallowed) hreversed
  have hcolon : front ++ l.before ++ Label.quoted l.body ++ l.gap = l.colon front := by
    simp [Label.colon, Label.start]
  rw [hcolon] at hr hfresh hstale
  have hafter := Reads.of_gap hr.ready hl.after
  refine ⟨r, (Relation.ReflTransGen.single hstep).tail hstep', ?_, ?_⟩
  · have hready := hafter.ready
    simpa [Label.colon, Label.start, Label.chars] using hready
  · by_cases hfits : l.Fits
    · rw [hfresh ((Label.fits_iff hl front).mpr hfits), Label.tokens, if_pos hfits]
      rfl
    · rw [hstale fun hnot => hfits ((Label.fits_iff hl front).mp hnot), Label.tokens, if_neg hfits]
      rfl

/-! ### Phrases -/

namespace Phrase

/-- The scanner reads a phrase between brackets, and the blanks behind it. -/
def Scans (tree : Phrase) : Prop :=
  ∀ {p : Progress} {front gap rest : List Char} {sign : Char} {depth : Nat},
    p.Ready front (tree.chars ++ (gap ++ sign :: rest)) (depth + 1) → IsGap gap → IsFlowEnd sign →
      ∃ q, Reads front (tree.chars ++ gap) (sign :: rest) (depth + 1) (tree.tokens front) p q

/-- What comes behind a part: the comma in front of the next one, or the closing bracket. -/
theorem exists_itemChars_sign (rest : List Char) (items : List Item) (hsign : IsFlowEnd sign) :
    ∃ next more, IsFlowEnd next ∧ itemChars false items ++ sign :: rest = next :: more := by
  cases items with
  | nil => exact ⟨sign, rest, hsign, rfl⟩
  | cons part items => exact ⟨',', _, .inl rfl, rfl⟩

theorem exists_memberChars_sign (rest : List Char) (members : List Member) (hsign : IsFlowEnd sign) :
    ∃ next more, IsFlowEnd next ∧ memberChars false members ++ sign :: rest = next :: more := by
  cases members with
  | nil => exact ⟨sign, rest, hsign, rfl⟩
  | cons part members => exact ⟨',', _, .inl rfl, rfl⟩

/-- The scanner reads the items of a list, by induction on the items. -/
theorem reads_items {items : List Item} (hgaps : ∀ part ∈ items, IsGap part.lead ∧ IsGap part.after)
    (hscan : ∀ part ∈ items, part.value.Scans) (hsign : IsFlowEnd sign) {first : Bool}
    (h : p.Ready front (itemChars first items ++ sign :: rest) (depth + 1))
    (hallowed : first = true → p.keyAllowed = true) :
    ∃ q, Reads front (itemChars first items) (sign :: rest) (depth + 1)
      (itemTokens first front items) p q := by
  induction items generalizing first front p with
  | nil => exact ⟨p, .nil h⟩
  | cons part items ih =>
    obtain ⟨before, item, after⟩ := part
    obtain ⟨⟨hbefore, hafter⟩, hgaps⟩ := List.forall_mem_cons.mp hgaps
    obtain ⟨hitem, hscan⟩ := List.forall_mem_cons.mp hscan
    simp only [itemChars, List.append_assoc] at h
    obtain ⟨next, more, hnext, hmore⟩ := exists_itemChars_sign rest items hsign
    obtain ⟨q, hcomma, -⟩ := exists_comma h hallowed
    have hgap := Reads.of_gap hcomma.ready hbefore
    have hstart := hgap.ready
    rw [hmore] at hstart
    obtain ⟨r, hread⟩ := hitem hstart hafter hnext
    have hrest := hread.ready
    rw [← hmore] at hrest
    obtain ⟨s, hitems⟩ := ih hgaps hscan hrest Bool.false_ne_true.elim
    refine ⟨s, ?_⟩
    have hall := hcomma.trans (hgap.trans (hread.trans hitems))
    simpa [itemChars, itemTokens] using hall

/-- The scanner reads the members of an object, by induction on the members. -/
theorem reads_members {members : List Member}
    (hlabels : ∀ part ∈ members, part.lead.IsJson ∧ IsGap part.after)
    (hscan : ∀ part ∈ members, part.value.Scans) (hsign : IsFlowEnd sign) {first : Bool}
    (h : p.Ready front (memberChars first members ++ sign :: rest) (depth + 1))
    (hallowed : first = true → p.keyAllowed = true) :
    ∃ q, Reads front (memberChars first members) (sign :: rest) (depth + 1)
      (memberTokens first front members) p q := by
  induction members generalizing first front p with
  | nil => exact ⟨p, .nil h⟩
  | cons part members ih =>
    obtain ⟨label, member, after⟩ := part
    obtain ⟨⟨hlabel, hafter⟩, hlabels⟩ := List.forall_mem_cons.mp hlabels
    obtain ⟨hmember, hscan⟩ := List.forall_mem_cons.mp hscan
    simp only [memberChars, List.append_assoc] at h
    obtain ⟨next, more, hnext, hmore⟩ := exists_memberChars_sign rest members hsign
    obtain ⟨q, hcomma, hkey⟩ := exists_comma h hallowed
    obtain ⟨r, hname⟩ := hlabel.exists_reads hcomma.ready hkey
    have hstart := hname.ready
    rw [hmore] at hstart
    obtain ⟨s, hread⟩ := hmember hstart hafter hnext
    have hrest := hread.ready
    rw [← hmore] at hrest
    obtain ⟨t, hmembers⟩ := ih hlabels hscan hrest Bool.false_ne_true.elim
    refine ⟨t, ?_⟩
    have hall := hcomma.trans (hname.trans (hread.trans hmembers))
    simpa [memberChars, memberTokens] using hall

/-- A list is read anywhere, also where nothing is open. -/
theorem reads_list {items : List Item} (hgap : IsGap gap)
    (hgaps : ∀ part ∈ items, IsGap part.lead ∧ IsGap part.after)
    (hscan : ∀ part ∈ items, part.value.Scans)
    (h : p.Ready front ((list gap items).chars ++ rest) depth) :
    ∃ q, Reads front (list gap items).chars rest depth ((list gap items).tokens front) p q := by
  simp only [chars, List.cons_append, List.append_assoc] at h
  obtain ⟨q, hstep, hq, hreversed, hallowed⟩ := h.exists_open (.inl ⟨rfl, rfl⟩)
  have hopen := Reads.of_gap hq.ready hgap
  obtain ⟨r, hitems⟩ := reads_items hgaps hscan (.inr (.inl rfl)) hopen.ready fun _ => hallowed
  obtain ⟨s, hstep', hs, hreversed'⟩ := hitems.ready.exists_close (.inl ⟨rfl, rfl⟩)
  have hall := (Reads.of_step hstep hq hreversed).trans
    (hopen.trans (hitems.trans (.of_step hstep' hs hreversed')))
  exact ⟨s, by simpa [chars, tokens] using hall⟩

/-- An object is read anywhere, also where nothing is open. -/
theorem reads_object {members : List Member} (hgap : IsGap gap)
    (hlabels : ∀ part ∈ members, part.lead.IsJson ∧ IsGap part.after)
    (hscan : ∀ part ∈ members, part.value.Scans)
    (h : p.Ready front ((object gap members).chars ++ rest) depth) :
    ∃ q, Reads front (object gap members).chars rest depth ((object gap members).tokens front) p q := by
  simp only [chars, List.cons_append, List.append_assoc] at h
  obtain ⟨q, hstep, hq, hreversed, hallowed⟩ := h.exists_open (.inr ⟨rfl, rfl⟩)
  have hopen := Reads.of_gap hq.ready hgap
  obtain ⟨r, hmembers⟩ :=
    reads_members hlabels hscan (.inr (.inr rfl)) hopen.ready fun _ => hallowed
  obtain ⟨s, hstep', hs, hreversed'⟩ := hmembers.ready.exists_close (.inr ⟨rfl, rfl⟩)
  have hall := (Reads.of_step hstep hq hreversed).trans
    (hopen.trans (hmembers.trans (.of_step hstep' hs hreversed')))
  exact ⟨s, by simpa [chars, tokens] using hall⟩

/-- Every phrase is read between brackets. -/
theorem IsJson.scans {tree : Phrase} (h : tree.IsJson) : tree.Scans := by
  induction h with
  | @word v cs rest' hread =>
    intro p front gap rest sign depth hp hgap hsign
    have hword : IsWord cs := by
      obtain ⟨w, hw, hword⟩ := exists_readScalar? hread
      rwa [List.append_cancel_right hw]
    have hspacing : Yaml.IsSpacing gap := by
      have hclear := isClear_of_ready hp
      simp only [Yaml.isClear_append] at hclear
      exact hgap.isSpacing hclear.2.1
    obtain ⟨q, hstep, hq, hreversed⟩ := hp.exists_word hword hspacing hsign
    exact ⟨q, .of_step hstep hq hreversed⟩
  | @string units body hbody =>
    intro p front gap rest sign depth hp hgap hsign
    obtain ⟨q, hstep, hq, hreversed, -⟩ := hp.exists_string hbody
    exact ⟨q, (Reads.of_step hstep hq hreversed).trans (.of_gap hq.ready hgap)⟩
  | list hopen hgaps _ ih =>
    intro p front gap rest sign depth hp hgap hsign
    obtain ⟨q, hread⟩ := reads_list hopen hgaps (fun part hpart => ih part hpart) hp
    refine ⟨q, ?_⟩
    have hall := hread.trans (.of_gap hread.ready hgap)
    rwa [List.append_nil] at hall
  | object hopen hlabels _ ih =>
    intro p front gap rest sign depth hp hgap hsign
    obtain ⟨q, hread⟩ := reads_object hopen hlabels (fun part hpart => ih part hpart) hp
    refine ⟨q, ?_⟩
    have hall := hread.trans (.of_gap hread.ready hgap)
    rwa [List.append_nil] at hall

/-- An object between blanks is read up to the end of the text. -/
theorem reads_text {members : List Member} {lead trail : List Char}
    (hjson : (object gap members).IsJson) (hlead : IsGap lead) (htrail : IsGap trail)
    (h : p.Ready [] (lead ++ ((object gap members).chars ++ trail)) 0) :
    ∃ q, Reads [] (lead ++ ((object gap members).chars ++ trail)) [] 0
      ((object gap members).tokens lead) p q := by
  obtain ⟨hgap, hlabels, hvalues⟩ : IsGap gap ∧
      (∀ part ∈ members, part.lead.IsJson ∧ IsGap part.after) ∧
        ∀ part ∈ members, part.value.IsJson := by
    cases hjson with
    | object hgap hlabels hvalues => exact ⟨hgap, hlabels, hvalues⟩
  rw [← List.append_nil trail] at h
  have hopen := Reads.of_gap h hlead
  obtain ⟨q, hread⟩ :=
    reads_object hgap hlabels (fun part hpart => (hvalues part hpart).scans) hopen.ready
  have htrans := hopen.trans (hread.trans (.of_gap hread.ready htrail))
  exact ⟨q, by simpa using htrans⟩

/-- **The tokens of a text that is an object between blanks.** -/
theorem tokens_eq {members : List Member} {lead trail : List Char}
    (hjson : (object gap members).IsJson) (hlead : IsGap lead) (htrail : IsGap trail)
    (hclear : IsClear (lead ++ ((object gap members).chars ++ trail))) :
    Yaml.tokens ⟨lead ++ ((object gap members).chars ++ trail), none⟩ =
      (object gap members).tokens lead ++
        [⟨.streamEnd, markAfter (lead ++ ((object gap members).chars ++ trail))⟩] := by
  generalize htext : lead ++ ((object gap members).chars ++ trail) = text at hclear
  have hmark : (({ rest := text, size := text.length } : Yaml.Cursor).peek = some '\uFEFF') = False := by
    rw [eq_iff_iff, iff_false, Yaml.Cursor.peek, ← htext]
    cases lead with
    | nil => exact fun hhead => absurd (Option.some.inj hhead) (by decide)
    | cons c lead =>
      rintro ⟨⟩
      exact absurd (hlead _ List.mem_cons_self) (by decide)
  have hat : ({ rest := text, size := text.length } : Yaml.Cursor).At [] text :=
    ⟨rfl, rfl, rfl, by simp, rfl, hclear⟩
  have hstart : ({ cursor := { rest := text, size := text.length } } : Progress).Ready [] text 0 :=
    Progress.Stands.ready ⟨hat, rfl, by simp, rfl, rfl, rfl⟩
  obtain ⟨q, hpasses, hready, hreversed⟩ := reads_text hjson hlead htrail (htext ▸ hstart)
  rw [htext] at hpasses hready
  obtain ⟨n, hn, hrun⟩ := hpasses.run_eq
  have hindex : q.cursor.index ≤ text.length := by
    obtain ⟨before, blanks, heq, -, hq⟩ := hready
    rw [List.nil_append] at heq
    rw [hq.cursor.index, heq, List.length_append]
    omega
  obtain ⟨fuel, hfuel⟩ : ∃ fuel, text.length + 2 = fuel + 1 + n := by
    have hn' : n + 0 ≤ text.length := Nat.le_trans hn hindex
    exact ⟨text.length + 1 - n, by omega⟩
  rw [Yaml.tokens]
  simp only [hmark, if_false]
  show Progress.run (text.length + 2) _ = _
  rw [hfuel, hrun, hready.run_end, hreversed]
  simp

end Phrase

end ApiLint.Json
