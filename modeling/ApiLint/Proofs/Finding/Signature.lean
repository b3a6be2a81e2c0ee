import ApiLint.Proofs.Finding.Distinct
import ApiLint.Proofs.Json.Written
import ApiLint.Proofs.Lint.Typed
import ApiLint.Proofs.Text.Utf8
import ApiLint.Proofs.Yaml.Whole

/-! What the signature of a finding tells. It is a text of brackets, commas and quotes, all of which may
also stand in keys and messages, and yet two findings have one signature only if they have the same message
and the same steps (`signature_eq_iff`): a string is read in one way up to its closing quote, so the steps
and then the message are told apart one after the other. Dropping the findings with an earlier key then
drops those that say what an earlier one says, as long as no two signatures have one digest
(`signature_separates`). -/
namespace ApiLint

namespace Json

theorem writeItems_str (texts : List Text) : writeItems (texts.map .str) = texts.map writeString := by
  induction texts with
  | nil => rfl
  | cons t texts ih => exact congrArg (writeString t :: ·) ih

end Json

/-- A key of characters, or an index. -/
theorem Value.IsStep.exists_text {s : Value} (h : s.IsStep)
    (hkey : ∀ t, s = .str t → ∃ cs, t = Text.ofChars cs) : ∃ cs, s.text = Text.ofChars cs := by
  cases h with
  | key t => exact hkey t rfl
  | index n => exact ⟨_, Value.text_int n⟩
  | truth b => cases b <;> exact ⟨_, rfl⟩

namespace Finding

/-- A finding whose place is a row of keys and indices and whose message is a text. Its message and its
keys are made of characters, without halves of pairs that stand alone. -/
structure IsWorded (f : Finding) : Prop where
  path : ∀ s ∈ f.path, s.IsStep
  keys : ∀ t, .str t ∈ f.path → ∃ cs, t = Text.ofChars cs
  message : ∃ cs, f.message = .str (Text.ofChars cs)

/-- What a finding says: the steps of its place and its message, as texts. -/
def content (f : Finding) : List Text × Text :=
  (f.path.map Value.text, f.message.text)

/-- The bytes that the key of a finding is the digest of. -/
def bytes (f : Finding) : List UInt8 :=
  Text.Utf8.encode f.signature.toList

/-- Whether the digests of some findings differ where their bytes do. -/
def DigestsDiffer (fs : List Finding) : Prop :=
  ∀ f ∈ fs, ∀ g ∈ fs, Text.Sha1.digest f.bytes = Text.Sha1.digest g.bytes → f.bytes = g.bytes

instance (fs : List Finding) : Decidable (DigestsDiffer fs) :=
  inferInstanceAs (Decidable (∀ f ∈ fs, ∀ g ∈ fs, _ → _))

variable {f g : Finding}

theorem bytes_inj : f.bytes = g.bytes ↔ f.signature = g.signature := by
  refine ⟨fun h => ?_, fun h => by rw [bytes, bytes, h]⟩
  have hdecode := congrArg Text.Utf8.decode h
  rw [bytes, bytes, Text.Utf8.decode_encode, Text.Utf8.decode_encode] at hdecode
  exact String.toList_inj.mp (Except.ok.inj hdecode)

/-- The texts of the steps, in the characters that they are made of. -/
theorem IsWorded.exists_steps (h : f.IsWorded) :
    ∃ texts : List (List Char), f.path.map Value.text = texts.map Text.ofChars := by
  have hsteps : ∀ s ∈ f.path, ∃ cs, s.text = Text.ofChars cs := fun s hs =>
    (h.path s hs).exists_text fun t ht => h.keys t (ht ▸ hs)
  generalize f.path = path at hsteps
  induction path with
  | nil => exact ⟨[], rfl⟩
  | cons s path ih =>
    obtain ⟨⟨cs, hcs⟩, hpath⟩ := List.forall_mem_cons.mp hsteps
    obtain ⟨texts, htexts⟩ := ih hpath
    exact ⟨cs :: texts, by rw [List.map_cons, List.map_cons, hcs, htexts]⟩

/-- How a signature is written, for a finding whose steps and message are characters. -/
theorem toList_signature {texts : List (List Char)} {cs : List Char}
    (hpath : f.path.map Value.text = texts.map Text.ofChars)
    (hmessage : f.message = .str (Text.ofChars cs)) :
    f.signature.toList = '[' :: '[' :: Json.row texts
      (',' :: ' ' :: (Json.writeString (Text.ofChars cs) ++ [']'])) := by
  have hitems : Json.writeItems ((texts.map Text.ofChars).map .str) =
      texts.map fun cs => Json.writeString (Text.ofChars cs) := by
    rw [Json.writeItems_str, List.map_map]
    rfl
  rw [signature, Json.write, String.toList_ofList, hpath, hmessage, Value.texts]
  simp only [Json.writeValue, Json.writeItems, hitems, Json.commas, Json.writeScalar, Json.row,
    List.cons_append, List.append_assoc, List.nil_append]

/-- Two worded findings have one signature exactly if they say the same: the written form can be read
back. -/
theorem signature_eq_iff (hf : f.IsWorded) (hg : g.IsWorded) :
    f.signature = g.signature ↔
      f.message = g.message ∧ f.path.map Value.text = g.path.map Value.text := by
  constructor
  · intro h
    obtain ⟨texts, hpath⟩ := hf.exists_steps
    obtain ⟨texts', hpath'⟩ := hg.exists_steps
    obtain ⟨cs, hmessage⟩ := hf.message
    obtain ⟨cs', hmessage'⟩ := hg.message
    have hchars := congrArg String.toList h
    rw [toList_signature hpath hmessage, toList_signature hpath' hmessage'] at hchars
    obtain ⟨rfl, hrest⟩ := Json.row_inj (List.cons.inj (List.cons.inj hchars).2).2
    obtain ⟨rfl, -⟩ := Json.writeString_inj (List.cons.inj (List.cons.inj hrest).2).2
    exact ⟨hmessage.trans hmessage'.symm, hpath.trans hpath'.symm⟩
  · rintro ⟨hmessage, hpath⟩
    rw [signature, signature, hmessage, hpath]

theorem IsWorded.content_eq_iff (hf : f.IsWorded) (hg : g.IsWorded) :
    f.content = g.content ↔ f.message = g.message ∧ f.path.map Value.text = g.path.map Value.text := by
  obtain ⟨cs, hmessage⟩ := hf.message
  obtain ⟨cs', hmessage'⟩ := hg.message
  rw [content, content, Prod.mk.injEq, hmessage, hmessage', Value.str.injEq, and_comm]
  rfl

/-- **The signature separates findings.** Of some findings whose keys and messages are made of characters,
two have one signature exactly if they have the same message and their places are the same step by step,
each step as a text. So where no two of them with different signatures have one digest, dropping those with
an earlier key is dropping those that say what an earlier one says: one is kept for each place and message,
and each of them is kept. -/
theorem signature_separates {fs : List Finding} (hfs : ∀ f ∈ fs, f.IsWorded) :
    (∀ f ∈ fs, ∀ g ∈ fs, f.signature = g.signature ↔
      f.message = g.message ∧ f.path.map Value.text = g.path.map Value.text) ∧
    (DigestsDiffer fs →
      distinct key fs = distinct content fs ∧
      ((distinct key fs).map content).Nodup ∧
      ∀ c, c ∈ (distinct key fs).map content ↔ c ∈ fs.map content) := by
  refine ⟨fun f hf g hg => signature_eq_iff (hfs f hf) (hfs g hg), fun hdigests => ?_⟩
  have hkey : ∀ f ∈ fs, ∀ g ∈ fs, f.key = g.key ↔ f.content = g.content := by
    intro f hf g hg
    have hbytes : f.key = g.key ↔ f.bytes = g.bytes :=
      ⟨hdigests f hf g hg, congrArg Text.Sha1.digest⟩
    rw [hbytes, bytes_inj, signature_eq_iff (hfs f hf) (hfs g hg),
      (hfs f hf).content_eq_iff (hfs g hg)]
  have hsame : distinct key fs = distinct content fs := distinct_congr key hkey
  rw [hsame]
  exact ⟨rfl, nodup_keys_distinct content fs, fun c => mem_keys_distinct content fs⟩

/-- Three findings. The key of the first holds the quotes and the comma that part the steps of the others,
and the index of the second is the key of the third. -/
def delimiting : List Finding :=
  [⟨[.str "a\", \"b"], .str "é\\😀", "one", .str "warning"⟩,
    ⟨[.str "a", .str "b", .int 1], .str "é\\😀", "two", .str "warning"⟩,
    ⟨[.str "a", .str "b", .str "1"], .str "é\\😀", "three", .str "error"⟩]

theorem isWorded_delimiting : ∀ f ∈ delimiting, f.IsWorded := by
  have hkeys : ∀ (s : String) (t : Text), Value.str t = .str s → ∃ cs, t = Text.ofChars cs :=
    fun s t h => ⟨s.toList, Value.str.inj h⟩
  simp only [delimiting, List.forall_mem_cons]
  refine ⟨⟨?_, ?_, ⟨_, rfl⟩⟩, ⟨?_, ?_, ⟨_, rfl⟩⟩, ⟨?_, ?_, ⟨_, rfl⟩⟩, List.forall_mem_nil _⟩
  all_goals simp only [List.mem_cons, List.not_mem_nil, or_false]
  · rintro s rfl
    exact .key _
  · exact hkeys _
  · rintro s (rfl | rfl | rfl)
    exacts [.key _, .key _, .index _]
  · rintro t (h | h | h)
    exacts [hkeys _ t h, hkeys _ t h, nomatch h]
  · rintro s (rfl | rfl | rfl)
    exacts [.key _, .key _, .key _]
  · rintro t (h | h | h)
    exacts [hkeys _ t h, hkeys _ t h, hkeys _ t h]

/-- The first two are kept, as they are by what they say. -/
theorem signature_separates_sample : (∀ f ∈ delimiting, f.IsWorded) ∧ DigestsDiffer delimiting ∧
    distinct key delimiting = delimiting.take 2 := by
  have hdigests : DigestsDiffer delimiting := by decide +kernel
  obtain ⟨-, hseparates⟩ := signature_separates isWorded_delimiting
  obtain ⟨hsame, -⟩ := hseparates hdigests
  exact ⟨isWorded_delimiting, hdigests, hsame.trans rfl⟩

/-- Of halves that stand alone this does not hold: two of them are written as their pair is. -/
example : signature ⟨[], .str [.half 0x03D, .half 0x600], "", .null⟩ =
    signature ⟨[], .str "😀", "", .null⟩ := by
  decide

end Finding

end ApiLint
