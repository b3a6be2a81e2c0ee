import ApiLint.Json.Reader
import ApiLint.Proofs.Except

/-! How a string is read, said by what its next sign is: the closing quote, an escape by code, another
escape, or a character that stands for itself (`ReadsString`, `readString_iff`). Which of an escape's
five cases the reader is in depends on the half that waits in front of it; here they are one step
(`unitStep`), so what is proved of strings does not look at them again. -/
namespace ApiLint.Json

/-- What an escape by code adds to a text behind a half, and the half that waits after it. -/
def unitStep (half : Option Nat) (code : Nat) : Text × Option Nat :=
  match half with
  | none => if isHighHalf code then ([], some code) else ([.ofCode code], none)
  | some high =>
    if isLowHalf code then ([.char (pairChar high code)], none)
    else if isHighHalf code then ([.ofCode high], some code)
    else ([.ofCode high, .ofCode code], none)

/-- Only a first half waits. -/
theorem isHighHalf_of_unitStep {half half' : Option Nat} {code : Nat} {added : Text}
    (h : unitStep half code = (added, half')) : ∀ high ∈ half', isHighHalf high = true := by
  intro high hhigh
  cases hhigh
  cases half <;> grind [unitStep]

/-- The text of a string up to its closing quote, with a half in front of it: the characters, the text
that they are read to, and the rest. -/
inductive ReadsString : Option Nat → Text → Text → Text → Prop
  | close {half : Option Nat} {rest : Text} :
      ReadsString half (.char '"' :: rest) (flushHalf half []) rest
  | code {half half' : Option Nat} {a b c d e : CodePoint} {t added s rest : Text} {code : Nat} :
      (Text.chars? [a, b, c, d]).bind Text.hexNumber? = some code →
      unitStep half code = (added, half') → ReadsString half' (e :: t) s rest →
      ReadsString half (.char '\\' :: .char 'u' :: a :: b :: c :: d :: e :: t) (added ++ s) rest
  | escape {half : Option Nat} {c d : Char} {t s rest : Text} : escaped? c = some d →
      ReadsString none t s rest →
      ReadsString half (.char '\\' :: .char c :: t) (flushHalf half (.char d :: s)) rest
  | plain {half : Option Nat} {p : CodePoint} {t s rest : Text} : p ≠ .char '"' → p ≠ .char '\\' →
      0x20 ≤ p.code → ReadsString none t s rest →
      ReadsString half (p :: t) (flushHalf half (p :: s)) rest

variable {start t s rest : Text} {half : Option Nat}

/-- An escape by code is one step, whatever waits in front of it. -/
theorem readString_code {a b c d e : CodePoint} {code : Nat}
    (hcode : (Text.chars? [a, b, c, d]).bind Text.hexNumber? = some code) :
    readString start half (.char '\\' :: .char 'u' :: a :: b :: c :: d :: e :: t) =
      (readString start (unitStep half code).2 (e :: t)).map
        fun (s, rest) => ((unitStep half code).1 ++ s, rest) := by
  rw [readString, hcode]
  unfold unitStep
  cases half with
  | none =>
    dsimp only
    split
    · cases readString start (some code) (e :: t) <;> rfl
    · rfl
  | some high =>
    dsimp only
    split
    · rfl
    · split <;> rfl

/-- What the reader of strings accepts was a string. -/
theorem readsString_of_readString (h : readString start half t = .ok (s, rest)) :
    ReadsString half t s rest := by
  fun_induction readString start half t generalizing s rest with
  | case1 | case3 | case4 | case10 | case11 | case13 => cases h
  | case2 half t =>
    cases h
    exact .close
  | case5 a b c d e t code hcode high hlow ih =>
    -- the second half of a pair
    obtain ⟨_, hread, ⟨⟩⟩ := Except.map_eq_ok.mp h
    have hstep : unitStep (some high) code = ([.char (pairChar high code)], none) := if_pos hlow
    exact .code hcode hstep (ih hread)
  | case6 a b c d e t code hcode high hlow hhigh ih =>
    -- a first half after another one
    obtain ⟨_, hread, ⟨⟩⟩ := Except.map_eq_ok.mp h
    have hstep : unitStep (some high) code = ([.ofCode high], some code) :=
      (if_neg hlow).trans (if_pos hhigh)
    exact .code hcode hstep (ih hread)
  | case7 a b c d e t code hcode high hlow hhigh ih =>
    -- no half after a first one
    obtain ⟨_, hread, ⟨⟩⟩ := Except.map_eq_ok.mp h
    have hstep : unitStep (some high) code = ([.ofCode high, .ofCode code], none) :=
      (if_neg hlow).trans (if_neg hhigh)
    exact .code hcode hstep (ih hread)
  | case8 a b c d e t code hcode hhigh ih =>
    -- a first half
    have hstep : unitStep none code = ([], some code) := if_pos hhigh
    exact .code hcode hstep (ih h)
  | case9 a b c d e t code hcode hhigh ih =>
    -- no half, or a second one that stands alone
    obtain ⟨_, hread, ⟨⟩⟩ := Except.map_eq_ok.mp h
    have hstep : unitStep none code = ([.ofCode code], none) := if_neg hhigh
    exact .code hcode hstep (ih hread)
  | case12 half c t hnot hu d hd ih =>
    obtain ⟨_, hread, ⟨⟩⟩ := Except.map_eq_ok.mp h
    cases c with
    | half offset => cases hd
    | char c => exact .escape hd (ih hread)
  | case14 half p t hquote hend hescape hslash hcontrol ih =>
    obtain ⟨_, hread, ⟨⟩⟩ := Except.map_eq_ok.mp h
    have hnotslash : p ≠ .char '\\' := by
      rintro rfl
      cases t with
      | nil => exact hend rfl rfl
      | cons q t => exact hslash q t rfl rfl
    exact .plain hquote hnotslash (Nat.le_of_not_lt hcontrol) (ih hread)

/-- What is a string, the reader accepts. -/
theorem readString_of_readsString (h : ReadsString half t s rest) :
    readString start half t = .ok (s, rest) := by
  induction h with
  | close => rfl
  | code hcode hstep _ ih =>
    rw [readString_code hcode, hstep, ih]
    rfl
  | @escape half c d t s rest hd _ ih =>
    have hu : CodePoint.char c ≠ .char 'u' := by
      rintro ⟨⟩
      cases hd
    have hchar : (CodePoint.char c).char?.bind escaped? = some d := hd
    rw [readString.eq_5 _ _ _ _ fun _ _ _ _ _ _ heq _ => hu heq, if_neg hu, hchar]
    dsimp only
    rw [ih]
    rfl
  | @plain half p t s rest hquote hslash hvisible _ ih =>
    rw [readString.eq_6 _ _ _ _ hquote (fun heq _ => hslash heq)
      (fun _ _ _ _ _ _ heq _ => hslash heq) (fun _ _ heq _ => hslash heq),
      if_neg (Nat.not_lt.mpr hvisible), ih]
    rfl

/-- **What the reader of strings reads is what its signs say, one after the other.** -/
theorem readString_iff : readString start half t = .ok (s, rest) ↔ ReadsString half t s rest :=
  ⟨readsString_of_readString, readString_of_readsString⟩

end ApiLint.Json
