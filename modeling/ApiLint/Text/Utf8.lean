import ApiLint.Text.Hex

/-! Text as bytes. Decoding is a small machine that takes one byte at a time and refuses the
first sequence that is not well formed, so it also tells where that sequence starts and how much
of it could be read. -/
namespace ApiLint.Text.Utf8

/-- Why a sequence of bytes is not a character. -/
inductive Reason
  /-- The first byte starts no character. -/
  | badStart
  /-- A later byte cannot continue the character. -/
  | badContinuation
  /-- The text ends inside a character. -/
  | cutShort
  deriving DecidableEq, Repr

def Reason.message : Reason → String
  | badStart => "invalid start byte"
  | badContinuation => "invalid continuation byte"
  | cutShort => "unexpected end of data"

/-- A sequence of bytes that is not a character: its first byte, where it stands, and how many
bytes of it were read. -/
structure Fault where
  byte : UInt8
  start : Nat
  count : Nat
  reason : Reason
  deriving DecidableEq, Repr

/-- The message for a text that is not UTF-8. -/
def Fault.message (f : Fault) : String :=
  let place :=
    if f.count = 1 then
      s!"byte 0x{String.ofList (hexDigits 2 f.byte.toNat)} in position {f.start}"
    else s!"bytes in position {f.start}-{f.start + f.count - 1}"
  s!"'utf-8' codec can't decode {place}: {f.reason.message}"

/-- A character of which some bytes are still to come: its first byte and where that stands, the
bits read so far, how many bytes are missing, and the bounds of the next one. -/
structure Partial where
  byte : UInt8
  start : Nat
  bits : Nat
  missing : Nat
  low : Nat := 0x80
  high : Nat := 0xBF

/-- What a first byte begins: a character of one byte, a longer one, or nothing. -/
def begin? (byte : UInt8) (start : Nat) : Option (Char ⊕ Partial) :=
  let n := byte.toNat
  if n < 0x80 then some (.inl (Char.ofNat n))
  else if n < 0xC2 then none
  else if n < 0xE0 then some (.inr { byte, start, bits := n - 0xC0, missing := 1 })
  else if n < 0xF0 then
    some (.inr { byte, start, bits := n - 0xE0, missing := 2
                 low := if n = 0xE0 then 0xA0 else 0x80, high := if n = 0xED then 0x9F else 0xBF })
  else if n < 0xF5 then
    some (.inr { byte, start, bits := n - 0xF0, missing := 3
                 low := if n = 0xF0 then 0x90 else 0x80, high := if n = 0xF4 then 0x8F else 0xBF })
  else none

/-- The characters of the bytes from `position` on, when `open?` has been begun before. -/
def decodeFrom (position : Nat) (open? : Option Partial) : List UInt8 → Except Fault (List Char)
  | [] =>
    match open? with
    | none => .ok []
    | some p => .error ⟨p.byte, p.start, position - p.start, .cutShort⟩
  | byte :: rest =>
    match open? with
    | none =>
      match begin? byte position with
      | none => .error ⟨byte, position, 1, .badStart⟩
      | some (.inl c) => (decodeFrom (position + 1) none rest).map (c :: ·)
      | some (.inr p) => decodeFrom (position + 1) (some p) rest
    | some p =>
      if byte.toNat < p.low ∨ p.high < byte.toNat then
        .error ⟨p.byte, p.start, position - p.start, .badContinuation⟩
      else
        let bits := p.bits * 64 + (byte.toNat - 0x80)
        if p.missing = 1 then
          (decodeFrom (position + 1) none rest).map (Char.ofNat bits :: ·)
        else
          decodeFrom (position + 1)
            (some { byte := p.byte, start := p.start, bits, missing := p.missing - 1 }) rest

def decode (bytes : List UInt8) : Except Fault (List Char) :=
  decodeFrom 0 none bytes

/-- The characters in front of the first fault. -/
def decodable (bytes : List UInt8) : List Char :=
  match decode bytes with
  | .ok cs => cs
  | .error fault => (decode (bytes.take fault.start)).toOption.getD []

def encode (cs : List Char) : List UInt8 :=
  cs.flatMap String.utf8EncodeChar

end ApiLint.Text.Utf8
