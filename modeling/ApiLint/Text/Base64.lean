/-! Bytes written with 64 characters. Characters of no meaning are skipped, and what follows the
padding is not looked at. -/
namespace ApiLint.Text

/-- The six bits that a character stands for. -/
def sixBits? (c : Char) : Option Nat :=
  if 'A' ≤ c ∧ c ≤ 'Z' then some (c.toNat - 0x41)
  else if 'a' ≤ c ∧ c ≤ 'z' then some (c.toNat - 0x61 + 26)
  else if '0' ≤ c ∧ c ≤ '9' then some (c.toNat - 0x30 + 52)
  else if c = '+' then some 62
  else if c = '/' then some 63
  else none

/-- The bytes of the characters that are left, when `read` characters of a group of four have been
read, with `left` as the bits of them that are not used, and `pads` padding signs since then. -/
def base64From (read left pads : Nat) : List Char → Option (List UInt8)
  | [] => if read = 0 then some [] else none
  | '=' :: rest =>
    if 2 ≤ read ∧ 4 ≤ read + pads + 1 then some []
    else base64From read left (if 2 ≤ read then pads + 1 else pads) rest
  | c :: rest =>
    match sixBits? c with
    | none => base64From read left pads rest
    | some bits =>
      if read = 0 then base64From 1 bits 0 rest
      else if read = 1 then
        (base64From 2 (bits % 16) 0 rest).map (UInt8.ofNat (left * 4 + bits / 16) :: ·)
      else if read = 2 then
        (base64From 3 (bits % 4) 0 rest).map (UInt8.ofNat (left * 16 + bits / 4) :: ·)
      else
        (base64From 0 0 0 rest).map (UInt8.ofNat (left * 64 + bits) :: ·)

/-- The bytes that a text stands for. -/
def base64? (cs : List Char) : Option (List UInt8) :=
  base64From 0 0 0 cs

end ApiLint.Text
