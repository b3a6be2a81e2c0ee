import ApiLint.Text
import ApiLint.Text.Quoted
import ApiLint.Text.Utf8

/-! Texts as names of files. The system knows a name as a row of bytes without a zero. A byte that
was no character when the name was read is a half from 0xDC80 on; other halves stand for no
byte. -/
namespace ApiLint.Text

/-- A row of halves that have no bytes: the number of the first, its place and their count. -/
structure Unencodable where
  code : Nat
  start : Nat
  count : Nat
  deriving DecidableEq, Repr

/-- The message for a text that has no bytes. -/
def Unencodable.message (u : Unencodable) : Text :=
  let place : Text :=
    if u.count = 1 then s!"character '{String.ofList (codeEscape u.code)}' in position {u.start}"
    else s!"characters in position {u.start}-{u.start + u.count - 1}"
  "'utf-8' codec can't encode " ++ place ++ ": surrogates not allowed"

def pointBytes : CodePoint → List UInt8
  | .char c => Utf8.encode [c]
  | .half offset => [(offset.val - 0x400).toUInt8]

/-- The bytes of a text, a half being one. -/
def bytes (t : Text) : List UInt8 :=
  t.flatMap pointBytes

def isChar (p : CodePoint) : Bool :=
  p.char?.isSome

/-- Whether a code point stands for a byte that is no character. -/
def isRawByte : CodePoint → Bool
  | .char _ => false
  | .half offset => 0x480 ≤ offset.val && offset.val < 0x500

/-- The first code points of a text, from a place on, that are refused: the row of halves in which
one is refused, from that one on. -/
def refusedFrom (refused : CodePoint → Bool) (start : Nat) : Text → Option Unencodable
  | [] => none
  | p :: rest =>
    if refused p then
      some ⟨p.code, start, 1 + (rest.takeWhile fun q => !isChar q).length⟩
    else refusedFrom refused (start + 1) rest

/-- Why a text cannot be written, if it cannot. -/
def unwritable? (t : Text) : Option Unencodable :=
  refusedFrom (fun p => !isChar p) 0 t

/-- Why a name has no bytes, if it has none. -/
def unnamable? (t : Text) : Option Unencodable :=
  refusedFrom (fun p => !isChar p && !isRawByte p) 0 t

end ApiLint.Text
