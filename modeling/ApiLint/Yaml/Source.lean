import ApiLint.Text.Blank
import ApiLint.Yaml.Fault

/-! What a YAML text is read from. A text that is at hand is looked through as a whole before it is
read. A file is loaded piece by piece while it is read, so that a mistake in an early piece counts
before characters of a later one that cannot be loaded. -/
namespace ApiLint.Yaml

/-- Whether a character may stand in a text at all. -/
def isAllowed (c : Char) : Bool :=
  c = '\t' || c = '\n' || c = '\r' || (' ' ≤ c && c ≤ '~') || c = '\u0085' ||
    ('\u00A0' ≤ c && c ≤ '\uFFFD') || 0x10000 ≤ c.toNat

/-- The characters that can be read, and what stands in the way of reading on, if there is more. -/
structure Source where
  text : List Char
  stop : Option Fault := none
  deriving DecidableEq, Repr

namespace Source

/-- A text of which nothing can be read. -/
def refused : Source := ⟨[], some .malformed⟩

/-- A text that is at hand. -/
def ofText (t : Text) : Source :=
  match t.chars? with
  | some cs => if cs.all isAllowed then ⟨cs, none⟩ else refused
  | none => refused

/-- How many characters a piece has; the first one has twice as many. -/
def pieceSize : Nat := 4096

/-- How many bytes are decoded at once. -/
def chunkSize : Nat := 8192

/-- How many characters are loaded in whole pieces before the one at an index is. -/
def loadedBefore (index : Nat) : Nat :=
  if index < 2 * pieceSize then 0 else index / pieceSize * pieceSize

/-- How many bytes are decoded before a fault of theirs is met. -/
def decodedBefore (length : Nat) (fault : Text.Utf8.Fault) : Nat :=
  match fault.reason with
  | .cutShort => length
  | .badStart => fault.start / chunkSize * chunkSize
  | .badContinuation => (fault.start + fault.count) / chunkSize * chunkSize

/-- A file with these bytes. -/
def ofBytes (bytes : List UInt8) : Source :=
  let loaded : Source :=
    match Text.Utf8.decode bytes with
    | .ok cs => ⟨Text.plainNewlines cs, none⟩
    | .error fault =>
      let before := bytes.take (decodedBefore bytes.length fault)
      let cs := Text.plainNewlines (Text.Utf8.decodable before)
      ⟨cs.take (loadedBefore cs.length), some (.undecodable fault)⟩
  match loaded.text.findIdx? (!isAllowed ·) with
  | some index => ⟨loaded.text.take (loadedBefore index), some .malformed⟩
  | none => loaded

end Source

end ApiLint.Yaml
