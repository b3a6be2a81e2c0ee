import ApiLint.Text.Hex

/-! The SHA-1 digest. A message is filled up to whole blocks of 64 bytes, the last eight of which
hold its length in bits; each block is worked into five words by eighty rounds. -/
namespace ApiLint.Text.Sha1

/-- The five words of a digest. -/
structure State where
  a : UInt32
  b : UInt32
  c : UInt32
  d : UInt32
  e : UInt32
  deriving DecidableEq, Repr

/-- The words before the first block. -/
def start : State :=
  ⟨0x67452301, 0xEFCDAB89, 0x98BADCFE, 0x10325476, 0xC3D2E1F0⟩

def rotate (x : UInt32) (n : UInt32) : UInt32 :=
  (x <<< n) ||| (x >>> (32 - n))

/-- The bytes of a number, `count` of them, the highest first. -/
def bigEndian : (count : Nat) → Nat → List UInt8
  | 0, _ => []
  | count + 1, n => bigEndian count (n / 256) ++ [UInt8.ofNat n]

/-- A message filled up to whole blocks. -/
def padded (bytes : List UInt8) : List UInt8 :=
  let zeros := (119 - bytes.length % 64) % 64
  bytes ++ 0x80 :: List.replicate zeros 0 ++ bigEndian 8 (8 * bytes.length)

/-- The words that rows of four bytes make. -/
def words : List UInt8 → List UInt32
  | a :: b :: c :: d :: rest =>
    ((a.toUInt32 <<< 24) ||| (b.toUInt32 <<< 16) ||| (c.toUInt32 <<< 8) ||| d.toUInt32) ::
      words rest
  | _ => []

/-- The words of a block, the last one first, continued by `count` further ones, each of which
comes from the sixteen before it. -/
def schedule : (count : Nat) → List UInt32 → List UInt32
  | 0, ws => ws
  | count + 1, ws =>
    let w (n : Nat) : UInt32 := ws.getD n 0
    schedule count (rotate (w 2 ^^^ w 7 ^^^ w 13 ^^^ w 15) 1 :: ws)

/-- How a round mixes three words, and the constant it adds. -/
def mix (round : Nat) (b c d : UInt32) : UInt32 × UInt32 :=
  if round < 20 then ((b &&& c) ||| (~~~b &&& d), 0x5A827999)
  else if round < 40 then (b ^^^ c ^^^ d, 0x6ED9EBA1)
  else if round < 60 then ((b &&& c) ||| (b &&& d) ||| (c &&& d), 0x8F1BBCDC)
  else (b ^^^ c ^^^ d, 0xCA62C1D6)

def step (s : State) (word : UInt32 × Nat) : State :=
  let (f, k) := mix word.2 s.b s.c s.d
  ⟨rotate s.a 5 + f + s.e + k + word.1, s.a, rotate s.b 30, s.c, s.d⟩

def absorb (s : State) (block : List UInt32) : State :=
  let t := ((schedule 64 block.reverse).reverse.zipIdx).foldl step s
  ⟨s.a + t.a, s.b + t.b, s.c + t.c, s.d + t.d, s.e + t.e⟩

def absorbAll : (blocks : Nat) → List UInt32 → State → State
  | 0, _, s => s
  | blocks + 1, ws, s => absorbAll blocks (ws.drop 16) (absorb s (ws.take 16))

/-- The digest of a message, in lower case hexadecimal digits. -/
def digest (bytes : List UInt8) : String :=
  let ws := words (padded bytes)
  let s := absorbAll (ws.length / 16) ws start
  String.ofList ([s.a, s.b, s.c, s.d, s.e].flatMap fun w => hexDigits 8 w.toNat)

end ApiLint.Text.Sha1
