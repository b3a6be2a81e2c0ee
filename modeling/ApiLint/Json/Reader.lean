import ApiLint.Json.Problem
import ApiLint.Value

/-! Reading JSON. Each reader takes a text and gives what it read together with the rest, so the
place of a mistake is the rest of the text that it stands in front of. Beyond the standard, the
three names of numbers without digits are understood, and numbers may be of any size. -/
namespace ApiLint.Json

/-- What stops a reader: a problem in front of the rest of the text, or a number. -/
inductive Stop
  | here (problem : Problem) (rest : Text)
  | numeral (f : Numeral.Fault)

/-- What was read, and the rest of the text. -/
abbrev Read (α : Type) := Except Stop (α × Text)

/-- The blanks between tokens. -/
def isSpace (c : Char) : Bool :=
  c = ' ' || c = '\n' || c = '\t' || c = '\r'

def skipSpace (t : Text) : Text :=
  t.dropWhile (·.isA isSpace)

/-- The character that a one-letter escape stands for. -/
def escaped? : Char → Option Char
  | '"' => some '"'
  | '\\' => some '\\'
  | '/' => some '/'
  | 'b' => some '\x08'
  | 'f' => some '\x0C'
  | 'n' => some '\n'
  | 'r' => some '\r'
  | 't' => some '\t'
  | _ => none

/-- Whether a code unit is the first half of a pair. -/
def isHighHalf (code : Nat) : Bool :=
  0xD800 ≤ code && code < 0xDC00

/-- Whether a code unit is the second half of a pair. -/
def isLowHalf (code : Nat) : Bool :=
  0xDC00 ≤ code && code < 0xE000

/-- The character of a pair of code units. -/
def pairChar (high low : Nat) : Char :=
  Char.ofNat (0x10000 + (high - 0xD800) * 0x400 + (low - 0xDC00))

/-- A first half that no second half followed, in front of what comes after it. -/
def flushHalf (half : Option Nat) (t : Text) : Text :=
  match half with
  | none => t
  | some code => .ofCode code :: t

/-- The text of a string up to its closing quote. `start` is the text from its opening quote on,
and `half` the first half of a pair that has just been read. -/
def readString (start : Text) (half : Option Nat) : Text → Read Text
  | [] => .error (.here .openString start)
  | .char '"' :: rest => .ok (flushHalf half [], rest)
  | [.char '\\'] => .error (.here .openString start)
  | .char '\\' :: .char 'u' :: a :: b :: c :: d :: e :: rest =>
    match (Text.chars? [a, b, c, d]).bind Text.hexNumber? with
    | none => .error (.here .badUnicodeEscape (.char 'u' :: a :: b :: c :: d :: e :: rest))
    | some code =>
      match half with
      | some high =>
        if isLowHalf code then
          (readString start none (e :: rest)).map fun (t, rest) => (pairChar high code :: t, rest)
        else if isHighHalf code then
          (readString start (some code) (e :: rest)).map fun (t, rest) =>
            (.ofCode high :: t, rest)
        else
          (readString start none (e :: rest)).map fun (t, rest) =>
            (.ofCode high :: .ofCode code :: t, rest)
      | none =>
        if isHighHalf code then readString start (some code) (e :: rest)
        else (readString start none (e :: rest)).map fun (t, rest) => (.ofCode code :: t, rest)
  | .char '\\' :: c :: rest =>
    if c = 'u' then .error (.here .badUnicodeEscape (c :: rest))
    else
      match c.char?.bind escaped? with
      | none => .error (.here .badEscape (.char '\\' :: c :: rest))
      | some d =>
        (readString start none rest).map fun (t, rest) => (flushHalf half (d :: t), rest)
  | c :: rest =>
    if c.code < 0x20 then .error (.here .controlCharacter (c :: rest))
    else (readString start none rest).map fun (t, rest) => (flushHalf half (c :: t), rest)

def isDigit (c : Char) : Bool :=
  '0' ≤ c && c ≤ '9'

/-- The fraction of a number, without its point, and the rest; nothing when no digit follows the
point. -/
def readFraction : List Char → List Char × List Char
  | '.' :: rest =>
    let digits := rest.takeWhile isDigit
    if digits.isEmpty then ([], '.' :: rest) else (digits, rest.dropWhile isDigit)
  | cs => ([], cs)

/-- The exponent of a number, with its sign, and the rest; nothing when it has no digit. -/
def readExponent (cs : List Char) : Option (Bool × List Char) × List Char :=
  match cs with
  | c :: rest =>
    if c = 'e' ∨ c = 'E' then
      let (negative, body) := Numeral.splitSign rest
      let digits := body.takeWhile isDigit
      if digits.isEmpty then (none, cs) else (some (negative, digits), body.dropWhile isDigit)
    else (none, cs)
  | [] => (none, [])

def digitValues (cs : List Char) : List Nat :=
  cs.map fun c => c.toNat - 0x30

/-- The number after its sign, and what follows it. A number with a fraction or an exponent is a
floating point number. -/
def readNumber? (negative : Bool) (body : List Char) :
    Option (Except Numeral.Fault Value × List Char) :=
  let whole :=
    match body with
    | '0' :: _ => ['0']
    | _ => body.takeWhile isDigit
  if whole.isEmpty then none
  else
    let (fraction, rest) := readFraction (body.drop whole.length)
    let (exponent, rest) := readExponent rest
    if fraction.isEmpty && exponent.isNone then
      if Numeral.digitLimit < whole.length then some (.error (.tooLong whole.length), rest)
      else
        let n := Numeral.ofDigits 10 (digitValues whole)
        some (.ok (.int (if negative then -n else n)), rest)
    else
      let power : Int :=
        match exponent with
        | none => 0
        | some (down, digits) =>
          let n := Numeral.ofDigits 10 (digitValues digits)
          if down then -n else n
      let x := Numeral.decimalSize (digitValues whole) (digitValues fraction) power
      some (.ok (.float (if negative then Numeral.negate x else x)), rest)

/-- The values that are written as a name. -/
def names : List (List Char × Value) :=
  [(['n', 'u', 'l', 'l'], .null), (['t', 'r', 'u', 'e'], .bool true),
   (['f', 'a', 'l', 's', 'e'], .bool false), (['N', 'a', 'N'], .nan .json),
   (['I', 'n', 'f', 'i', 'n', 'i', 't', 'y'], .float (Numeral.infinity false)),
   (['-', 'I', 'n', 'f', 'i', 'n', 'i', 't', 'y'], .float (Numeral.infinity true))]

/-- A value without parts, a name or a number, and what follows it. -/
def readScalar? (cs : List Char) : Option (Except Numeral.Fault Value × List Char) :=
  match names.find? fun name => name.1.isPrefixOf cs with
  | some (name, v) => some (.ok v, cs.drop name.length)
  | none =>
    match cs with
    | '-' :: rest => readNumber? true rest
    | _ => readNumber? false cs

/-- A value without parts. -/
def readScalar (t : Text) : Read Value :=
  let cs := t.leadingChars
  match readScalar? cs with
  | none => .error (.here .noValue t)
  | some (.error f, _) => .error (.numeral f)
  | some (.ok v, rest) => .ok (v, t.drop (cs.length - rest.length))

/-- The name of an entry and its colon, and the rest from the value on. -/
def readName (t : Text) : Read Text :=
  match t with
  | .char '"' :: rest =>
    match readString t none rest with
    | .error stop => .error stop
    | .ok (name, rest) =>
      match skipSpace rest with
      | .char ':' :: rest => .ok (name, skipSpace rest)
      | rest => .error (.here .noColon rest)
  | _ => .error (.here .noName t)

mutual

/-- The value that a text starts with. -/
def readValue (fuel : Nat) (t : Text) : Read Value :=
  match fuel with
  | 0 => .error (.here .noValue t)
  | fuel + 1 =>
    match t with
    | .char '"' :: rest => (readString t none rest).map fun (s, rest) => (.str s, rest)
    | .char '{' :: rest =>
      match skipSpace rest with
      | .char '}' :: rest => .ok (.map [], rest)
      | rest => readEntries fuel [] rest
    | .char '[' :: rest =>
      match skipSpace rest with
      | .char ']' :: rest => .ok (.list [], rest)
      | rest => readItems fuel [] rest
    | _ => readScalar t
termination_by structural fuel

/-- The items of a list up to its end, after the items `before` in reverse. -/
def readItems (fuel : Nat) (before : List Value) (t : Text) : Read Value :=
  match fuel with
  | 0 => .error (.here .noValue t)
  | fuel + 1 =>
    match readValue fuel t with
    | .error stop => .error stop
    | .ok (v, rest) =>
      match skipSpace rest with
      | .char ']' :: rest => .ok (.list (v :: before).reverse, rest)
      | .char ',' :: rest => readItems fuel (v :: before) (skipSpace rest)
      | rest => .error (.here .noComma rest)
termination_by structural fuel

/-- The entries of a mapping up to its end, after the entries `before` in reverse. -/
def readEntries (fuel : Nat) (before : List (Value × Value)) (t : Text) : Read Value :=
  match fuel with
  | 0 => .error (.here .noValue t)
  | fuel + 1 =>
    match readName t with
    | .error stop => .error stop
    | .ok (name, rest) =>
      match readValue fuel rest with
      | .error stop => .error stop
      | .ok (v, rest) =>
        match skipSpace rest with
        | .char '}' :: rest => .ok (.map (Entries.ofPairs ((.str name, v) :: before).reverse), rest)
        | .char ',' :: rest => readEntries fuel ((.str name, v) :: before) (skipSpace rest)
        | rest => .error (.here .noComma rest)
termination_by structural fuel

end

/-- The value of a whole text, of which nothing but blanks may be left. -/
def readAll (t : Text) : Except Stop Value :=
  match t with
  | .char '\uFEFF' :: _ => .error (.here .byteOrderMark t)
  | _ =>
    match readValue (2 * t.length + 2) (skipSpace t) with
    | .error stop => .error stop
    | .ok (v, rest) =>
      match skipSpace rest with
      | [] => .ok v
      | rest => .error (.here .extraData rest)

/-- The value of a JSON text. -/
def read (text : Text) : Except Fault Value :=
  (readAll text).mapError fun
    | .here problem rest => .mistake (.before problem text rest)
    | .numeral f => .numeral f

end ApiLint.Json
