import ApiLint.Text.Base64
import ApiLint.Text.Lower
import ApiLint.Text.Pieces
import ApiLint.Value
import ApiLint.Yaml.Node
import ApiLint.Yaml.Stamp

/-! What scalars mean. A tag names a kind of value; without one the text tells the kind: truth
values, whole numbers in four bases, decimals, times and the empty value have forms of their own,
and all else is a text. A line end at the end of a text does not matter for its form. -/
namespace ApiLint.Yaml

/-- The kinds of value that tags name. -/
inductive Kind
  | null
  | bool
  | int
  | float
  | binary
  | timestamp
  | str
  | omap
  | pairs
  | set
  | sequence
  | mapping
  /-- A key whose value is merged into its mapping. -/
  | merge
  /-- A key whose value stands for its mapping. -/
  | value
  | unknown
  deriving DecidableEq, Repr

/-- The names of the kinds in the standard tags. -/
def standardKinds : List (String × Kind) :=
  [("null", .null), ("bool", .bool), ("int", .int), ("float", .float), ("binary", .binary),
   ("timestamp", .timestamp), ("str", .str), ("omap", .omap), ("pairs", .pairs), ("set", .set),
   ("seq", .sequence), ("map", .mapping), ("merge", .merge), ("value", .value)]

/-- The kind that a tag names. -/
def kindOfTag (tag : String) : Kind :=
  ((standardKinds.find? fun k => standardTag ++ k.1 = tag).map (·.2)).getD .unknown

/-- The words for true and false, in lower case. -/
def truthWords : List (String × Bool) :=
  [("yes", true), ("no", false), ("true", true), ("false", false), ("on", true), ("off", false)]

/-- A word in lower case, with a capital, and in upper case. -/
def spellings (word : String) : List String :=
  [word, word.capitalize, String.ofList (word.toList.map Char.toUpper)]

def isTruth (text : String) : Bool :=
  truthWords.any fun w => text ∈ spellings w.1

def isNull (text : String) : Bool :=
  text ∈ ["", "~", "null", "Null", "NULL"]

/-- Whether a row of characters is not empty and of a kind. -/
def someOf (p : Char → Bool) (cs : List Char) : Bool :=
  !cs.isEmpty && cs.all p

/-- Whether a character may stand in a decimal numeral after its first digit. -/
def isDigitOrLow (c : Char) : Bool :=
  isDigit c || c = '_'

/-- Whether a row of characters is a sequence of places to the base sixty, each behind a colon. -/
def sixtieths : List Char → Bool
  | [] => true
  | [':', a] => isDigit a
  | ':' :: a :: b :: rest =>
    if isDigit b then '0' ≤ a && a ≤ '5' && sixtieths rest else isDigit a && sixtieths (b :: rest)
  | _ => false

def unsigned (cs : List Char) : List Char :=
  (Numeral.splitSign cs).2

/-- Whether a text is a whole number: binary, octal, hexadecimal, decimal or to the base sixty. -/
def isWhole (cs : List Char) : Bool :=
  match unsigned cs with
  | ['0'] => true
  | '0' :: 'b' :: digits => someOf (fun c => c = '0' || c = '1' || c = '_') digits
  | '0' :: 'x' :: digits => someOf (fun c => (Text.hexValue? c).isSome || c = '_') digits
  | '0' :: digits => someOf (fun c => ('0' ≤ c && c ≤ '7') || c = '_') digits
  | c :: rest => isDigit c && sixtieths (rest.dropWhile isDigitOrLow)
  | [] => false

/-- Whether a row of characters is an exponent, which must have a sign, or empty. -/
def isExponent : List Char → Bool
  | [] => true
  | e :: sign :: digits =>
    (e = 'e' || e = 'E') && (sign = '-' || sign = '+') && someOf isDigit digits
  | _ => false

/-- Whether a text is a decimal: with a point, or one of the numbers that have no digits. -/
def isDecimal (cs : List Char) : Bool :=
  let body := unsigned cs
  if String.ofList body ∈ [".inf", ".Inf", ".INF"] then true
  else if String.ofList cs ∈ [".nan", ".NaN", ".NAN"] then true
  else
    match cs, body with
    | '.' :: c :: rest, _ => isDigit c && isExponent (rest.dropWhile isDigitOrLow)
    | _, c :: rest =>
      let more := rest.dropWhile isDigitOrLow
      let places := more.takeWhile (· ≠ '.')
      match more.dropWhile (· ≠ '.') with
      | '.' :: fraction =>
        isDigit c &&
          (if places.isEmpty then isExponent (fraction.dropWhile isDigitOrLow)
           else sixtieths places && fraction.all isDigitOrLow)
      | _ => false
    | _, _ => false

/-- Whether a text is a date with all its digits, or a time. -/
def isStamp (cs : List Char) : Bool :=
  (readStamp cs).any fun stamp => stamp.padded || stamp.time.isSome

/-- The kind of a text of one line without a tag. The signs of the language are no texts. -/
def kindOfLine (cs : List Char) : Kind :=
  let text := String.ofList cs
  if isTruth text then .bool
  else if isDecimal cs then .float
  else if isWhole cs then .int
  else if text = "<<" then .merge
  else if isNull text then .null
  else if isStamp cs then .timestamp
  else if text = "=" then .value
  else if text ∈ ["!", "&", "*"] then .unknown
  else .str

def withoutLineEnd (t : Text) : Text :=
  if t.getLast? = some (.char '\n') then t.dropLast else t

/-- The kind of a text without a tag. A line end alone is a text. -/
def kindOfText (t : Text) : Kind :=
  match (withoutLineEnd t).chars? with
  | none => .str
  | some cs => if cs.isEmpty && !t.isEmpty then .str else kindOfLine cs

/-- The kind of a scalar. -/
def scalarKind (tag : Option String) (text : Text) : Kind :=
  match tag with
  | some t => kindOfTag t
  | none => kindOfText text

/-- A whole number in a base, or the fault of its text. -/
def wholeIn (base : Nat) (t : Text) : Except Fault Int :=
  (Numeral.readInt base t).mapError .number

/-- The sign in front of a number and what follows it. -/
def splitSign : Text → Bool × Text
  | .char '-' :: rest => (true, rest)
  | .char '+' :: rest => (false, rest)
  | t => (false, t)

/-- The whole number that a text without sign and low lines is. -/
def unsignedWhole (t : Text) : Except Fault Int :=
  match t with
  | [] => .error .noDigits
  | [.char '0'] => .ok 0
  | .char '0' :: .char 'b' :: digits => wholeIn 2 digits
  | .char '0' :: .char 'x' :: digits => wholeIn 16 digits
  | .char '0' :: digits => wholeIn 8 (.char '0' :: digits)
  | t =>
    if t.contains ':' then do
      let places ← (Text.pieces (.char ':') t).mapM (wholeIn 10)
      return places.foldl (fun n place => n * 60 + place) 0
    else wholeIn 10 t

/-- The whole number that a text tagged as one is. -/
def readWhole (t : Text) : Except Fault Int :=
  let (negative, body) := splitSign (t.filter (· ≠ .char '_'))
  (unsignedWhole body).map fun n => if negative then -n else n

/-- What places to the base sixty add up to, the last place first; `worth` is what a unit of the
first of them counts. -/
def sumOfPlaces (sum : Float) (worth : Nat) : List Float → Except Fault Float
  | [] => .ok sum
  | place :: places =>
    let unit := Numeral.nearest worth 1
    if unit.isInf then .error .placeTooHigh
    else sumOfPlaces (sum + place * unit) (worth * 60) places

/-- The decimal that a text without sign and low lines is, in lower case. -/
def unsignedDecimal (t : Text) : Except Fault Float :=
  let read (t : Text) : Except Fault Float := (Numeral.readFloat t).mapError .number
  if t = ".inf" then .ok (Numeral.infinity false)
  else if t.contains ':' then do
    sumOfPlaces 0.0 1 (← (Text.pieces (.char ':') t).mapM read).reverse
  else read t

/-- The decimal that a text tagged as one is. What is no number is the one that the language has a
name for, or comes from here. -/
def readDecimal (origin : Origin) (t : Text) : Except Fault Value :=
  let t := Text.lower (t.filter (· ≠ .char '_'))
  if t.isEmpty then .error .noDigits
  else
    let (negative, body) := splitSign t
    if body = ".nan" then .ok (.nan .yaml)
    else
      (unsignedDecimal body).map fun x =>
        if x.isNaN then .nan origin else .float (if negative then Numeral.negate x else x)

/-- The truth value that a text tagged as one is. -/
def readTruth (t : Text) : Except Fault Bool :=
  let word := Text.lower t
  match truthWords.find? fun w => Text.ofString w.1 = word with
  | some w => .ok w.2
  | none => .error (.truth word)

/-- The date or time that a text tagged as one is. -/
def readTime (t : Text) : Except Fault Value :=
  match (withoutLineEnd t).chars?.bind readStamp with
  | none => .error .time
  | some stamp =>
    match stamp.time with
    | none =>
      match stamp.date.fault? with
      | some fault => .error (.moment fault)
      | none => .ok (.date stamp.date)
    | some time =>
      let moment : Calendar.Moment := ⟨stamp.date, time, stamp.ahead⟩
      match moment.fault? with
      | some fault => .error (.moment fault)
      | none => .ok (.moment moment)

/-- The bytes that a text tagged as bytes is; it must be ASCII. -/
def readBytes (t : Text) : Except Fault Value :=
  match t.chars?.filter (·.all (·.toNat < 0x80)) with
  | none => .error .malformed
  | some cs =>
    match Text.base64? cs with
    | some bytes => .ok (.bytes bytes)
    | none => .error .malformed

/-- The value of a text of a kind. -/
def scalarValue (kind : Kind) (origin : Origin) (t : Text) : Except Fault Value :=
  match kind with
  | .null => .ok .null
  | .bool => (readTruth t).map .bool
  | .int => (readWhole t).map .int
  | .float => readDecimal origin t
  | .binary => readBytes t
  | .timestamp => readTime t
  | .str => .ok (.str t)
  | _ => .error .malformed

end ApiLint.Yaml
