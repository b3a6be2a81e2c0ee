import ApiLint.Numeral.Binary64
import ApiLint.Text.Blank
import ApiLint.Text.Digit
import ApiLint.Text.Quoted

/-! Reading numbers that stand in a text of their own. Blanks around the number are dropped, its
digits may come from any script, and single underscores may stand between digits. A decimal
numeral longer than the limit is refused whatever its value is. -/
namespace ApiLint.Numeral

/-- Why a text is not a number. -/
inductive Fault
  /-- The text is not a whole number in this base. -/
  | notWhole (base : Nat) (text : Text)
  /-- The decimal numeral has too many digits to be read. -/
  | tooLong (digits : Nat)
  /-- The number has too many decimal digits to be written. -/
  | tooLarge
  /-- The text is not a floating point number. -/
  | notFloat (text : Text)
  deriving DecidableEq, Repr

/-- The blanks that may stand around a number: all but the four separators of records. -/
def isOuterBlank (c : Char) : Bool :=
  Text.isBlank c && !(0x1C ≤ c.toNat && c.toNat ≤ 0x1F)

/-- A text without the blanks around its number. -/
def inner (cs : List Char) : List Char :=
  ((cs.dropWhile isOuterBlank).reverse.dropWhile isOuterBlank).reverse

/-- The most digits that a decimal numeral may have. -/
def digitLimit : Nat := 4300

/-- How much of a text is shown that is no whole number. -/
def shownLimit : Nat := 200

/-- The message for a text that is not a number. -/
def Fault.message : Fault → Text
  | notWhole base text =>
    s!"invalid literal for int() with base {base}: " ++ (Text.quoted text).take shownLimit
  | tooLong digits =>
    s!"Exceeds the limit ({digitLimit} digits) for integer string conversion: " ++
      s!"value has {digits} digits; use sys.set_int_max_str_digits() to increase the limit"
  | tooLarge =>
    s!"Exceeds the limit ({digitLimit} digits) for integer string conversion; " ++
      "use sys.set_int_max_str_digits() to increase the limit"
  | notFloat text => "could not convert string to float: " ++ Text.quoted text

/-- A digit of any script, or a letter of the Latin alphabet, as a digit of a base. -/
def digitValue? (base : Nat) (c : Char) : Option Nat :=
  let value? : Option Nat :=
    match Text.decimalValue? c with
    | some n => some n
    | none =>
      if 'a' ≤ c ∧ c ≤ 'z' then some (c.toNat - 0x61 + 10)
      else if 'A' ≤ c ∧ c ≤ 'Z' then some (c.toNat - 0x41 + 10)
      else none
  value?.bind fun n => if n < base then some n else none

/-- The digits of a numeral whose underscores stand between two digits; `afterDigit` tells
whether the character before was a digit. -/
def digitsOf? (base : Nat) (afterDigit : Bool) : List Char → Option (List Nat)
  | [] => if afterDigit then some [] else none
  | '_' :: rest => if afterDigit then digitsOf? base false rest else none
  | c :: rest => do
    let d ← digitValue? base c
    return d :: (← digitsOf? base true rest)

/-- The sign in front of a number and what follows it. -/
def splitSign : List Char → Bool × List Char
  | '-' :: rest => (true, rest)
  | '+' :: rest => (false, rest)
  | cs => (false, cs)

/-- The letter that may mark a base after a leading zero. -/
def baseLetter (base : Nat) : Option Char :=
  if base = 2 then some 'b' else if base = 8 then some 'o' else if base = 16 then some 'x' else none

/-- A numeral without the mark of its base. An underscore may follow the mark. -/
def dropBaseMark (base : Nat) : List Char → List Char
  | '0' :: c :: rest =>
    if baseLetter base = some c.toLower then
      match rest with
      | '_' :: digits => digits
      | digits => digits
    else '0' :: c :: rest
  | cs => cs

/-- The number written by digits in a base. -/
def ofDigits (base : Nat) (digits : List Nat) : Nat :=
  digits.foldl (fun n d => n * base + d) 0

/-- The sign and the digits of the whole number that a text holds in a base. -/
def signedDigits? (base : Nat) (text : Text) : Option (Bool × List Nat) := do
  let (negative, body) := splitSign (inner (← text.chars?))
  return (negative, ← digitsOf? base false (dropBaseMark base body))

/-- The whole number that a text holds in a base. -/
def readInt (base : Nat) (text : Text) : Except Fault Int :=
  match signedDigits? base text with
  | none => .error (.notWhole base text)
  | some (negative, digits) =>
    if base = 10 ∧ digitLimit < digits.length then .error (.tooLong digits.length)
    else
      let n := ofDigits base digits
      .ok (if negative then -n else n)

/-- A row of decimal digits with single underscores between them, and what follows it. -/
def spanDigits (afterDigit : Bool) : List Char → List Nat × List Char
  | [] => ([], [])
  | '_' :: c :: rest =>
    match Text.decimalValue? c with
    | some d =>
      if afterDigit then
        let (ds, rest) := spanDigits true rest
        (d :: ds, rest)
      else ([], '_' :: c :: rest)
    | none => ([], '_' :: c :: rest)
  | c :: rest =>
    match Text.decimalValue? c with
    | some d =>
      let (ds, rest) := spanDigits true rest
      (d :: ds, rest)
    | none => ([], c :: rest)

/-- The size of a decimal whose digits stand before and after the point. -/
def decimalSize (whole fraction : List Nat) (exponent : Int) : Float :=
  ofDecimal (ofDigits 10 (whole ++ fraction)) (exponent - fraction.length)

/-- The exponent of a decimal, which must be all that is left of the text. -/
def readExponent? : List Char → Option Int
  | [] => some 0
  | c :: rest =>
    if c = 'e' ∨ c = 'E' then
      let (negative, body) := splitSign rest
      match spanDigits false body with
      | (d :: ds, []) =>
        let n := ofDigits 10 (d :: ds)
        some (if negative then -n else n)
      | _ => none
    else none

/-- The size of an unsigned decimal: digits with at most one point, and an exponent. -/
def readSize? (body : List Char) : Option Float :=
  let (whole, rest) := spanDigits false body
  let (fraction, rest) :=
    match rest with
    | '.' :: rest => spanDigits false rest
    | rest => ([], rest)
  if whole.isEmpty && fraction.isEmpty then none
  else (readExponent? rest).map (decimalSize whole fraction)

/-- The names of the numbers that have no digits. -/
def readName? (body : List Char) : Option Float :=
  let name := String.ofList (body.map Char.toLower)
  if name = "inf" ∨ name = "infinity" then some (infinity false)
  else if name = "nan" then some notANumber
  else none

/-- The floating point number that a text holds. -/
def readFloat (text : Text) : Except Fault Float :=
  let number? : Option Float := do
    let (negative, body) := splitSign (inner (← text.chars?))
    let x ← readName? body <|> readSize? body
    return if negative then negate x else x
  match number? with
  | some x => .ok x
  | none => .error (.notFloat text)

end ApiLint.Numeral
