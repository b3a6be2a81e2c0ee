import ApiLint.Toml.Text
import ApiLint.Value

/-! Numbers, dates and times as TOML writes them. -/
namespace ApiLint.Toml

def isDigit (c : Char) : Bool :=
  '0' ≤ c && c ≤ '9'

/-- A row of digits with single underscores between them, and what follows it. A digit must stand
in front of the row or at its start. -/
def digitRow (p : Char → Bool) : List Char → List Char × List Char
  | '_' :: c :: rest =>
    if p c then
      let (digits, rest) := digitRow p rest
      (c :: digits, rest)
    else ([], '_' :: c :: rest)
  | c :: rest =>
    if p c then
      let (digits, rest) := digitRow p rest
      (c :: digits, rest)
    else ([], c :: rest)
  | [] => ([], [])

/-- A row of digits that starts here, if one does. -/
def digitRow? (p : Char → Bool) (cs : List Char) : Option (List Char × List Char) :=
  if cs.head?.any p then some (digitRow p cs) else none

def digitValues (cs : List Char) : List Nat :=
  cs.filterMap Text.hexValue?

def valueOf (base : Nat) (cs : List Char) : Nat :=
  Numeral.ofDigits base (digitValues cs)

/-- A whole number with the mark of a base, if one starts here. -/
def readBased? (cs : List Char) : Option (Value × List Char) :=
  let row (base : Nat) (p : Char → Bool) (cs : List Char) : Option (Value × List Char) :=
    (digitRow? p cs).map fun (digits, rest) => (.int (valueOf base digits), rest)
  match cs with
  | '0' :: 'x' :: rest => row 16 (fun c => (Text.hexValue? c).isSome) rest
  | '0' :: 'b' :: rest => row 2 (fun c => c = '0' || c = '1') rest
  | '0' :: 'o' :: rest => row 8 (fun c => '0' ≤ c && c ≤ '7') rest
  | _ => none

/-- The digits in front of the point: zero alone, or a row that starts with another digit. -/
def readWhole? : List Char → Option (List Char × List Char)
  | '0' :: rest => some (['0'], rest)
  | cs => digitRow? isDigit cs

/-- The digits behind a point, if a point with digits starts here. -/
def readFraction? : List Char → Option (List Char × List Char)
  | '.' :: rest => digitRow? isDigit rest
  | _ => none

/-- An exponent, if one starts here. -/
def readExponent? : List Char → Option (Int × List Char)
  | e :: rest =>
    if e = 'e' ∨ e = 'E' then
      let (negative, rest) := Numeral.splitSign rest
      (digitRow? isDigit rest).map fun (digits, rest) =>
        let n : Int := (valueOf 10 digits : Nat)
        (if negative then -n else n, rest)
    else none
  | [] => none

/-- A decimal number, whole or not, if one starts here. -/
def readDecimal? (cs : List Char) : Option (Except Fault (Value × List Char)) := do
  let (negative, body) := Numeral.splitSign cs
  let (whole, rest) ← readWhole? body
  match readFraction? rest, readExponent? ((readFraction? rest).elim rest (·.2)) with
  | none, none =>
    if Numeral.digitLimit < whole.length then
      return .error (.number (.tooLong whole.length))
    let n : Int := (valueOf 10 whole : Nat)
    return .ok (.int (if negative then -n else n), rest)
  | fraction, exponent =>
    let x := Numeral.decimalSize (digitValues whole) (digitValues (fraction.elim [] (·.1)))
      (exponent.elim 0 (·.1))
    let rest := exponent.elim (fraction.elim rest (·.2)) (·.2)
    return .ok (.float (if negative then Numeral.negate x else x), rest)

/-- One of the numbers that have no digits, if one starts here. -/
def readNamed? (cs : List Char) : Option (Value × List Char) :=
  match Numeral.splitSign cs with
  | (negative, 'i' :: 'n' :: 'f' :: rest) => some (.float (Numeral.infinity negative), rest)
  | (_, 'n' :: 'a' :: 'n' :: rest) => some (.nan (.scalar 0 0), rest)
  | _ => none

/-- A number of exactly so many digits within bounds, and what follows it. -/
def readField? (width least most : Nat) (cs : List Char) : Option (Nat × List Char) :=
  let digits := cs.take width
  let n := valueOf 10 digits
  if digits.length = width && digits.all isDigit && least ≤ n && n ≤ most then
    some (n, cs.drop width)
  else none

def dropSign (sign : Char) : List Char → Option (List Char)
  | c :: rest => if c = sign then some rest else none
  | [] => none

/-- A time of day, if one starts here. Of a fraction six digits count. -/
def readTime? (cs : List Char) : Option (Calendar.Time × List Char) := do
  let (hour, cs) ← readField? 2 0 23 cs
  let (minute, cs) ← readField? 2 0 59 (← dropSign ':' cs)
  let (second, cs) ← readField? 2 0 59 (← dropSign ':' cs)
  let (fraction, cs) :=
    match cs with
    | '.' :: c :: rest => if isDigit c then (c :: rest).span isDigit else ([], cs)
    | cs => ([], cs)
  let micro := valueOf 10 ((fraction ++ List.replicate 6 '0').take 6)
  return (⟨hour, minute, second, micro⟩, cs)

/-- The distance from universal time, if one starts here. -/
def readZone? : List Char → Option (Int × List Char)
  | 'Z' :: rest | 'z' :: rest => some (0, rest)
  | sign :: rest => do
    if sign ≠ '+' ∧ sign ≠ '-' then failure
    let (hours, rest) ← readField? 2 0 23 rest
    let (minutes, rest) ← readField? 2 0 59 (← dropSign ':' rest)
    let ahead : Int := (hours * 60 + minutes : Nat)
    return (if sign = '-' then -ahead else ahead, rest)
  | [] => none

/-- A time of day behind a date, if one starts here. -/
def readClock? : List Char → Option (Calendar.Time × List Char)
  | c :: rest => if c = 'T' || c = 't' || c = ' ' then readTime? rest else none
  | [] => none

/-- The numbers of a date, if one starts here. -/
def readDate? (cs : List Char) : Option (Calendar.Date × List Char) := do
  let (year, cs) ← readField? 4 0 9999 cs
  let (month, cs) ← readField? 2 1 12 (← dropSign '-' cs)
  let (day, cs) ← readField? 2 1 31 (← dropSign '-' cs)
  return (⟨year, month, day⟩, cs)

/-- A date, with a time behind it or without, if one starts here. The day must exist. -/
def readMoment? (cs : List Char) : Option (Except Fault (Value × List Char)) := do
  let (date, rest) ← readDate? cs
  if date.fault?.isSome then return .error .malformed
  match readClock? rest with
  | none => return .ok (.date date, rest)
  | some (time, rest) =>
    match readZone? rest with
    | none => return .ok (.moment ⟨date, time, none⟩, rest)
    | some (ahead, rest) => return .ok (.moment ⟨date, time, some ahead⟩, rest)

end ApiLint.Toml
