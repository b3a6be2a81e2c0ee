import ApiLint.Calendar
import ApiLint.Numeral.Reading

/-! Dates and times as YAML writes them: a date, or a date and a time of day with a fraction of a
second and a distance from universal time that may both be missing. -/
namespace ApiLint.Yaml

def isDigit (c : Char) : Bool :=
  '0' ≤ c && c ≤ '9'

def digitsValue (cs : List Char) : Nat :=
  cs.foldl (fun n c => n * 10 + (c.toNat - 0x30)) 0

/-- The next digits, at least `least` and at most `most` of them, and what follows. -/
def takeDigits (least most : Nat) (cs : List Char) : Option (List Char × List Char) :=
  let digits := (cs.take most).takeWhile isDigit
  if digits.length < least then none else some (digits, cs.drop digits.length)

def dropSign (sign : Char) : List Char → Option (List Char)
  | c :: rest => if c = sign then some rest else none
  | [] => none

/-- A date or a time as it is written. -/
structure Stamp where
  date : Calendar.Date
  /-- Whether month and day have two digits each. -/
  padded : Bool
  time : Option Calendar.Time
  ahead : Option Int

/-- A time of day as hours, minutes and seconds, and what follows it. -/
def readClock (cs : List Char) : Option (Calendar.Time × List Char) := do
  let (hour, cs) ← takeDigits 1 2 cs
  let (minute, cs) ← takeDigits 2 2 (← dropSign ':' cs)
  let (second, cs) ← takeDigits 2 2 (← dropSign ':' cs)
  let (fraction, cs) :=
    match cs with
    | '.' :: cs => cs.span isDigit
    | cs => ([], cs)
  let micro := digitsValue ((fraction ++ List.replicate 6 '0').take 6)
  return (⟨digitsValue hour, digitsValue minute, digitsValue second, micro⟩, cs)

/-- The minutes that a clock is ahead of universal time, if all that is left of a text says so. -/
def readZone (cs : List Char) : Option (Option Int) :=
  match cs.dropWhile fun c => c = ' ' || c = '\t' with
  | [] => if cs.isEmpty then some none else none
  | ['Z'] => some (some 0)
  | sign :: cs => do
    if sign ≠ '-' ∧ sign ≠ '+' then failure
    let (hours, cs) ← takeDigits 1 2 cs
    let minutes ←
      match cs with
      | [] => some 0
      | cs => do
        let (minutes, cs) ← takeDigits 2 2 (← dropSign ':' cs)
        if cs.isEmpty then some (digitsValue minutes) else none
    let ahead : Int := (digitsValue hours * 60 + minutes : Nat)
    return some (if sign = '-' then -ahead else ahead)

/-- What parts a date from a time: the letter T, or blanks. -/
def dropDateEnd : List Char → Option (List Char)
  | 'T' :: rest | 't' :: rest => some rest
  | cs =>
    let rest := cs.dropWhile fun c => c = ' ' || c = '\t'
    if rest.length = cs.length then none else some rest

/-- The date or time that a text is. -/
def readStamp (cs : List Char) : Option Stamp := do
  let (year, cs) ← takeDigits 4 4 cs
  let (month, cs) ← takeDigits 1 2 (← dropSign '-' cs)
  let (day, cs) ← takeDigits 1 2 (← dropSign '-' cs)
  let date : Calendar.Date := ⟨digitsValue year, digitsValue month, digitsValue day⟩
  let padded : Bool := month.length = 2 && day.length = 2
  if cs.isEmpty then return ⟨date, padded, none, none⟩
  let (time, cs) ← readClock (← dropDateEnd cs)
  return ⟨date, padded, some time, ← readZone cs⟩

end ApiLint.Yaml
