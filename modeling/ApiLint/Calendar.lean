/-! Dates and times of day. A date is one of the Gregorian calendar in the years 1 to 9999; a time
may carry its distance from universal time. -/
namespace ApiLint.Calendar

/-- A day. -/
structure Date where
  year : Nat
  month : Nat
  day : Nat
  deriving DecidableEq, Repr, Inhabited

/-- A time of day, to the microsecond. -/
structure Time where
  hour : Nat
  minute : Nat
  second : Nat
  micro : Nat := 0
  deriving DecidableEq, Repr, Inhabited

/-- A time on a day, with the minutes that its clock is ahead of universal time, if it says so. -/
structure Moment where
  date : Date
  time : Time
  ahead : Option Int := none
  deriving DecidableEq, Repr, Inhabited

/-- Why numbers do not name a moment. -/
inductive Fault
  | year (given : Nat)
  | month
  | day
  | hour
  | minute
  | second
  /-- The clock is a day or more away from universal time, by so many minutes. -/
  | clock (ahead : Int)
  deriving DecidableEq, Repr

/-- A distance in time, in minutes, as whole days and the seconds that are left; what is zero is not
named. -/
def spanLiteral (minutes : Int) : String :=
  let days := minutes / 1440
  let seconds := minutes % 1440 * 60
  let parts := (if days = 0 then [] else [s!"days={days}"]) ++
    (if seconds = 0 then [] else [s!"seconds={seconds}"])
  let named := if parts.isEmpty then "0" else ", ".intercalate parts
  s!"datetime.timedelta({named})"

/-- The words for a fault. -/
def Fault.message : Fault → String
  | year given => s!"year {given} is out of range"
  | month => "month must be in 1..12"
  | day => "day is out of range for month"
  | hour => "hour must be in 0..23"
  | minute => "minute must be in 0..59"
  | second => "second must be in 0..59"
  | clock ahead => "offset must be a timedelta strictly between -timedelta(hours=24) and " ++
      s!"timedelta(hours=24), not {spanLiteral ahead}."

/-- Whether a year has a 29th of February. -/
def isLeapYear (year : Nat) : Bool :=
  year % 4 = 0 && (year % 100 ≠ 0 || year % 400 = 0)

def daysIn (year month : Nat) : Nat :=
  if month = 2 then (if isLeapYear year then 29 else 28)
  else if month = 4 ∨ month = 6 ∨ month = 9 ∨ month = 11 then 30
  else 31

def Date.fault? (d : Date) : Option Fault :=
  if d.year = 0 ∨ 9999 < d.year then some (.year d.year)
  else if d.month = 0 ∨ 12 < d.month then some .month
  else if d.day = 0 ∨ daysIn d.year d.month < d.day then some .day
  else none

def Time.fault? (t : Time) : Option Fault :=
  if 24 ≤ t.hour then some .hour
  else if 60 ≤ t.minute then some .minute
  else if 60 ≤ t.second then some .second
  else none

/-- The fault of a moment: the clock is looked at first, then the day, then the time. -/
def Moment.fault? (m : Moment) : Option Fault :=
  match m.ahead.filter (1440 ≤ ·.natAbs) with
  | some ahead => some (.clock ahead)
  | none => m.date.fault? <|> m.time.fault?

/-- The days from the first day of year 1 to a date. -/
def Date.dayNumber (d : Date) : Int :=
  let years : Int := d.year - 1
  let months := (List.range (d.month - 1)).map fun m => daysIn d.year (m + 1)
  years * 365 + years / 4 - years / 100 + years / 400 + (months.foldl (· + ·) 0 : Nat) + d.day - 1

/-- The microseconds from the start of year 1 to a moment, as its clock shows it. -/
def Moment.clockMicros (m : Moment) : Int :=
  let seconds : Int :=
    m.date.dayNumber * 86400 + m.time.hour * 3600 + m.time.minute * 60 + m.time.second
  seconds * 1000000 + m.time.micro

/-- Whether two moments are the same: both are clock readings without a known distance from
universal time, or both are the same instant. -/
def Moment.same (a b : Moment) : Bool :=
  match a.ahead, b.ahead with
  | none, none => a.clockMicros = b.clockMicros
  | some x, some y => a.clockMicros - x * 60000000 = b.clockMicros - y * 60000000
  | _, _ => false

def padded (width n : Nat) : String :=
  let digits := Nat.toDigits 10 n
  String.ofList (List.replicate (width - digits.length) '0' ++ digits)

def Date.text (d : Date) : String :=
  s!"{padded 4 d.year}-{padded 2 d.month}-{padded 2 d.day}"

/-- A time of day; microseconds are written only when there are any. -/
def Time.text (t : Time) : String :=
  let base := s!"{padded 2 t.hour}:{padded 2 t.minute}:{padded 2 t.second}"
  if t.micro = 0 then base else s!"{base}.{padded 6 t.micro}"

/-- The distance from universal time, as hours and minutes with a sign. -/
def aheadText (minutes : Int) : String :=
  let sign := if minutes < 0 then "-" else "+"
  s!"{sign}{padded 2 (minutes.natAbs / 60)}:{padded 2 (minutes.natAbs % 60)}"

/-- A moment, with a separator between its date and its time. -/
def Moment.text (separator : String) (m : Moment) : String :=
  m.date.text ++ separator ++ m.time.text ++ (m.ahead.map aheadText).getD ""

/-- The fields of a time that a constructed value names: seconds and microseconds only when they
or a later field is not zero. -/
def Time.fields (t : Time) : List Nat :=
  [t.hour, t.minute] ++
    (if t.second ≠ 0 ∨ t.micro ≠ 0 then [t.second] else []) ++
    (if t.micro ≠ 0 then [t.micro] else [])

def listed (ns : List Nat) : String :=
  ", ".intercalate (ns.map fun n => toString n)

def Date.fields (d : Date) : List Nat :=
  [d.year, d.month, d.day]

/-- A clock's distance from universal time, as a constructed value. A negative one counts back
from the day before. -/
def aheadLiteral (minutes : Int) : String :=
  if minutes = 0 then "datetime.timezone.utc"
  else s!"datetime.timezone({spanLiteral minutes})"

def Date.literal (d : Date) : String :=
  s!"datetime.date({listed d.fields})"

def Time.literal (t : Time) : String :=
  s!"datetime.time({listed t.fields})"

def Moment.literal (m : Moment) : String :=
  let zone := (m.ahead.map fun a => s!", tzinfo={aheadLiteral a}").getD ""
  s!"datetime.datetime({listed (m.date.fields ++ m.time.fields)}{zone})"

end ApiLint.Calendar
