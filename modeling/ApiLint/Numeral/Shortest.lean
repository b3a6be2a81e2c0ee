import ApiLint.Numeral.Binary64

/-! The fewest digits that read back. Every decimal between the midpoints to the two neighbours of
a number reads as that number (the midpoints too, when its last bit is even). The digits are taken
from the coarsest decimal grid that has a point in this interval, and from two such points the
nearer one. -/
namespace ApiLint.Numeral

/-- A decimal in scientific form: the digits, the first of which is not zero, and the place of the
point: the value is `0.d₁d₂…` times ten to the power `point`. -/
structure Decimal where
  digits : List Char
  point : Int
  deriving DecidableEq, Repr

/-- The decimals that read as a number, as fractions over one denominator: the number itself, the
two ends, and whether the ends belong to it. -/
structure Interval where
  low : Nat
  value : Nat
  high : Nat
  den : Nat
  closed : Bool

/-- The interval of a number that is neither zero nor infinite. -/
def Dyadic.interval (d : Dyadic) : Interval :=
  let isPower := d.mantissa = twoTo 52 ∧ minExponent < d.exponent
  let up := if 2 ≤ d.exponent then twoTo (d.exponent - 2).toNat else 1
  let down := if 2 ≤ d.exponent then 1 else twoTo (2 - d.exponent).toNat
  { low := (4 * d.mantissa - if isPower then 1 else 2) * up
    value := 4 * d.mantissa * up
    high := (4 * d.mantissa + 2) * up
    den := down
    closed := d.mantissa % 2 = 0 }

/-- Whether a fraction lies in the interval. -/
def Interval.contains (i : Interval) (num den : Nat) : Bool :=
  let a := num * i.den
  if i.closed then i.low * den ≤ a && a ≤ i.high * den
  else i.low * den < a && a < i.high * den

/-- The place of the point of a positive fraction: the least `k` with the fraction below ten to
the power `k`. -/
def pointOf (num den : Nat) : Int :=
  ((Nat.toDigits 10 (num * tenTo 400 / den)).length : Int) - 400

/-- The point of the grid with `count` digits that lies in the interval and is nearest to the
value, as a multiple of ten to the power `point - count`. -/
def Interval.gridPoint? (i : Interval) (point : Int) (count : Nat) : Option Nat :=
  let step := point - count
  let num := if 0 ≤ step then 1 else tenTo (-step).toNat
  let den := if 0 ≤ step then tenTo step.toNat else 1
  -- the value in units of the grid is `value * num / (i.den * den)`
  let below := i.value * num / (i.den * den)
  let above := below + 1
  let fits (n : Nat) : Bool := i.contains (n * den) num
  let up := above * (i.den * den) - i.value * num
  let down := i.value * num - below * (i.den * den)
  match fits below, fits above with
  | true, true => some (if down < up ∨ (down = up ∧ below % 2 = 0) then below else above)
  | true, false => some below
  | false, true => some above
  | false, false => none

/-- The digits of a positive number without zeros at the end. -/
def significant (n : Nat) : List Char :=
  ((Nat.toDigits 10 n).reverse.dropWhile (· = '0')).reverse

/-- The coarsest grid with a point in the interval, tried from `count` digits on. -/
def Interval.search (i : Interval) (point : Int) : (count tries : Nat) → Decimal
  | count, 0 => ⟨significant (i.value * tenTo count / i.den), point⟩
  | count, tries + 1 =>
    match i.gridPoint? point count with
    | some n =>
      let digits := Nat.toDigits 10 n
      ⟨significant n, point - count + digits.length⟩
    | none => i.search point (count + 1) tries

/-- The fewest digits that read back as a number that is neither zero nor infinite. -/
def shortest (x : Float) : Decimal :=
  let i := (magnitude x).interval
  i.search (pointOf i.value i.den) 1 17

/-- The digits of a positive fraction rounded to `count` places, a half going to the even
neighbour. -/
def rounded (num den count : Nat) : Decimal :=
  let step := pointOf num den - count
  let n :=
    if 0 ≤ step then roundHalfEven num (den * tenTo step.toNat)
    else roundHalfEven (num * tenTo (-step).toNat) den
  ⟨significant n, step + (Nat.toDigits 10 n).length⟩

end ApiLint.Numeral
