/-! Floating point numbers and exact fractions. A finite number is a whole number times a power
of two; reading goes the other way and picks the number nearest to a fraction, the one with an
even last bit when two are equally near. -/
namespace ApiLint.Numeral

def twoTo (n : Nat) : Nat := Nat.pow 2 n

def tenTo (n : Nat) : Nat := Nat.pow 10 n

/-- The smallest exponent of a 64-bit number. -/
def minExponent : Int := -1074

/-- The whole number `mantissa` times two to the power `exponent`. -/
structure Dyadic where
  mantissa : Nat
  exponent : Int
  deriving DecidableEq, Repr

/-- Whether the sign bit is set. -/
def isNegative (x : Float) : Bool :=
  x.toBits.toNat ≥ twoTo 63

/-- The size of a finite number, as the whole number and the power of two that it is stored as. -/
def magnitude (x : Float) : Dyadic :=
  let bits := x.toBits.toNat % twoTo 63
  let stored : Nat := bits / twoTo 52
  let low := bits % twoTo 52
  if stored = 0 then ⟨low, minExponent⟩ else ⟨twoTo 52 + low, (stored : Int) - 1 + minExponent⟩

/-- A number times a power of two, as a fraction. -/
def Dyadic.fraction (d : Dyadic) : Nat × Nat :=
  if 0 ≤ d.exponent then (d.mantissa * twoTo d.exponent.toNat, 1)
  else (d.mantissa, twoTo (-d.exponent).toNat)

/-- The whole number nearest to a fraction; a half goes to the even neighbour. -/
def roundHalfEven (num den : Nat) : Nat :=
  let q := num / den
  let r := num % den
  if 2 * r > den ∨ (2 * r = den ∧ q % 2 = 1) then q + 1 else q

/-- The exponent that leaves a fraction with 53 bits, or the smallest one there is. -/
def fittingExponent (num den : Nat) : Int :=
  let guess : Int := (num.log2 : Int) - den.log2 - 52
  let small : Bool :=
    if 0 ≤ guess then num < den * twoTo (guess.toNat + 52)
    else num * twoTo (-guess).toNat < den * twoTo 52
  max minExponent (if small then guess - 1 else guess)

/-- The number nearest to a positive fraction; infinity when the fraction is too large. -/
def nearest (num den : Nat) : Float :=
  if num = 0 then 0.0
  else
    let exponent := fittingExponent num den
    let mantissa :=
      if 0 ≤ exponent then roundHalfEven num (den * twoTo exponent.toNat)
      else roundHalfEven (num * twoTo (-exponent).toNat) den
    let bits := (exponent - minExponent).toNat * twoTo 52 + mantissa
    Float.ofBits (UInt64.ofNat (min bits 0x7FF0000000000000))

/-- The number nearest to `digits` times ten to the power `exponent`. Powers far outside the range
of the numbers are not worked out. -/
def ofDecimal (digits : Nat) (exponent : Int) : Float :=
  let size : Int := exponent + digits.log2 * 3 / 10
  if digits = 0 ∨ size < -400 then 0.0
  else if size > 400 then Float.ofBits 0x7FF0000000000000
  else if 0 ≤ exponent then nearest (digits * tenTo exponent.toNat) 1
  else nearest digits (tenTo (-exponent).toNat)

/-- Infinity, with a sign. -/
def infinity (negative : Bool) : Float :=
  if negative then Float.ofBits 0xFFF0000000000000 else Float.ofBits 0x7FF0000000000000

def notANumber : Float :=
  Float.ofBits 0x7FF8000000000000

def negate (x : Float) : Float :=
  Float.ofBits (x.toBits ^^^ 0x8000000000000000)

/-- The whole part of a finite number, without its fraction. -/
def truncate (x : Float) : Int :=
  let (num, den) := (magnitude x).fraction
  let whole : Int := (num / den : Nat)
  if isNegative x then -whole else whole

/-- Whether a finite number has exactly the value of a whole number. -/
def hasValue (x : Float) (n : Int) : Bool :=
  x.isFinite && truncate x = n &&
    (let (num, den) := (magnitude x).fraction; num % den = 0)

end ApiLint.Numeral
