import ApiLint.Numeral.Shortest

/-! How a floating point number is written: positionally when its size allows it, and with an
exponent of at least two digits otherwise. -/
namespace ApiLint.Numeral

/-- The choices of a written form: the sizes (as the exponent of the first digit) that are written
positionally, and whether a whole number keeps `.0`. -/
structure Layout where
  least : Int
  limit : Int
  wholePoint : Bool

/-- Numbers in messages and data: positional from 0.0001 up to ten to the power 16. -/
def plainLayout : Layout := ⟨-4, 16, true⟩

/-- Numbers of seconds: six significant digits, positional below a million. -/
def secondsLayout : Layout := ⟨-4, 6, false⟩

/-- An exponent: its sign and at least two digits. -/
def exponentText (e : Int) : List Char :=
  let digits := Nat.toDigits 10 e.natAbs
  (if e < 0 then '-' else '+') :: (if digits.length < 2 then '0' :: digits else digits)

/-- A decimal in positional form. -/
def positional (wholePoint : Bool) (d : Decimal) : List Char :=
  if d.point ≤ 0 then
    '0' :: '.' :: List.replicate (-d.point).toNat '0' ++ d.digits
  else if d.digits.length ≤ d.point.toNat then
    d.digits ++ List.replicate (d.point.toNat - d.digits.length) '0' ++
      (if wholePoint then ['.', '0'] else [])
  else d.digits.take d.point.toNat ++ '.' :: d.digits.drop d.point.toNat

/-- A decimal with one digit before the point and an exponent. -/
def scientific (d : Decimal) : List Char :=
  let lead := d.digits.take 1
  let rest := d.digits.drop 1
  lead ++ (if rest.isEmpty then [] else '.' :: rest) ++ 'e' :: exponentText (d.point - 1)

/-- A decimal as a layout writes it. -/
def Layout.write (l : Layout) (d : Decimal) : List Char :=
  if l.least ≤ d.point - 1 ∧ d.point - 1 < l.limit then positional l.wholePoint d
  else scientific d

/-- A number as a layout writes it, with the digits that `digitsOf` gives for a finite number
other than zero. -/
def Layout.render (l : Layout) (digitsOf : Float → Decimal) (x : Float) : String :=
  if x.isNaN then "nan"
  else
    let sign := if isNegative x then ['-'] else []
    let body :=
      if x.isInf then ['i', 'n', 'f']
      else if (magnitude x).mantissa = 0 then '0' :: (if l.wholePoint then ['.', '0'] else [])
      else l.write (digitsOf x)
    String.ofList (sign ++ body)

/-- A number with the fewest digits that read back. -/
def floatText (x : Float) : String :=
  plainLayout.render shortest x

/-- A number of seconds with six significant digits. -/
def secondsText (x : Float) : String :=
  secondsLayout.render (fun y => let (num, den) := (magnitude y).fraction; rounded num den 6) x

end ApiLint.Numeral
