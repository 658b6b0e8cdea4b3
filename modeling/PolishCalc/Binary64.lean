import PolishCalc.Numeral

namespace PolishCalc

/-- A floating-point number of 64 bits. A finite one is `mantissa * 2 ^ exponent` up to its sign,
where the mantissa is below `2 ^ 53` and the exponent is as small as this allows, but at least
`-1074`. -/
inductive Binary64
  | finite (negative : Bool) (mantissa : Nat) (exponent : Int)
  | infinite (negative : Bool)
  | nan
  deriving DecidableEq, Repr

namespace Binary64

/-- The quotient rounded to the nearest natural number, ties to the even one. -/
def roundDiv (num den : Nat) : Nat :=
  let q := num / den
  let twice := 2 * (num % den)
  if twice < den then q else if den < twice then q + 1 else q + q % 2

/-- `num * 2 ^ shift` as a fraction without negative powers. -/
def scaled (num den : Nat) (base : Nat) (shift : Int) : Nat × Nat :=
  if 0 ≤ shift then (num * base.pow shift.toNat, den) else (num, den * base.pow (-shift).toNat)

/-- The number nearest to a positive fraction. -/
def ofFraction (negative : Bool) (num den : Nat) : Binary64 :=
  let guess : Int := (num.log2 : Int) - (den.log2 : Int) - 53
  let mantissaAt (exponent : Int) : Nat :=
    let (n, d) := scaled num den 2 (-exponent)
    roundDiv n d
  let low : Int := max guess (-1074)
  let exponent := if mantissaAt low ≤ Nat.pow 2 53 then low else low + 1
  let mantissa := mantissaAt exponent
  let (mantissa, exponent) :=
    if mantissa = Nat.pow 2 53 then (Nat.pow 2 52, exponent + 1) else (mantissa, exponent)
  if 971 < exponent then .infinite negative else .finite negative mantissa exponent

/-- The number nearest to `digits * 10 ^ power`. Powers far out of range need no computation. -/
def ofDecimal (negative : Bool) (digits : Nat) (power : Int) : Binary64 :=
  let size : Int := digits.repr.length + power
  if digits = 0 || size < -400 then .finite negative 0 (-1074)
  else if 400 < size then .infinite negative
  else
    let (num, den) := scaled digits 1 10 power
    ofFraction negative num den

/-- The decimal `coefficient * 10 ^ power`. -/
structure Scientific where
  coefficient : Nat
  power : Int
  deriving DecidableEq, Repr

/-- A positive number and the ends of the interval of numbers that round to it, over a common
denominator. -/
structure Neighbourhood where
  low : Nat
  value : Nat
  high : Nat
  den : Nat
  closed : Bool

/-- Halfway to the neighbours on both sides; below a power of two the neighbour is nearer. -/
def neighbourhood (mantissa : Nat) (exponent : Int) : Neighbourhood :=
  let lowStep := if mantissa = Nat.pow 2 52 && -1074 < exponent then 1 else 2
  let (unit, den) := scaled 1 4 2 exponent
  ⟨(4 * mantissa - lowStep) * unit, 4 * mantissa * unit, (4 * mantissa + 2) * unit, den,
    mantissa % 2 = 0⟩

/-- Whether `num / den` rounds to the number. -/
def Neighbourhood.accepts (h : Neighbourhood) (num den : Nat) : Bool :=
  if h.closed then h.low * den ≤ num * h.den && num * h.den ≤ h.high * den
  else h.low * den < num * h.den && num * h.den < h.high * den

/-- The place of the point: the least power of ten above the number, found from a guess. -/
def pointOf (value den : Nat) : Int :=
  let below (p : Int) : Bool :=
    let (n, d) := scaled 1 1 10 p
    value * d < n * den
  let guess : Int := (value.repr.length : Int) - (den.repr.length : Int)
  if below guess then guess else guess + 1

/-- The nearest decimal of `count` digits, if one of that length rounds to the number. -/
def Neighbourhood.decimal? (h : Neighbourhood) (point : Int) (count : Nat) : Option Scientific :=
  let power : Int := point - count
  let (num, den) := scaled h.value h.den 10 (-power)
  let nearest := roundDiv num den
  let other := if nearest = num / den then nearest + 1 else num / den
  let fits (d : Nat) : Bool :=
    let (n, m) := scaled d 1 10 power
    h.accepts n m
  if fits nearest then some ⟨nearest, power⟩
  else if fits other then some ⟨other, power⟩
  else none

/-- The shortest decimal that rounds to the number; seventeen digits are always enough. -/
def shortest (mantissa : Nat) (exponent : Int) : Scientific :=
  let h := neighbourhood mantissa exponent
  let point := pointOf h.value h.den
  ((List.range 17).findSome? fun k => h.decimal? point (k + 1)).getD ⟨mantissa, exponent⟩

/-- Digits without zeros at the end. -/
def trimmed (cs : List Char) : List Char :=
  (cs.reverse.dropWhile (· = '0')).reverse

/-- The exponent has a sign and at least two digits. -/
def exponentText (e : Int) : String :=
  let digits := e.natAbs.repr
  (if e < 0 then "e-" else "e+") ++ (if digits.length < 2 then "0" else "") ++ digits

/-- Positional from 0.0001 up to sixteen digits before the point, with at least one digit after
it; otherwise with an exponent. -/
def layout (digits : List Char) (point : Int) : String :=
  if -4 < point && point ≤ 16 then
    if point ≤ 0 then
      "0." ++ String.ofList (List.replicate (-point).toNat '0' ++ digits)
    else
      let whole := digits.take point.toNat
      let rest := digits.drop point.toNat
      String.ofList (whole ++ List.replicate (point.toNat - whole.length) '0') ++ "." ++
        (if rest.isEmpty then "0" else String.ofList rest)
  else
    String.ofList (digits.take 1) ++
      (if digits.length ≤ 1 then "" else "." ++ String.ofList (digits.drop 1)) ++
      exponentText (point - 1)

/-- The shortest text that reads back as the number. -/
def text : Binary64 → String
  | .nan => "nan"
  | .infinite negative => if negative then "-inf" else "inf"
  | .finite negative mantissa exponent =>
    (if negative then "-" else "") ++
      if mantissa = 0 then "0.0"
      else
        let d := shortest mantissa exponent
        let digits := d.coefficient.repr.toList
        layout (trimmed digits) (d.power + digits.length)

end Binary64

end PolishCalc
