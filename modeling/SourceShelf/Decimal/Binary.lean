/-!
# Binary floating point as exact numbers

A finite `Float` is `± mantissa · 2 ^ exponent`.  `Binary.ofFloat` takes one
apart; `nearest` gives the `Float` next to a quotient of natural numbers, a
tie going to the even mantissa.
-/

namespace SourceShelf.Decimal

/-- A power of two. -/
def twoTo (k : Nat) : Nat := Nat.pow 2 k

/-- A power of ten. -/
def tenTo (k : Nat) : Nat := Nat.pow 10 k

/-- What a `Float` stands for. -/
inductive Binary where
  | nan
  | infinite (negative : Bool)
  | finite (negative : Bool) (mantissa : Nat) (exponent : Int)
deriving DecidableEq, Repr, Inhabited

namespace Binary

/-- The number that a `Float` stands for. -/
def ofFloat (x : Float) : Binary :=
  let bits := x.toBits.toNat
  let negative := bits / twoTo 63 = 1
  let scale : Nat := bits / twoTo 52 % twoTo 11
  let fraction : Nat := bits % twoTo 52
  if scale = 2047 then if fraction = 0 then infinite negative else nan
  else if scale = 0 then finite negative fraction (-1074)
  else finite negative (twoTo 52 + fraction) ((scale : Int) - 1075)

/-- Numerator and denominator of `mantissa · 2 ^ exponent`. -/
def quotient (mantissa : Nat) (exponent : Int) : Nat × Nat :=
  (mantissa * twoTo exponent.toNat, twoTo (-exponent).toNat)

end Binary

/-- Divides and rounds to the nearest number, a tie going to the even one. -/
def roundDiv (num den : Nat) : Nat :=
  let q := num / den
  let r := num % den
  if 2 * r < den then q else if den < 2 * r then q + 1 else q + q % 2

/-- A quotient divided by `2 ^ exponent` and rounded. -/
def scaled (num den : Nat) (exponent : Int) : Nat :=
  roundDiv (num * twoTo (-exponent).toNat) (den * twoTo exponent.toNat)

/-- The exponent of the mantissa of `53` bits, or the least exponent there is. -/
def mantissaExponent (num den : Nat) : Int :=
  let guess : Int := (num.log2 : Int) - den.log2 - 53
  let exponent := if scaled num den guess < twoTo 53 then guess else guess + 1
  max exponent (-1074)

/-- The bits of the `Float` nearest to a quotient, without its sign. -/
def nearestBits (num den : Nat) : Nat :=
  if num = 0 then 0
  else
    let exponent := mantissaExponent num den
    let mantissa := scaled num den exponent
    let (mantissa, exponent) :=
      if mantissa = twoTo 53 then (twoTo 52, exponent + 1) else (mantissa, exponent)
    if 971 < exponent then 2047 * twoTo 52
    else if mantissa < twoTo 52 then mantissa
    else (exponent + 1074).toNat * twoTo 52 + mantissa

/-- The `Float` nearest to a quotient with a sign. -/
def nearest (negative : Bool) (num den : Nat) : Float :=
  Float.ofBits (nearestBits num den + if negative then twoTo 63 else 0).toUInt64

/-- The `Float` nearest to a whole number. -/
def nearestInt (n : Int) : Float := nearest (n < 0) n.natAbs 1

/-- The `Float` nearest to `± digits · 10 ^ exponent`.  Exponents far outside
the range of a `Float` are cut to its ends. -/
def nearestDecimal (negative : Bool) (digits : Nat) (exponent : Int) : Float :=
  let size : Int := (Nat.toDigits 10 digits).length + exponent
  if digits = 0 || size < -400 then nearest negative 0 1
  else if 400 < size then nearest negative (tenTo 400) 1
  else nearest negative (digits * tenTo exponent.toNat) (tenTo (-exponent).toNat)

/-- A number without its fraction. -/
def truncate (negative : Bool) (mantissa : Nat) (exponent : Int) : Int :=
  let (num, den) := Binary.quotient mantissa exponent
  if negative then -(num / den : Nat) else (num / den : Nat)

end SourceShelf.Decimal
