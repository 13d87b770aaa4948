import SourceShelf.Decimal.Binary

/-!
# Shortest decimals

A `Float` is written with the fewest digits that read back as the same
`Float`; of those with as few digits the nearest is taken.  Numbers from
`0.0001` up to below `10 ^ 16` are written with a point, all others with an
exponent.
-/

namespace SourceShelf.Decimal

/-- The numbers that round to `mantissa · 2 ^ exponent`, in quarters of the
step below it: the ends, and whether they belong to it. -/
structure RoundingInterval where
  low : Nat
  high : Nat
  exponent : Int
  closed : Bool

/-- The interval of a number.  Below a power of two the steps are half as
large. -/
def RoundingInterval.of (mantissa : Nat) (exponent : Int) : RoundingInterval where
  low := 4 * mantissa - if mantissa = twoTo 52 && exponent ≠ -1074 then 1 else 2
  high := 4 * mantissa + 2
  exponent := exponent - 2
  closed := mantissa % 2 = 0

/-- True when `n · 10 ^ power` lies in the interval. -/
def RoundingInterval.contains (i : RoundingInterval) (n : Nat) (power : Int) : Bool :=
  let value := n * tenTo power.toNat * twoTo (-i.exponent).toNat
  let unit := tenTo (-power).toNat * twoTo i.exponent.toNat
  if i.closed then i.low * unit ≤ value && value ≤ i.high * unit
  else i.low * unit < value && value < i.high * unit

/-- The least `k` with the quotient below `10 ^ k`, searched upward. -/
def decimalPoint (num den : Nat) : Int :=
  let guess : Int := ((num.log2 : Int) - den.log2 - 2) * 30103 / 100000 - 1
  go 8 guess
where
  go : Nat → Int → Int
    | 0, k => k
    | n + 1, k =>
      if num * tenTo (-k).toNat < den * tenTo k.toNat then k else go n (k + 1)

/-- The number with `count` digits that lies in the interval and is nearest to
the quotient. -/
def candidate? (i : RoundingInterval) (num den : Nat) (power : Int) : Option Nat :=
  let top := num * tenTo (-power).toNat
  let unit := den * tenTo power.toNat
  let below := top / unit
  let near := roundDiv top unit
  let far := if near = below then below + 1 else below
  if i.contains near power then some near
  else if i.contains far power then some far
  else none

/-- The digits of the shortest decimal and the place of its point: the digits
`123` with the point at `1` are `1.23`. -/
def shortest (mantissa : Nat) (exponent : Int) : Nat × Int :=
  let (num, den) := Binary.quotient mantissa exponent
  let point := decimalPoint num den
  let interval := RoundingInterval.of mantissa exponent
  let found := (List.range 17).findSome? fun count =>
    let power := point - (count + 1 : Nat)
    (candidate? interval num den power).map fun n =>
      (n, power + (Nat.toDigits 10 n).length)
  found.getD (mantissa, point)

/-- Digits without the zeros at their end. -/
def significant (n : Nat) : List Char :=
  let digits := (Nat.toDigits 10 n).reverse.dropWhile (· = '0')
  digits.reverse

/-- Zeros. -/
def zeroDigits (n : Nat) : List Char := List.replicate n '0'

/-- Digits with a point in or around them. -/
def positional (digits : List Char) (point : Int) : List Char :=
  if point ≤ 0 then '0' :: '.' :: (zeroDigits (-point).toNat ++ digits)
  else
    let whole := digits.take point.toNat
    let fraction := digits.drop point.toNat
    whole ++ zeroDigits (point.toNat - digits.length) ++
      '.' :: (if fraction.isEmpty then ['0'] else fraction)

/-- Digits with a point behind the first of them and an exponent of at least
two digits. -/
def scientific (digits : List Char) (point : Int) : List Char :=
  let exponent := point - 1
  let size := Nat.toDigits 10 exponent.natAbs
  digits.take 1 ++ (if digits.length ≤ 1 then [] else '.' :: digits.drop 1) ++
    'e' :: (if exponent < 0 then '-' else '+') :: (zeroDigits (2 - size.length) ++ size)

/-- The text of a number. -/
def text (x : Float) : String :=
  match Binary.ofFloat x with
  | .nan => "nan"
  | .infinite negative => if negative then "-inf" else "inf"
  | .finite negative mantissa exponent =>
    let mark := if negative then ['-'] else []
    if mantissa = 0 then String.ofList (mark ++ ['0', '.', '0'])
    else
      let (n, point) := shortest mantissa exponent
      let digits := significant n
      let body :=
        if -4 < point && point ≤ 16 then positional digits point else scientific digits point
      String.ofList (mark ++ body)

end SourceShelf.Decimal
