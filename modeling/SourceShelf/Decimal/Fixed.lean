import SourceShelf.Decimal.Binary

/-!
# Decimals with a fixed number of places

A number is rounded to a number of places behind the point; a tie goes to the
even digit.
-/

namespace SourceShelf.Decimal

/-- The text of a number with `places` digits behind the point. -/
def fixed (places : Nat) (x : Float) : String :=
  match Binary.ofFloat x with
  | .nan => "nan"
  | .infinite negative => if negative then "-inf" else "inf"
  | .finite negative mantissa exponent =>
    let (num, den) := Binary.quotient mantissa exponent
    let n := roundDiv (num * tenTo places) den
    let digits := Nat.toDigits 10 n
    let digits := List.replicate (places + 1 - digits.length) '0' ++ digits
    let whole := digits.take (digits.length - places)
    let fraction := digits.drop (digits.length - places)
    String.ofList ((if negative then ['-'] else []) ++ whole ++
      if places = 0 then [] else '.' :: fraction)

end SourceShelf.Decimal
