import SourceShelf.Decimal.Binary
import SourceShelf.Text.Blank
import SourceShelf.Text.Digits
import SourceShelf.Text.Quoted

/-!
# Reading numbers

The numbers that a user writes.  Blanks may stand around a number and single
underscores between its digits; the digits of every script count.  `whole?`
reads a whole number, `real?` one that may have a point, an exponent, or no
end.
-/

namespace SourceShelf.Decimal

/-- Why a text is no whole number. -/
inductive NumeralError where
  | invalid (text : String)
  | tooLong (digits : Nat)
deriving DecidableEq, Repr, Inhabited

/-- The most digits that a whole number may have. -/
def maxDigits : Nat := 4300

/-- The text of the error. -/
def NumeralError.message : NumeralError → String
  | invalid t => "invalid literal for int() with base 10: " ++ quoted t
  | tooLong n =>
    "Exceeds the limit (" ++ toString maxDigits ++
      " digits) for integer string conversion: value has " ++ toString n ++
      " digits; use sys.set_int_max_str_digits() to increase the limit"

/-- Blanks that may stand around a number. -/
def isMargin (c : Char) : Bool := isBlank c && !(0x1C ≤ c.toNat && c.toNat ≤ 0x1F)

/-- A text without the blanks around it, in characters. -/
def trimMargins (s : String) : List Char :=
  ((s.toList.dropWhile isMargin).reverse.dropWhile isMargin).reverse

/-- A sign and what follows it. -/
def splitSign : List Char → Bool × List Char
  | '-' :: cs => (true, cs)
  | '+' :: cs => (false, cs)
  | cs => (false, cs)

/-- The digits at the start of a text and what follows them.  An underscore
counts only between two digits. -/
def digitRun : List Char → List Nat × List Char
  | [] => ([], [])
  | c :: cs =>
    match digitValue? c with
    | none => ([], c :: cs)
    | some d =>
      match cs with
      | '_' :: e :: rest =>
        if (digitValue? e).isSome then
          let (ds, rest) := digitRun (e :: rest)
          (d :: ds, rest)
        else ([d], '_' :: e :: rest)
      | cs =>
        let (ds, rest) := digitRun cs
        (d :: ds, rest)
termination_by cs => cs.length

/-- The number that some digits write. -/
def ofDigits (ds : List Nat) : Nat := ds.foldl (fun n d => 10 * n + d) 0

/-- A whole number. -/
def whole? (s : String) : Except NumeralError Int :=
  let (negative, body) := splitSign (trimMargins s)
  let (digits, rest) := digitRun body
  if digits.isEmpty || !rest.isEmpty then .error (.invalid s)
  else if maxDigits < digits.length then .error (.tooLong digits.length)
  else .ok (if negative then -(ofDigits digits : Int) else ofDigits digits)

/-- The exponent at the end of a number. -/
def exponent? : List Char → Option Int
  | [] => some 0
  | e :: cs =>
    if e = 'e' || e = 'E' then
      let (negative, body) := splitSign cs
      let (digits, rest) := digitRun body
      if digits.isEmpty || !rest.isEmpty then none
      else some (if negative then -(ofDigits digits : Int) else ofDigits digits)
    else none

/-- A number with or without a point, infinity, or what is no number. -/
def real? (s : String) : Option Float :=
  let (negative, body) := splitSign (trimMargins s)
  let word := String.ofList (body.map Char.toLower)
  if word = "inf" || word = "infinity" then some (nearest negative (tenTo 400) 1)
  else if word = "nan" then some (0.0 / 0.0)
  else
    let (whole, rest) := digitRun body
    let (fraction, rest) := match rest with
      | '.' :: cs => digitRun cs
      | cs => ([], cs)
    if whole.isEmpty && fraction.isEmpty then none
    else
      (exponent? rest).map fun e =>
        nearestDecimal negative (ofDigits (whole ++ fraction)) (e - fraction.length)

end SourceShelf.Decimal
