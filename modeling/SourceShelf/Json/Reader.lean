import SourceShelf.Decimal.Numeral
import SourceShelf.Json.Value

/-!
# Reading JSON

`read` reads a text that holds one value.  A `ReadError` keeps the text from
the place of the error on, so that the place is what is left of the text
(`ReadError.place`).

Beyond the standard, `NaN`, `Infinity` and `-Infinity` are numbers; an escaped
surrogate without its partner becomes `U+FFFD`.

Reading a list or an object takes one of the calls that are left to the reader
(`NestingLimit`), so a text that nests too deep is not read.  That is no fault
of the text, and those who pass over texts that are no JSON do not expect it.
-/

namespace SourceShelf.Json

/-- What can stand inside one another. -/
inductive Nesting where
  | list | object
deriving DecidableEq, Repr, Inhabited

/-- What is said where no more can be nested. -/
def Nesting.message (n : Nesting) : String :=
  let kind := match n with
    | .list => "array"
    | .object => "object"
  "maximum recursion depth exceeded while decoding a JSON " ++ kind ++ " from a unicode string"

/-- How many lists and objects can be read inside one another: two at least,
however late a reader is called. -/
structure NestingLimit where
  levels : Nat
  two_le : 2 ≤ levels
deriving DecidableEq, Repr

/-- What is left of a thousand calls to a reader that a command calls. -/
def NestingLimit.standard : NestingLimit := ⟨990, by decide⟩

instance : Inhabited NestingLimit := ⟨.standard⟩

/-- Why a text is not read. -/
inductive Problem where
  | mark | value | propertyName | colon | comma | extraData
  | controlCharacter | unterminated | escape | unicodeEscape
  | numeral (e : Decimal.NumeralError)
  | tooDeep (n : Nesting)
deriving DecidableEq, Repr, Inhabited

/-- What the problem is called. -/
def Problem.text : Problem → String
  | mark => "Unexpected UTF-8 BOM (decode using utf-8-sig)"
  | value => "Expecting value"
  | propertyName => "Expecting property name enclosed in double quotes"
  | colon => "Expecting ':' delimiter"
  | comma => "Expecting ',' delimiter"
  | extraData => "Extra data"
  | controlCharacter => "Invalid control character at"
  | unterminated => "Unterminated string starting at"
  | escape => "Invalid \\escape"
  | unicodeEscape => "Invalid \\uXXXX escape"
  | numeral e => e.message
  | tooDeep n => n.message

/-- A problem and the text from its place on. -/
structure ReadError where
  problem : Problem
  rest : List Char
deriving DecidableEq, Repr, Inhabited

/-- The number of characters before the place of an error in a text. -/
def ReadError.place (text : List Char) (e : ReadError) : Nat := text.length - e.rest.length

/-- The message of an error: problem, line, column and number of characters. -/
def ReadError.message (text : List Char) (e : ReadError) : String :=
  match e.problem with
  | .numeral n => n.message
  | .tooDeep n => n.message
  | p =>
    let before := text.take (e.place text)
    let line := 1 + before.count '\n'
    let column := 1 + (before.reverse.takeWhile (· != '\n')).length
    p.text ++ ": line " ++ toString line ++ " column " ++ toString column ++
      " (char " ++ toString before.length ++ ")"

/-- Why a text is not read: something is wrong with it, or it nests too deep. -/
inductive ReadFailure where
  | malformed (message : String)
  | tooDeep (n : Nesting)
deriving DecidableEq, Repr, Inhabited

/-- The text of the failure. -/
def ReadFailure.message : ReadFailure → String
  | malformed m => m
  | tooDeep n => n.message

/-- The failure that an error in a text is. -/
def ReadError.failure (text : List Char) (e : ReadError) : ReadFailure :=
  match e.problem with
  | .tooDeep n => .tooDeep n
  | _ => .malformed (e.message text)

/-- White space between the parts of a value. -/
def isSpace (c : Char) : Bool := c = ' ' || c = '\t' || c = '\n' || c = '\r'

/-- A text without the white space at its start. -/
def skip (cs : List Char) : List Char := cs.dropWhile isSpace

/-! ## Strings -/

/-- The value of a hexadecimal digit. -/
def hexValue? (c : Char) : Option Nat :=
  let n := c.toNat
  if '0' ≤ c && c ≤ '9' then some (n - 0x30)
  else if 'a' ≤ c && c ≤ 'f' then some (n - 0x57)
  else if 'A' ≤ c && c ≤ 'F' then some (n - 0x37)
  else none

/-- Four hexadecimal digits and the text behind them, which must not be
empty. -/
def hexUnit? : List Char → Option (Nat × List Char)
  | a :: b :: c :: d :: e :: rest => do
    let a ← hexValue? a
    let b ← hexValue? b
    let c ← hexValue? c
    let d ← hexValue? d
    some (((a * 16 + b) * 16 + c) * 16 + d, e :: rest)
  | _ => none

/-- The first half of a surrogate pair. -/
def isHighSurrogate (n : Nat) : Bool := 0xD800 ≤ n && n ≤ 0xDBFF

/-- The second half of a surrogate pair. -/
def isLowSurrogate (n : Nat) : Bool := 0xDC00 ≤ n && n ≤ 0xDFFF

/-- The character of a code unit that stands alone. -/
def unitChar (n : Nat) : Char :=
  if isHighSurrogate n || isLowSurrogate n then '\ufffd' else Char.ofNat n

/-- The character of a surrogate pair. -/
def pairChar (high low : Nat) : Char :=
  Char.ofNat (0x10000 + (high - 0xD800) * 0x400 + (low - 0xDC00))

/-- The character that a backslash and a letter stand for. -/
def escaped? : Char → Option Char
  | '"' => some '"'
  | '\\' => some '\\'
  | '/' => some '/'
  | 'b' => some '\x08'
  | 'f' => some '\x0c'
  | 'n' => some '\n'
  | 'r' => some '\r'
  | 't' => some '\t'
  | _ => none

/-- The character that the text behind `\u` stands for, and what follows it.
A high surrogate takes the low one behind it along. -/
def unicodeEscape? (cs : List Char) : Option (Except (List Char) (Char × List Char)) :=
  match hexUnit? cs with
  | none => none
  | some (high, '\\' :: 'u' :: more) =>
    if isHighSurrogate high && 4 < more.length then
      match hexUnit? more with
      | none => some (.error more)
      | some (low, rest) =>
        if isLowSurrogate low then some (.ok (pairChar high low, rest))
        else some (.ok (unitChar high, '\\' :: 'u' :: more))
    else some (.ok (unitChar high, '\\' :: 'u' :: more))
  | some (n, rest) => some (.ok (unitChar n, rest))

/-- The characters of a string up to its closing quote, and what follows it.
`start` is the text from the opening quote on, `done` what has been read.  Each
second step takes a character at least, so fuel above twice the length is
enough; the same holds for `value`. -/
def stringBody (start : List Char) : Nat → List Char → List Char →
    Except ReadError (String × List Char)
  | 0, _, _ => .error ⟨.unterminated, start⟩
  | _ + 1, _, [] => .error ⟨.unterminated, start⟩
  | fuel + 1, done, c :: cs =>
    if c = '"' then .ok (String.ofList done.reverse, cs)
    else if c = '\\' then
      match cs with
      | [] => .error ⟨.unterminated, start⟩
      | 'u' :: digits =>
        match unicodeEscape? digits with
        | none => .error ⟨.unicodeEscape, 'u' :: digits⟩
        | some (.error more) => .error ⟨.unicodeEscape, 'u' :: more⟩
        | some (.ok (x, rest)) => stringBody start fuel (x :: done) rest
      | e :: rest =>
        match escaped? e with
        | some x => stringBody start fuel (x :: done) rest
        | none => .error ⟨.escape, c :: e :: rest⟩
    else if c.toNat ≤ 0x1F then .error ⟨.controlCharacter, c :: cs⟩
    else stringBody start fuel (c :: done) cs

/-- A string behind its opening quote. -/
def string (fuel : Nat) (cs : List Char) : Except ReadError (String × List Char) :=
  stringBody ('"' :: cs) fuel [] cs

/-! ## Numbers -/

/-- The digits at the start of a text. -/
def digits (cs : List Char) : List Char := cs.takeWhile Char.isDigit

/-- The number that some digits write. -/
def digitsValue (cs : List Char) : Nat := cs.foldl (fun n c => 10 * n + (c.toNat - 0x30)) 0

/-- The digits of a fraction, with what follows them. -/
def fraction (cs : List Char) : List Char × List Char :=
  match cs with
  | '.' :: rest =>
    let ds := digits rest
    if ds.isEmpty then ([], cs) else (ds, rest.drop ds.length)
  | _ => ([], cs)

/-- An exponent, with what follows it. -/
def exponent (cs : List Char) : Option Int × List Char :=
  match cs with
  | e :: rest =>
    if e = 'e' || e = 'E' then
      let (negative, rest) := Decimal.splitSign rest
      let ds := digits rest
      if ds.isEmpty then (none, cs)
      else
        let n : Int := digitsValue ds
        (some (if negative then -n else n), rest.drop ds.length)
    else (none, cs)
  | [] => (none, cs)

/-- A number without its sign.  Of leading zeros only the first is part of the
number. -/
def unsignedNumber (negative : Bool) (cs : List Char) :
    Option (Except ReadError (Value × List Char)) :=
  let whole := match cs with
    | '0' :: _ => ['0']
    | _ => digits cs
  if whole.isEmpty then none
  else
    let (places, rest) := fraction (cs.drop whole.length)
    let (power, rest) := exponent rest
    if places.isEmpty && power.isNone then
      if Decimal.maxDigits < whole.length then
        some (.error ⟨.numeral (.tooLong whole.length), cs⟩)
      else
        let n : Int := digitsValue whole
        some (.ok (.int (if negative then -n else n), rest))
    else
      let x := Decimal.nearestDecimal negative (digitsValue (whole ++ places))
        (power.getD 0 - places.length)
      some (.ok (.float x, rest))

/-- A number. -/
def number (cs : List Char) : Except ReadError (Value × List Char) :=
  let (negative, rest) := match cs with
    | '-' :: rest => (true, rest)
    | _ => (false, cs)
  (unsignedNumber negative rest).getD (.error ⟨.value, cs⟩)

/-- The words that are values. -/
def words : List (String × Value) :=
  [("null", .null), ("true", .bool true), ("false", .bool false), ("NaN", .float (0.0 / 0.0)),
    ("Infinity", .float (1.0 / 0.0)), ("-Infinity", .float (-1.0 / 0.0))]

/-- A word that is a value. -/
def word? (cs : List Char) : Option (Value × List Char) :=
  (words.find? fun w => w.1.toList.isPrefixOf cs).map fun w => (w.2, cs.drop w.1.length)

/-! ## Values -/

mutual

/-- A value at the start of a text, and what follows it, where so many levels
can be nested. -/
def value : Nat → Nat → List Char → Except ReadError (Value × List Char)
  | _, 0, cs => .error ⟨.value, cs⟩
  | levels, fuel + 1, cs =>
    match cs with
    | '"' :: rest => (string fuel rest).map fun (s, rest) => (.str s, rest)
    | '\x7b' :: rest =>
      if levels = 0 then .error ⟨.tooDeep .object, cs⟩
      else
        match skip rest with
        | '\x7d' :: rest => .ok (.obj [], rest)
        | rest => members (levels - 1) fuel [] rest
    | '[' :: rest =>
      if levels = 0 then .error ⟨.tooDeep .list, cs⟩
      else
        match skip rest with
        | ']' :: rest => .ok (.arr [], rest)
        | rest => items (levels - 1) fuel [] rest
    | cs =>
      match word? cs with
      | some r => .ok r
      | none => number cs

/-- The items of a list from one of them on. -/
def items : Nat → Nat → List Value → List Char → Except ReadError (Value × List Char)
  | _, 0, _, cs => .error ⟨.value, cs⟩
  | levels, fuel + 1, done, cs =>
    match value levels fuel cs with
    | .error e => .error e
    | .ok (v, rest) =>
      match skip rest with
      | ']' :: rest => .ok (.arr (v :: done).reverse, rest)
      | ',' :: rest => items levels fuel (v :: done) (skip rest)
      | rest => .error ⟨.comma, rest⟩

/-- The members of an object from a key on. -/
def members : Nat → Nat → List (String × Value) → List Char → Except ReadError (Value × List Char)
  | _, 0, _, cs => .error ⟨.value, cs⟩
  | levels, fuel + 1, done, cs =>
    match cs with
    | '"' :: rest =>
      match string fuel rest with
      | .error e => .error e
      | .ok (key, rest) =>
        match skip rest with
        | ':' :: rest =>
          match value levels fuel (skip rest) with
          | .error e => .error e
          | .ok (v, rest) =>
            match skip rest with
            | '\x7d' :: rest => .ok (.ofEntries ((key, v) :: done).reverse, rest)
            | ',' :: rest => members levels fuel ((key, v) :: done) (skip rest)
            | rest => .error ⟨.comma, rest⟩
        | rest => .error ⟨.colon, rest⟩
    | cs => .error ⟨.propertyName, cs⟩

end

/-- The value that a text holds. -/
def readChars (limit : NestingLimit) (cs : List Char) : Except ReadError Value :=
  match cs with
  | '\ufeff' :: _ => .error ⟨.mark, cs⟩
  | cs =>
    match value limit.levels (2 * cs.length + 2) (skip cs) with
    | .error e => .error e
    | .ok (v, rest) =>
      match skip rest with
      | [] => .ok v
      | rest => .error ⟨.extraData, rest⟩

/-- The value that a text holds, or what is wrong with the text. -/
def read (text : String) (limit : NestingLimit := .standard) : Except String Value :=
  let cs := text.toList
  (readChars limit cs).mapError (·.message cs)

end SourceShelf.Json
