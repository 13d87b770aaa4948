import SourceShelf.Decimal.Shortest
import SourceShelf.Json.Value
import SourceShelf.Text.Quoted

/-!
# Writing JSON

A `Layout` says which characters are escaped, whether the keys of an object
are sorted, and whether each item stands on a line of its own.  `Layout.line`
is the layout of a line of a JSON Lines file, `Layout.document` that of a file
that people read, `Layout.wire` that of a line which must be ASCII.
-/

namespace SourceShelf.Json

/-- How a value is written. -/
structure Layout where
  /-- Characters outside ASCII are escaped. -/
  ascii : Bool
  /-- Keys are sorted. -/
  sorted : Bool
  /-- Each item has a line of its own, two blanks further in than its list. -/
  indented : Bool
deriving DecidableEq, Repr, Inhabited

namespace Layout

/-- One line, in which only controls, quotes and backslashes are escaped. -/
def line : Layout := ⟨false, false, false⟩

/-- Many lines of ASCII with sorted keys. -/
def document : Layout := ⟨true, true, true⟩

/-- One line of ASCII. -/
def wire : Layout := ⟨true, false, false⟩

end Layout

/-- The escape of a code unit. -/
def unitEscape (n : Nat) : String := "\\u" ++ hexDigits 4 n

/-- The escape of a character, two of them if it needs a surrogate pair. -/
def unicodeEscape (c : Char) : String :=
  let n := c.toNat
  if n < 0x10000 then unitEscape n
  else
    let m := n - 0x10000
    unitEscape (0xD800 + m / 0x400) ++ unitEscape (0xDC00 + m % 0x400)

/-- A character of a string. -/
def charText (ascii : Bool) (c : Char) : String :=
  if c = '"' then "\\\""
  else if c = '\\' then "\\\\"
  else if c = '\n' then "\\n"
  else if c = '\r' then "\\r"
  else if c = '\t' then "\\t"
  else if c = '\x0c' then "\\f"
  else if c = '\x08' then "\\b"
  else if c.toNat < 0x20 then unicodeEscape c
  else if ascii && 0x7F ≤ c.toNat then unicodeEscape c
  else c.toString

/-- A string in quotes. -/
def stringText (ascii : Bool) (s : String) : String :=
  "\"" ++ String.join (s.toList.map (charText ascii)) ++ "\""

/-- A number that is not whole. -/
def floatText (x : Float) : String :=
  match Decimal.Binary.ofFloat x with
  | .nan => "NaN"
  | .infinite negative => if negative then "-Infinity" else "Infinity"
  | .finite .. => Decimal.text x

/-- The start of a line. -/
def newline (depth : Nat) : String := "\n" ++ String.ofList (List.replicate (2 * depth) ' ')

/-- Parts between brackets.  The parts stand at `depth + 1`. -/
def bracketed (l : Layout) (opening closing : String) (depth : Nat) (parts : List String) :
    String :=
  if parts.isEmpty then opening ++ closing
  else if l.indented then
    opening ++ newline (depth + 1) ++ ("," ++ newline (depth + 1)).intercalate parts ++
      newline depth ++ closing
  else opening ++ ", ".intercalate parts ++ closing

/-- The entries of an object in the order in which they are written. -/
def arranged (l : Layout) (entries : List (String × String)) : List (String × String) :=
  if l.sorted then entries.mergeSort (fun a b => !(b.1 < a.1)) else entries

mutual

/-- The text of a value at a depth. -/
def textAt (l : Layout) (depth : Nat) : Value → String
  | .null => "null"
  | .bool b => if b then "true" else "false"
  | .int n => toString n
  | .float x => floatText x
  | .str s => stringText l.ascii s
  | .arr vs => bracketed l "[" "]" depth (textsAt l (depth + 1) vs)
  | .obj es =>
    bracketed l "\x7b" "\x7d" depth
      ((arranged l (entryTexts l (depth + 1) es)).map fun e =>
        stringText l.ascii e.1 ++ ": " ++ e.2)

/-- The texts of some values. -/
def textsAt (l : Layout) (depth : Nat) : List Value → List String
  | [] => []
  | v :: vs => textAt l depth v :: textsAt l depth vs

/-- The keys of an object with the texts of their values. -/
def entryTexts (l : Layout) (depth : Nat) : List (String × Value) → List (String × String)
  | [] => []
  | (k, v) :: es => (k, textAt l depth v) :: entryTexts l depth es

end

/-- The text of a value. -/
def Layout.text (l : Layout) (v : Value) : String := textAt l 0 v

end SourceShelf.Json
