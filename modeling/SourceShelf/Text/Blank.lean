/-!
# White space and lines

`isBlank` is the white space of Unicode, with the four separator controls of
ASCII.  `splitLines` cuts a text at every kind of line boundary.
-/

namespace SourceShelf

/-- White space. -/
def isBlank (c : Char) : Bool :=
  let n := c.toNat
  (0x09 ≤ n && n ≤ 0x0D) || (0x1C ≤ n && n ≤ 0x20) || n == 0x85 || n == 0xA0 || n == 0x1680 ||
    (0x2000 ≤ n && n ≤ 0x200A) || n == 0x2028 || n == 0x2029 || n == 0x202F || n == 0x205F ||
    n == 0x3000

/-- Characters that end a line. -/
def isLineBoundary (c : Char) : Bool :=
  let n := c.toNat
  (0x0A ≤ n && n ≤ 0x0D) || (0x1C ≤ n && n ≤ 0x1E) || n == 0x85 || n == 0x2028 || n == 0x2029

/-- A text without white space. -/
def removeBlanks (s : String) : String := String.ofList (s.toList.filter (!isBlank ·))

/-- A text without white space at its ends. -/
def stripBlanks (s : String) : String :=
  String.ofList ((s.toList.dropWhile isBlank).reverse.dropWhile isBlank).reverse

/-- The lines of a list of characters, without what ends them.  A carriage
return and the line feed behind it end one line together. -/
def splitLineChars : List Char → List (List Char)
  | [] => []
  | '\r' :: '\n' :: cs => [] :: splitLineChars cs
  | c :: cs =>
    if isLineBoundary c then [] :: splitLineChars cs
    else
      match splitLineChars cs with
      | [] => [[c]]
      | l :: ls => (c :: l) :: ls

/-- The lines of a text. -/
def splitLines (s : String) : List String := (splitLineChars s.toList).map String.ofList

end SourceShelf
