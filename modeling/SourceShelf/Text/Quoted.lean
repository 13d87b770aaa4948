import SourceShelf.Text.Printable

/-!
# Quoted texts

A text in quotes, for messages: in single quotes, or in double quotes if it
holds single quotes and no double ones.  Backslashes, the quotes around it and
characters that are not printable are escaped.
-/

namespace SourceShelf

/-- A number in hexadecimal digits, at least `width` of them. -/
def hexDigits (width n : Nat) : String :=
  let digits := Nat.toDigits 16 n
  String.ofList (List.replicate (width - digits.length) '0' ++ digits)

/-- A character as it stands between quotes. -/
def quotedChar (quote : Char) (c : Char) : String :=
  if c = quote || c = '\\' then "\\" ++ c.toString
  else if c = '\n' then "\\n"
  else if c = '\r' then "\\r"
  else if c = '\t' then "\\t"
  else if isPrintable c then c.toString
  else if c.toNat < 0x100 then "\\x" ++ hexDigits 2 c.toNat
  else if c.toNat < 0x10000 then "\\u" ++ hexDigits 4 c.toNat
  else "\\U" ++ hexDigits 8 c.toNat

/-- The quotes around a text. -/
def quoteOf (s : String) : Char :=
  if s.toList.contains '\'' && !s.toList.contains '"' then '"' else '\''

/-- A text in quotes. -/
def quoted (s : String) : String :=
  let q := quoteOf s
  q.toString ++ String.join (s.toList.map (quotedChar q)) ++ q.toString

end SourceShelf
