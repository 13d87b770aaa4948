import SourceShelf.Decimal.Shortest
import SourceShelf.Json.Value
import SourceShelf.Text.Quoted

/-!
# Values in messages

A value as a message shows it: texts in single quotes, the words `None`,
`True` and `False`, and numbers as short as they can be.
-/

namespace SourceShelf.Json

mutual

/-- A value as a message shows it. -/
def shown : Value → String
  | .null => "None"
  | .bool b => if b then "True" else "False"
  | .int n => toString n
  | .float x => Decimal.text x
  | .str s => quoted s
  | .arr vs => "[" ++ ", ".intercalate (shownItems vs) ++ "]"
  | .obj es => "\x7b" ++ ", ".intercalate (shownEntries es) ++ "\x7d"

/-- The items of a list. -/
def shownItems : List Value → List String
  | [] => []
  | v :: vs => shown v :: shownItems vs

/-- The entries of an object. -/
def shownEntries : List (String × Value) → List String
  | [] => []
  | (k, v) :: es => (quoted k ++ ": " ++ shown v) :: shownEntries es

end

/-- A value as a text: a string is its own text. -/
def plain : Value → String
  | .str s => s
  | v => shown v

end SourceShelf.Json
