import SourceShelf.Files.Disk
import SourceShelf.Json.Reader

/-!
# Limits

What is beyond a limit of the machine is told like any other error, but no
command expects it: whoever passes over files that are missing or hold nothing
of use stops here.
-/

namespace SourceShelf

/-- What is beyond a limit: a number that has no end, is none, or is too large
for a floating point number; a document that nests too deep to be read; a path
that is too long to be looked at. -/
inductive LimitError where
  | infinite | notANumber | tooLarge
  | tooDeep (n : Json.Nesting)
  | longPath (path : String)
deriving DecidableEq, Repr, Inhabited

/-- The text of the error. -/
def LimitError.message : LimitError → String
  | infinite => "cannot convert float infinity to integer"
  | notANumber => "cannot convert float NaN to integer"
  | tooLarge => "int too large to convert to float"
  | tooDeep n => n.message
  | longPath p => Files.FileError.nameTooLong.message p

/-- Why a number cannot be used. -/
abbrev NumberError := LimitError

end SourceShelf
