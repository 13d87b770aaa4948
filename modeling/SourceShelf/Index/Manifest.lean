import SourceShelf.Files.Disk
import SourceShelf.Json.Printer
import SourceShelf.Json.Shown
import SourceShelf.Log
import SourceShelf.Settings.Loading

/-!
# The manifest

The manifest of an index says which files are in it, with the digest that the
text of each had, and which embedder made the vectors.
-/

namespace SourceShelf

open Files

/-- Which files are indexed, at which digest, by which embedder. -/
structure Manifest where
  embedder : String := ""
  files : List (String × String) := []
deriving DecidableEq, Repr, Inhabited

namespace Manifest

/-- The digest of a file. -/
def digest? (m : Manifest) (path : String) : Option String := m.files.lookup path

/-- Enters a file. -/
def insert (m : Manifest) (path digest : String) : Manifest :=
  { m with files :=
      if m.files.any (·.1 = path) then
        m.files.map fun e => if e.1 = path then (path, digest) else e
      else m.files ++ [(path, digest)] }

/-- Strikes out a file. -/
def erase (m : Manifest) (path : String) : Manifest :=
  { m with files := m.files.filter (·.1 ≠ path) }

/-- The manifest as a value. -/
def toJson (m : Manifest) : Json.Value :=
  .obj [("embedder", .str m.embedder), ("files", .obj (m.files.map fun e => (e.1, .str e.2)))]

/-- The text of the manifest's file. -/
def text (m : Manifest) : String := Json.Layout.document.text m.toJson

/-- The manifest that a value holds.  A value without files holds none. -/
def ofJson (v : Json.Value) : Manifest :=
  match v.get? "files" with
  | some (.obj files) =>
    { embedder := ((v.get? "embedder").map Json.plain).getD ""
      files := files.map fun e => (e.1, Json.plain e.2) }
  | _ => {}

/-- The manifest in the bytes of a file. -/
def ofBytes (bytes : ByteArray) (limit : Json.NestingLimit := .standard) :
    Except DocumentError Manifest := (readDocument bytes limit).map ofJson

/-- The manifest that a path leads to, and what is reported.  Where there is no
file, or one that cannot be read, the manifest is empty. -/
def load {α : Type} (bytesOf : α → ByteArray) (t : Disk α) (path : Path)
    (limit : Json.NestingLimit := .standard) : Except LimitError (Manifest × List LogRecord) := do
  match ← t.contentAt path with
  | none => return ({}, [])
  | some content =>
    match ofBytes (bytesOf content) limit with
    | .ok m => return (m, [])
    | .error e =>
      return ({}, [.warning
        ("Manifest " ++ path.text ++ " is unreadable, re-indexing everything: " ++
        (← e.reported))])

end Manifest

end SourceShelf
