import SourceShelf.Files.Disk
import SourceShelf.Json.Reader
import SourceShelf.Settings.Options
import SourceShelf.Text.Utf8

/-!
# Loading settings

The settings of a folder stand in a JSON file below it.  A file that cannot be
read, or that holds no object, is reported and changes nothing.
-/

namespace SourceShelf

open Files

/-- Why the bytes of a JSON file cannot be read. -/
inductive DocumentError where
  | encoding (f : Utf8.Fault)
  | content (f : Json.ReadFailure)
deriving Repr, Inhabited

namespace DocumentError

/-- The text of the error. -/
def message : DocumentError → String
  | encoding f => f.message
  | content f => f.message

/-- What is reported of a file that is passed over, which one beyond a limit is
not. -/
def reported : DocumentError → Except LimitError String
  | encoding f => .ok f.message
  | content (.malformed m) => .ok m
  | content (.tooDeep n) => .error (.tooDeep n)

end DocumentError

/-- The value that the bytes of a file hold.  Every kind of line end counts as
a line feed. -/
def readDocument (bytes : ByteArray) (limit : Json.NestingLimit := .standard) :
    Except DocumentError Json.Value :=
  match decodeUtf8 bytes with
  | .error f => .error (.encoding f)
  | .ok s =>
    let cs := unifyLineEnds s.toList
    (Json.readChars limit cs).mapError fun e => .content (e.failure cs)

/-- The content of the file where a path leads, if it leads to one. -/
def Files.Disk.contentAt {α : Type} (t : Disk α) (p : Path) : Except LimitError (Option α) :=
  match t.look p with
  | .error _ => .error (.longPath p.text)
  | .ok (some (.file content)) => .ok (some content)
  | .ok _ => .ok none

/-- The settings file of a folder. -/
def settingsPath (folder : Path) : Path :=
  (folder.child storeFolderName).child settingsFileName

/-- The options that the settings file of a folder sets, over the defaults.  No
options are set where the file is beyond a limit. -/
def IndexOptions.load {α : Type} (bytesOf : α → ByteArray) (t : Disk α) (folder : Path)
    (limit : Json.NestingLimit := .standard) : OptionUpdate :=
  let path := settingsPath folder
  match t.contentAt path with
  | .error e => { options := {}, stopped := some e }
  | .ok none => { options := {} }
  | .ok (some content) =>
    match readDocument (bytesOf content) limit with
    | .error e =>
      match e.reported with
      | .error x => { options := {}, stopped := some x }
      | .ok m =>
        { options := {}
          log := [.warning ("Ignoring unreadable settings file " ++ path.text ++ ": " ++ m)] }
    | .ok (.obj payload) => IndexOptions.update {} payload
    | .ok _ =>
      { options := {}
        log := [.warning ("Ignoring settings file " ++ path.text ++ ": expected a JSON object")] }

end SourceShelf
