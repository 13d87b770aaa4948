import SourceShelf.Command.Line
import SourceShelf.Store.Document

/-!
# The program

Reads the part of the disk that the arguments name, does what they ask for,
and writes back what has changed.  No server can be reached from here, so only
what needs no embeddings comes to an end.
-/

namespace SourceShelf.Program

open Files

/-- What a file on the disk holds. -/
def contentOf (name : String) (bytes : ByteArray) : FileContent :=
  if name ≠ Handle.fileName then .bytes bytes
  else
    match (decodeUtf8 bytes).toOption.bind Store.ofText? with
    | some s => .store s
    | none => .bytes bytes

/-- The bytes that are written for a file. -/
def bytesOf : FileContent → ByteArray
  | .bytes b => b
  | .store s => s.text.toUTF8

/-- What stands at a path on the disk.  Links are not followed. -/
partial def readNode (path : String) : IO (Option (Node FileContent)) := do
  let there := (← IO.currentDir) / path
  match ← there.symlinkMetadata.toBaseIO with
  | .error _ => return none
  | .ok data =>
    match data.type with
    | .file => return some (.file (contentOf (Path.ofString path).name (← IO.FS.readBinFile path)))
    | .dir =>
      let mut entries := []
      for e in ← there.readDir do
        if let some n ← readNode (path ++ "/" ++ e.fileName) then
          entries := entries ++ [(e.fileName, n)]
      return some (.folder entries)
    | _ => return none

/-- Puts something on a disk, and the folders above it. -/
def graft (t : Disk FileContent) (p : Path) (n : Option (Node FileContent)) : Disk FileContent :=
  match n with
  | none => t
  | some n => ((t.makeFolders p.parent).toOption.getD t).put p.names n

/-- Adds the folders on the way to a path that there really are. -/
def addFolders (t : Disk FileContent) (p : Path) : IO (Disk FileContent) := do
  let mut t := t
  for k in List.range (p.names.length + 1) do
    let q : Path := ⟨.root, p.names.take k⟩
    if ← ((← IO.currentDir) / q.text).isDir then
      t := (t.makeFolders q).toOption.getD t
  return t

/-- The part of the real disk that some arguments name. -/
def readDisk (home : Path) (args : List String) : IO (Disk FileContent) := do
  let cwd := Path.ofString (← IO.currentDir).toString
  let mut t ← addFolders { cwd := cwd.names } cwd
  t ← addFolders t home
  let store := home.child storeFolderName
  t := graft t store (← readNode store.text)
  for arg in args do
    let p := cwd.append (((Path.ofString arg).expandHome home).toOption.getD {})
    t ← addFolders t p.parent
    let settings := p.parent.child storeFolderName
    t := graft t settings (← readNode settings.text)
    if p.names ≠ cwd.names || arg = "." then
      t := graft t p (← readNode p.text)
  return t

/-- The files below a place. -/
partial def filesOf (place : List String) : Node FileContent → List (Path × FileContent)
  | .file content => [(⟨.root, place⟩, content)]
  | .folder entries => entries.flatMap fun e => filesOf (place ++ [e.1]) e.2
  | .link _ => []

/-- Writes the files that have changed, and removes those that are gone. -/
def writeDisk (before after : Disk FileContent) : IO Unit := do
  let old := filesOf [] before.root
  let new := filesOf [] after.root
  for (p, content) in new do
    let known := (old.find? (·.1 = p)).map fun e => bytesOf e.2
    if !known.any (· == bytesOf content) then
      IO.FS.createDirAll p.parent.text
      IO.FS.writeBinFile p.text (bytesOf content)
  for (p, _) in old do
    if !new.any (·.1 = p) then IO.FS.removeFile p.text

/-- Shows a piece of what was printed. -/
def display : Printed → IO Unit
  | .out line => IO.println line
  | .err line => IO.eprintln line
  | .table rows => rows.forM fun r => IO.println ("  ".intercalate r)
  | .rule title => IO.println ("--- " ++ title ++ " ---")

/-- How the program is called. -/
def usage : List String :=
  ["Usage: javachunk [-v] COMMAND [OPTIONS]", "", "Commands:",
    "  chunk FILE          split one Java file into chunks and print them",
    "  index PATH          chunk a Java file or folder and store embeddings",
    "  search PATH QUERY   find the chunks closest to a query",
    "  status PATH         show index stats",
    "  reset PATH          delete index data"]

/-- The names of the environment variables that set limits. -/
def limitNames : List String :=
  ["JAVACHUNK_EMBED_MAX_CHARS", "JAVACHUNK_EMBED_MIN_CHARS", "JAVACHUNK_EMBED_TIMEOUT"]

/-- The text of what a command ran into. -/
def crashText : CommandError → String
  | .failure f => f.describe
  | .badParameter m => m
  | .workspace e => e.message
  | .file e path => e.message path
  | .missingModels => LocalModel.missingText
  | .numeral e => e.message
  | .glob e => e.message
  | .number e => e.message
  | .store e => e.message
  | .embed e => e.message
  | .lookup e => e.message

/-- Does what the arguments ask for. -/
def run (args : List String) : IO UInt32 := do
  let home := Path.ofString ((← IO.getEnv "HOME").getD "/")
  let before ← readDisk home args
  let environment ← limitNames.filterMapM fun v => return (← IO.getEnv v).map (v, ·)
  let start : Session Backends := { disk := before, home, world := { environment } }
  let (ending, s) := CommandLine.run args start
  writeDisk before s.disk
  for r in LogRecord.atLeast ending.level s.log do
    IO.eprintln r.text
  (← IO.getStdout).putStr s.output
  s.printed.forM display
  match ending.outcome with
  | .usage => usage.forM IO.println
  | .wrongUsage e => IO.eprintln e.message
  | .crashed e => IO.eprintln (crashText e)
  | _ => pure ()
  return ending.outcome.status.toUInt32

end SourceShelf.Program

/-- The program. -/
def main (args : List String) : IO UInt32 := SourceShelf.Program.run args
