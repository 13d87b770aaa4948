import SourceShelf.Embedding.Ollama
import SourceShelf.Index.Run
import SourceShelf.Index.Workspace
import SourceShelf.Source.Scan
import SourceShelf.Store.Handle

/-!
# Sessions

A session is all that a command reads and changes: the disk, what is printed,
what is reported, and the state of the embedders.
-/

namespace SourceShelf

open Files

/-- What a file holds: bytes, or a store. -/
inductive FileContent where
  | bytes (b : ByteArray)
  | store (s : Store)

instance : Inhabited FileContent := ⟨.bytes .empty⟩

/-- The bytes that a store's file starts with. -/
def storeMark : ByteArray := "SQLite format 3\x00".toUTF8

/-- The bytes of a file, as far as they are known. -/
def FileContent.toBytes : FileContent → ByteArray
  | bytes b => b
  | store _ => storeMark

/-- A piece of what people see: a line, a line among the errors, a table with
its headings, or a heading. -/
inductive Printed where
  | out (line : String)
  | err (line : String)
  | table (rows : List (List String))
  | rule (title : String)
deriving DecidableEq, Repr, Inhabited

/-- Why a command fails. -/
inductive CommandError where
  | failure (f : Failure)
  | badParameter (message : String)
  | workspace (e : WorkspaceError)
  | file (e : FileError) (path : String)
  | missingModels
  | numeral (e : Decimal.NumeralError)
  | glob (e : Ignore.GlobError)
  | number (e : LimitError)
  | store (e : StoreError)
  | embed (e : EmbedError)
  | lookup (e : Java.LookupError)
deriving Repr, Inhabited

/-- What a command reads and changes.  `output` is the text that a receiver of
chunks wrote; `nesting` is what a document may nest, which no command changes. -/
structure Session (τ : Type) where
  disk : Disk FileContent
  home : Path
  world : τ
  printed : List Printed := []
  log : List LogRecord := []
  output : String := ""
  nesting : Json.NestingLimit := .standard

namespace Session

variable {τ : Type}

/-- Prints a piece. -/
def print (p : Printed) : Action (Session τ) CommandError Unit :=
  modify fun s => { s with printed := s.printed ++ [p] }

/-- Prints a line. -/
def printLine (line : String) : Action (Session τ) CommandError Unit := print (.out line)

/-- Adds records to what was reported. -/
def report (rs : List LogRecord) : Action (Session τ) CommandError Unit :=
  modify fun s => { s with log := s.log ++ rs }

/-- The result of something that may fail. -/
def check {ε α : Type} (wrap : ε → CommandError) (r : Except ε α) :
    Action (Session τ) CommandError α := .ofExcept (r.mapError wrap)

/-- Writes a file. -/
def writeFile (path : String) (content : FileContent) : Action (Session τ) CommandError Unit := do
  let disk ← check (.file · path) ((← get).disk.write path content)
  modify fun s => { s with disk }

/-- An action on the state of the embedders. -/
def onWorld {α : Type} (a : Action (Logged τ) EmbedError α) : Action (Session τ) CommandError α :=
  (a.within (fun s => ⟨s.world, s.log⟩) fun x s =>
    { s with world := x.inner, log := x.log }).withError .embed

/-! ## Indexes -/

/-- Finds the workspace that a path asks for and makes the folder of its
index. -/
def locate (path : String) (isLocal : Bool) (name : Option String := none) :
    Action (Session τ) CommandError IndexLocation := do
  let s ← get
  let w ← check .workspace (Workspace.ofPath s.disk s.home path name)
  let there ← check (.file · w.target.text) (s.disk.hasPath w.target)
  if !there then throw (.failure (.read "No such file or directory" w.target.text))
  let l := IndexLocation.ofWorkspace s.home w isLocal
  let disk ← check (fun e => .file e.1 e.2.text) (s.disk.makeFolders l.path)
  modify fun s => { s with disk }
  return l

/-- The file of a store. -/
def storePath (l : IndexLocation) : Path := l.path.child Handle.fileName

/-- The store in a file.  A file that is missing or empty is a new store. -/
def storeIn (t : Disk FileContent) (p : Path) : Except StoreError Store :=
  match t.find p.text with
  | .ok (.file (.store s)) => .ok s
  | .ok (.file (.bytes b)) => if b.isEmpty then .ok {} else .error .notStore
  | .ok _ => .error .unopened
  | .error .notFound => .ok {}
  | .error _ => .error .unopened

/-- Opens the store of an index. -/
def openStore (l : IndexLocation) : Action (Session τ) CommandError Store := do
  let p := storePath l
  let store ← check .store (storeIn (← get).disk p)
  let disk ← check (fun _ => .store .unopened) ((← get).disk.write p.text (.store store))
  modify fun s => { s with disk }
  return store

/-- Keeps the rows of a store. -/
def keepStore (l : IndexLocation) (store : Store) : Action (Session τ) CommandError Unit :=
  writeFile (storePath l).text (.store store)

/-- The options of a folder. -/
def loadOptions (folder : Path) : Action (Session τ) CommandError IndexOptions := do
  let s ← get
  let u := IndexOptions.load FileContent.toBytes s.disk folder s.nesting
  report u.log
  check .number u.toExcept

/-- The manifest of an index. -/
def loadManifest (l : IndexLocation) : Action (Session τ) CommandError Manifest := do
  let s ← get
  let (m, log) ← check .number (Manifest.load FileContent.toBytes s.disk l.manifestPath s.nesting)
  report log
  return m

end Session

end SourceShelf
