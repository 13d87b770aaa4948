import SourceShelf.Chunk.Output
import SourceShelf.Command.Session

/-!
# Commands

What each command does: `chunkFile` writes the chunks of one file, `indexTarget`
brings an index up to date, `searchIndex` lists the chunks nearest to a query,
`showStatus` and `resetIndex` show and empty an index.

Commands that need an embedder get an action that makes one, since that may
print and fail as well.
-/

namespace SourceShelf

open Files

variable {τ : Type}

/-- What is asked of `chunkFile`. -/
structure ChunkRequest where
  path : String
  format : String := "text"
  output : Option String := none
  memberImports : Bool := false
deriving DecidableEq, Repr, Inhabited

/-- What is asked of `indexTarget`.  Values that are given take the place of
those in the settings. -/
structure IndexRequest where
  path : String
  localStore : Bool := false
  excludeGlobs : Option String := none
  maxFileMb : Option Float := none
  memberImports : Option Bool := none
  name : Option String := none
deriving Repr, Inhabited

/-- What is asked of `searchIndex`. -/
structure SearchRequest where
  path : String
  query : String
  localStore : Bool := false
  topK : Int := 8
  showText : Bool := false
deriving DecidableEq, Repr, Inhabited

/-- The unit in a file. -/
def readUnit (path : Path) (o : ChunkOptions) :
    Action (Session τ) CommandError Java.CompilationUnit := do
  let source ← Session.check .failure (SourceText.load FileContent.toBytes (← get).disk path)
  let u ← Session.check .failure (Java.parse source.text (some path.text) o.includeLocalTypes)
  Session.report [unitRecord u]
  return u

/-- The chunks of a unit. -/
def unitChunks (u : Java.CompilationUnit) (o : ChunkOptions) :
    Action (Session τ) CommandError (List Chunk) := do
  let chunks ← Session.check .lookup (u.chunks o).toExcept
  Session.report [emissionRecord chunks.length u.path]
  return chunks

/-- Writes the chunks of a file, and counts them.  A file that is no source
leaves nothing behind. -/
def chunkFile (r : ChunkRequest) : Action (Session τ) CommandError Nat := do
  match ChunkFormat.ofName? r.format with
  | none =>
    throw (.badParameter ("Unknown format: " ++ r.format ++ " (expected one of: " ++
      ", ".intercalate ChunkFormat.names ++ ")"))
  | some format =>
    let o : ChunkOptions := { memberImports := r.memberImports }
    let u ← readUnit (Path.ofString r.path) o
    match r.output with
    | none =>
      let chunks ← unitChunks u o
      modify fun s => { s with output := s.output ++ writtenChunks format chunks }
      Session.report [.info (toString chunks.length ++ " chunk(s) from " ++ r.path)]
      return chunks.length
    | some file =>
      Session.writeFile file (.bytes .empty)
      let chunks ← unitChunks u o
      Session.writeFile file (.bytes (writtenChunks format chunks).toUTF8)
      Session.print (.err ("Wrote " ++ toString chunks.length ++ " chunk(s) to " ++ file))
      return chunks.length

/-- The patterns in a list with commas. -/
def globsIn (s : String) : List String := ((s.splitOn ",").map stripBlanks).filter (· ≠ "")

/-- Options with what a request gives in place of them. -/
def IndexRequest.override (r : IndexRequest) (o : IndexOptions) : IndexOptions :=
  let o := match r.maxFileMb with
    | some x => { o with maxFileMb := x }
    | none => o
  let o := match r.excludeGlobs with
    | some s => if s = "" then o else { o with excludeGlobs := globsIn s }
    | none => o
  match r.memberImports with
  | some b => { o with memberImports := b }
  | none => o

/-- The files that a run looks at, as names below the folder of a workspace. -/
def filesOf (w : Workspace) (o : IndexOptions) :
    Action (Session τ) CommandError (List (List String)) := do
  if w.isSingleFile then return [[w.target.name]]
  Session.printLine "Scanning for Java files..."
  let disk := (← get).disk
  ((candidateFiles FileContent.toBytes disk w.root o).withError fun
    | .glob e => .glob e
    | .limit e => .number e).within Session.log fun log s => { s with log }

/-- A file with its text. -/
def candidateOf (t : Disk FileContent) (folder : Path) (limit : Except LimitError Int)
    (names : List String) : Candidate where
  path := joined names
  loaded :=
    match limit with
    | .error e => .error (.limit e)
    | .ok n =>
      (SourceText.load FileContent.toBytes t (below folder names) (some n)).mapError .failure

/-- Why a run ended, as why the command fails. -/
def RunError.toCommandError : RunError → CommandError
  | failure f => .failure f
  | lookup e => .lookup e
  | store e => .store e
  | limit e => .number e

/-- Runs over an index, and keeps the rows and the manifest that it leaves. -/
def runOver (e : Embedder τ) (l : IndexLocation) (manifest : Manifest) (store : Store)
    (input : RunInput) : Action (Session τ) CommandError (RunSummary × List Failure) := do
  let s ← get
  let (result, state) := Index.run ⟨store, manifest⟩ e input [] ⟨s.world, s.log⟩
  modify fun s =>
    { s with world := state.index.world.inner, log := state.index.world.log }
  Session.keepStore l state.index.shelf.store
  match state.saved with
  | some m => Session.writeFile l.manifestPath.text (.bytes m.text.toUTF8)
  | none => pure ()
  let summary ← Session.check RunError.toCommandError result
  return (summary, state.failures)

/-- The headings of a list of failures and its rows. -/
def failureTable (fs : List Failure) : List (List String) :=
  ["Stage", "Error"] :: fs.map fun f => [f.stage, f.describe]

/-- What an index is called in a message. -/
def Workspace.label (w : Workspace) : String :=
  match w.name with
  | some n => if n = "" then w.target.text else n ++ " (" ++ w.target.text ++ ")"
  | none => w.target.text

/-- Brings the index of a file or a folder up to date. -/
def indexTarget (choose : Action (Session τ) CommandError (Embedder τ)) (r : IndexRequest) :
    Action (Session τ) CommandError RunSummary := do
  let l ← Session.locate r.path r.localStore r.name
  let w := l.workspace
  let o := r.override (← Session.loadOptions w.root)
  let e ← choose
  let files ← filesOf w o
  let manifest ← Session.loadManifest l
  let store ← Session.openStore l
  if RunState.isOutdated manifest e.modelId then
    Session.printLine "Embedder changed; re-embedding all files."
  let disk := (← get).disk
  let (summary, failures) ← runOver e l manifest store
    { candidates := files.map (candidateOf disk w.root o.maxFileBytes)
      removesMissing := !w.isSingleFile
      options := o.chunkOptions
      batchSize := o.batchSize
      place := l.path.text }
  Session.printLine ("\nIndexed: " ++ w.label)
  Session.printLine ("Store: " ++ l.path.text)
  Session.printLine ("Candidate files: " ++ toString summary.files ++ "  changed: " ++
    toString summary.changed ++ "  removed: " ++ toString summary.removed)
  Session.printLine ("Chunks written: " ++ toString summary.written ++ "  total in index: " ++
    toString summary.chunks)
  if !failures.isEmpty then Session.print (.table (failureTable failures))
  return summary

/-- The symbol of a row, or where its chunk stands. -/
def Row.title (r : Row) : String :=
  match r.symbol with
  | some s => if s = "" then r.location else s
  | none => r.location

/-- A score with three places. -/
def scoreText (x : Float32) : String := Decimal.fixed 3 x.toFloat

/-- The headings of a list of hits and its rows. -/
def hitTable (hits : List (Row × Float32)) : List (List String) :=
  ["Score", "Kind", "Symbol", "Source"] ::
    hits.map fun h => [scoreText h.2, h.1.kind, h.1.symbol.getD "", h.1.location]

/-- Lists the chunks of an index that are nearest to a query. -/
def searchIndex (choose : Action (Session τ) CommandError (Embedder τ)) (r : SearchRequest) :
    Action (Session τ) CommandError Unit := do
  let l ← Session.locate r.path r.localStore
  let e ← choose
  let store ← Session.openStore l
  let query ← Session.onWorld (e.embedQuery r.query)
  let (hits, log) ← Session.check .store (({ store } : Handle).search query r.topK)
  Session.report log
  if hits.isEmpty then
    Session.printLine "No chunks in the index. Run \x60javachunk index\x60 first."
  else
    Session.print (.table (hitTable hits))
    if r.showText then
      hits.forM fun h => do
        Session.print (.rule h.1.title)
        Session.printLine h.1.text

/-- The sizes of the vectors: one if all have the same size. -/
def StoreStats.extentValue (s : StoreStats) : Json.Value :=
  match s.extents with
  | [n] => .int n
  | ns => .arr (ns.map fun (n : Nat) => .int n)

/-- What a store holds, by name. -/
def StoreStats.entries (s : StoreStats) (place : String) : List (String × Json.Value) :=
  [("chunks", .int s.chunks), ("files", .int s.files),
    ("by_kind", .obj (s.kinds.map fun k => (k.1, .int k.2))), ("dim", s.extentValue),
    ("db_path", .str place)]

/-- Shows what an index holds. -/
def showStatus (path : String) (localStore : Bool) :
    Action (Session τ) CommandError StoreStats := do
  let l ← Session.locate path localStore
  let stats := (← Session.openStore l).stats
  Session.printLine ("Workspace: " ++ l.workspace.root.text)
  (stats.entries (Session.storePath l).text).forM fun e =>
    Session.printLine ("- " ++ e.1 ++ ": " ++ Json.plain e.2)
  return stats

/-- Empties an index. -/
def resetIndex (path : String) (localStore : Bool) : Action (Session τ) CommandError Unit := do
  let l ← Session.locate path localStore
  discard (Session.openStore l)
  Session.keepStore l {}
  Session.report [.debug ("Cleared " ++ (Session.storePath l).text)]
  let manifest := l.manifestPath.text
  let disk := (← get).disk
  match disk.find manifest false with
  | .ok (.folder _) => throw (.file .isFolder manifest)
  | _ => modify fun s => { s with disk := disk.remove l.manifestPath }
  Session.printLine ("Index reset for " ++ l.workspace.root.text)

end SourceShelf
