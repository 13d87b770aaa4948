import SourceShelf.Digest.Sha256
import SourceShelf.Index.Manifest
import SourceShelf.Index.Sink
import SourceShelf.Java.Outline
import SourceShelf.Source.Decoding

/-!
# Runs over an index

A run brings an index up to date with some candidate files.  It removes the
chunks of files that are gone, leaves files alone whose digest is the one in
the manifest, and replaces the chunks of all others.  A file that cannot be
read, or is no Java, is listed and passed over.  Any failure of the embedder or
the store ends the run: what was stored stays stored, and the manifest is not
saved.
-/

namespace SourceShelf

/-- Why a candidate file was not loaded: it fails by itself, or the limit on
its size is no number of bytes. -/
inductive LoadProblem where
  | failure (f : Failure)
  | limit (e : LimitError)
deriving DecidableEq, Repr, Inhabited

/-- A file that a run looks at: its path in the index, and its text. -/
structure Candidate where
  path : String
  loaded : Except LoadProblem SourceText

/-- The digest of a text. -/
def textDigest (text : String) : String := Digest.sha256 text.toUTF8

/-- What a run works on. -/
structure RunInput where
  candidates : List Candidate
  /-- Files in the manifest that are no candidates are removed. -/
  removesMissing : Bool
  options : ChunkOptions := {}
  batchSize : Int := 32
  /-- What the index is called in an error. -/
  place : String := ""

/-- The state of a run.  `saved` is the manifest that was written, if one
was. -/
structure RunState (σ : Type) where
  index : IndexSink.State σ
  manifest : Manifest
  saved : Option Manifest := none
  failures : List Failure := []
  changed : Nat := 0
  removed : Nat := 0

/-- Why a run ends early. -/
inductive RunError where
  | failure (f : Failure)
  | lookup (e : Java.LookupError)
  | store (e : StoreError)
  | limit (e : LimitError)
deriving DecidableEq, Repr, Inhabited

/-- What a run did. -/
structure RunSummary where
  files : Nat
  changed : Nat
  removed : Nat
  written : Nat
  failed : Nat
  chunks : Nat
deriving DecidableEq, Repr, Inhabited

/-- Why the chunks of a unit are not all stored, as why a run ends. -/
def RunError.ofEmission : EmissionError → RunError
  | .failure f => .failure f
  | .lookup e => .lookup e

/-- Removes the rows of a file, then stores the chunks of a unit in their
place, as far as they fill whole batches. -/
def IndexSink.replace {σ : Type} (e : Embedder σ) (o : ChunkOptions) (key : DocumentKey)
    (u : Java.CompilationUnit) : Action (IndexSink.State σ) RunError Nat := do
  discard (((Shelf.deleteFile key.path).within State.shelf fun x s =>
    { s with shelf := x }).withError RunError.store)
  modify fun s => { s with sink := s.sink.setDocument key }
  ((receiver e).emit u.path (u.chunks o)).withError .ofEmission

namespace RunState

variable {σ : Type}

/-- An action on the index. -/
def onIndex {ε α : Type} (a : Action (IndexSink.State σ) ε α) : Action (RunState σ) ε α :=
  a.within RunState.index fun x s => { s with index := x }

/-- An action on the store. -/
def onShelf {α : Type} (a : Action Shelf StoreError α) : Action (RunState σ) RunError α :=
  (a.within (fun s => s.index.shelf) fun x s =>
    { s with index := { s.index with shelf := x } }).withError .store

/-- Adds a record to what was reported. -/
def report {ε : Type} (r : LogRecord) : Action (RunState σ) ε Unit :=
  modify fun s => { s with index := { s.index with world := s.index.world.report r } }

/-- Lists a failure. -/
def fail {ε : Type} (f : Failure) : Action (RunState σ) ε Unit := do
  report (.warning f.describe)
  modify fun s => { s with failures := s.failures ++ [f] }

/-- True if the vectors in an index come from another embedder. -/
def isOutdated (m : Manifest) (modelId : String) : Bool := m.embedder ≠ "" && m.embedder ≠ modelId

/-- Empties the index if its vectors come from another embedder. -/
def discardOutdated (modelId : String) : Action (RunState σ) RunError Unit := do
  let outdated := isOutdated (← get).manifest modelId
  modify fun s => { s with manifest := { s.manifest with embedder := modelId } }
  if outdated then
    onShelf Shelf.clear
    modify fun s => { s with manifest := { s.manifest with files := [] } }

/-- The files of a manifest that are no candidates, sorted. -/
def missing (m : Manifest) (candidates : List Candidate) : List String :=
  ((m.files.map Prod.fst).filter fun p => !candidates.any (·.path = p)).mergeSort
    fun a b => !(b < a)

/-- Removes a file from the index. -/
def removeFile (path : String) : Action (RunState σ) RunError Unit := do
  discard (onShelf (Shelf.deleteFile path))
  modify fun s => { s with manifest := s.manifest.erase path, removed := s.removed + 1 }

/-- Replaces the chunks of a file by those of a unit. -/
def replaceFile (e : Embedder σ) (o : ChunkOptions) (key : DocumentKey) (u : Java.CompilationUnit) :
    Action (RunState σ) RunError Unit := do
  modify fun s => { s with changed := s.changed + 1 }
  let n ← onIndex (IndexSink.replace e o key u)
  report (emissionRecord n u.path)
  modify fun s => { s with manifest := s.manifest.insert key.path key.digest }

/-- Brings the index up to date with the text of a file. -/
def visitText (e : Embedder σ) (o : ChunkOptions) (path text : String) :
    Action (RunState σ) RunError Unit := do
  let digest := textDigest text
  if (← get).manifest.digest? path = some digest then return
  match Java.parse text (some path) o.includeLocalTypes with
  | .error f => fail f
  | .ok u =>
    report (unitRecord u)
    replaceFile e o ⟨path, digest⟩ u

/-- Brings the index up to date with a file. -/
def visit (e : Embedder σ) (o : ChunkOptions) (c : Candidate) :
    Action (RunState σ) RunError Unit :=
  match c.loaded with
  | .error (.limit x) => throw (.limit x)
  | .error (.failure f) => fail f
  | .ok t => visitText e o c.path t.text

/-- Stores what still waits. -/
def finish (e : Embedder σ) (place : String) : Action (RunState σ) RunError Unit :=
  (onIndex (IndexSink.close e)).withError fun x =>
    .failure (.emit ("Flushing the last batch failed: " ++ x.message) (some place) none)

/-- Removes the files that are gone, if a run does that. -/
def removeMissing (input : RunInput) : Action (RunState σ) RunError Unit := do
  if input.removesMissing then
    (missing (← get).manifest input.candidates).forM removeFile

/-- Brings an index up to date with the candidates of a run. -/
def update (e : Embedder σ) (input : RunInput) : Action (RunState σ) RunError Unit := do
  discardOutdated e.modelId
  removeMissing input
  input.candidates.forM (visit e input.options)
  finish e input.place

/-- Saves the manifest. -/
def save : Action (RunState σ) RunError Unit := modify fun s => { s with saved := some s.manifest }

/-- What the run did with so many candidates. -/
def summarize (files : Nat) : Action (RunState σ) RunError RunSummary := do
  let stats ← onShelf Shelf.stats
  let s ← get
  return { files
           changed := s.changed
           removed := s.removed
           written := s.index.sink.written
           failed := s.failures.length
           chunks := stats.chunks }

/-- A run over an index. -/
def run (e : Embedder σ) (input : RunInput) : Action (RunState σ) RunError RunSummary := do
  update e input
  save
  summarize input.candidates.length

/-- The state at the start of a run. -/
def start (manifest : Manifest) (shelf : Shelf) (batchSize : Int) (world : Logged σ) :
    RunState σ where
  index := { sink := .ofBatchSize batchSize, shelf, world }
  manifest := manifest

end RunState

/-- An index as it is kept between runs: its rows and the manifest that was
saved last. -/
structure Index where
  store : Store := {}
  manifest : Manifest := {}
deriving Inhabited

namespace Index

variable {σ : Type}

/-- A run over an index.  Calls of the store fail as `faults` says. -/
def run (x : Index) (e : Embedder σ) (input : RunInput) (faults : List (Option String))
    (world : Logged σ) : Except RunError RunSummary × RunState σ :=
  (RunState.run e input).runOn
    (RunState.start x.manifest { store := x.store, faults } input.batchSize world)

/-- What is kept of an index when a run over it has come to an end. -/
def keep (x : Index) (s : RunState σ) : Index where
  store := s.index.shelf.store
  manifest := s.saved.getD x.manifest

end Index

end SourceShelf
