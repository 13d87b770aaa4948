import SourceShelf.Chunk.Emission
import SourceShelf.Embedding.Embedder
import SourceShelf.Store.Basic

/-!
# Filling an index

An index sink buffers chunks, each with its document and its place among the
chunks of that document.  When the buffer holds a batch it is emptied, its
texts are embedded and the records are stored.  If that fails, the batch is
lost; the sink goes on with an empty buffer.
-/

namespace SourceShelf

/-- A document: its path in the index and the digest of its text. -/
structure DocumentKey where
  path : String
  digest : String
deriving DecidableEq, Repr, Inhabited

/-- A chunk that waits to be embedded. -/
structure PendingChunk where
  document : DocumentKey
  ordinal : Nat
  chunk : Chunk
deriving DecidableEq, Repr, Inhabited

/-- The record of a chunk and its embedding. -/
def PendingChunk.record (p : PendingChunk) (e : Embedding) : ChunkRecord where
  filePath := p.document.path
  fileSha256 := p.document.digest
  kind := p.chunk.kind.name
  symbol := p.chunk.symbol
  startLine := p.chunk.startLine
  endLine := p.chunk.endLine
  text := p.chunk.text
  embedding := e
  ordinal := p.ordinal

/-- Why an index sink fails. -/
inductive IndexSinkError where
  | noDocument
  | embed (e : EmbedError)
  | count (vectors chunks : Nat)
  | store (e : StoreError)
deriving DecidableEq, Repr, Inhabited

/-- The text of the error. -/
def IndexSinkError.message : IndexSinkError → String
  | noDocument => "set_document() must be called before emitting chunks"
  | embed e => e.message
  | count vectors chunks =>
    "Embedder returned " ++ toString vectors ++ " vector(s) for " ++ toString chunks ++ " chunk(s)"
  | store e => e.message

/-- The state of an index sink.  `written` counts the records that the store
took. -/
structure IndexSink where
  batchSize : Nat := 32
  document : Option DocumentKey := none
  ordinal : Nat := 0
  pending : List PendingChunk := []
  written : Nat := 0
deriving DecidableEq, Repr, Inhabited

namespace IndexSink

/-- A sink for batches of a given size, of one chunk at least. -/
def ofBatchSize (n : Int) : IndexSink := { batchSize := (max 1 n).toNat }

/-- A sink with the store that it fills and the state of its embedder. -/
structure State (σ : Type) where
  sink : IndexSink := {}
  shelf : Shelf := {}
  world : Logged σ

variable {σ : Type}

/-- An action on the store. -/
def onShelf {α : Type} (a : Action Shelf StoreError α) : Action (State σ) IndexSinkError α :=
  (a.within State.shelf fun x s => { s with shelf := x }).withError .store

/-- An action on the embedder. -/
def onWorld {ε α : Type} (a : Action (Logged σ) ε α) : Action (State σ) ε α :=
  a.within State.world fun x s => { s with world := x }

/-- Chunks from here on belong to a document. -/
def setDocument (d : DocumentKey) (s : IndexSink) : IndexSink :=
  { s with document := some d, ordinal := 0 }

/-- Embeds and stores what waits, and counts it. -/
def flush (e : Embedder σ) : Action (State σ) IndexSinkError Nat := do
  let pending := (← get).sink.pending
  if pending.isEmpty then return 0
  modify fun s => { s with sink := { s.sink with pending := [] } }
  let vectors ← (onWorld (e.embed (pending.map (·.chunk.text)))).withError .embed
  if vectors.length ≠ pending.length then throw (.count vectors.length pending.length)
  let n ← onShelf (Shelf.upsert (List.zipWith PendingChunk.record pending vectors))
  modify fun s => { s with sink := { s.sink with written := s.sink.written + n } }
  onWorld (report (.debug ("Stored " ++ toString n ++ " embedded chunk(s)")))
  return n

/-- Takes a chunk, and empties the buffer if it holds a batch. -/
def consume (e : Embedder σ) (c : Chunk) : Action (State σ) IndexSinkError Unit := do
  match (← get).sink.document with
  | none => throw .noDocument
  | some d =>
    modify fun s =>
      { s with sink :=
          { s.sink with
            pending := s.sink.pending ++ [⟨d, s.sink.ordinal, c⟩]
            ordinal := s.sink.ordinal + 1 } }
    let sink := (← get).sink
    if sink.batchSize ≤ sink.pending.length then discard (flush e)

/-- Embeds and stores what still waits. -/
def close (e : Embedder σ) : Action (State σ) IndexSinkError Unit := discard (flush e)

/-- The sink as a receiver of chunks. -/
def receiver (e : Embedder σ) : Sink (State σ) :=
  ⟨fun c => (consume e c).withError fun x => .other x.message⟩

end IndexSink

end SourceShelf
