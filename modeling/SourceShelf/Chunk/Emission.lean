import SourceShelf.Action
import SourceShelf.Chunk.Writing
import SourceShelf.Failure
import SourceShelf.Log
import SourceShelf.Text.Quoted

/-!
# Handing out chunks

A sink takes chunks one at a time and may refuse one.  `emit` hands a sink the
chunks of a unit in order and stops at the first that is refused; those before
it stay with the sink.
-/

namespace SourceShelf

/-- Why a sink refuses a chunk: with a failure of its own, or for any other
reason. -/
inductive Refusal where
  | failure (message : String) (path symbol : Option String)
  | other (message : String)
deriving DecidableEq, Repr, Inhabited

/-- A receiver of chunks with a state `σ`. -/
structure Sink (σ : Type) where
  consume : Chunk → Action σ Refusal Unit

/-- A sink that takes nothing. -/
def Sink.closed {σ : Type} : Sink σ := ⟨fun _ => throw (.other "")⟩

/-- Why not all chunks of a unit were taken: one was refused, or a type has no
name. -/
inductive EmissionError where
  | failure (f : Failure)
  | lookup (e : Java.LookupError)
deriving DecidableEq, Repr, Inhabited

/-- The symbol of a chunk in a message. -/
def symbolText (symbol : Option String) : String := symbol.getD "None"

/-- What the refusal of a chunk is to the reader of a unit.  A sink's own
failure stays as it is. -/
def Refusal.toFailure (path : Option String) (c : Chunk) : Refusal → Failure
  | failure m p s => .emit m p s
  | other m => .emit ("Sink failed on chunk " ++ symbolText c.symbol ++ ": " ++ m) path c.symbol

variable {σ : Type}

/-- Hands over some chunks. -/
def Sink.handOver (sink : Sink σ) (path : Option String) : List Chunk → Action σ EmissionError Unit
  | [] => pure ()
  | c :: cs => do
    (sink.consume c).withError fun r => .failure (r.toFailure path c)
    sink.handOver path cs

/-- Hands over the chunks of a stream and counts them. -/
def Sink.emit (sink : Sink σ) (path : Option String) (stream : Java.ChunkStream) :
    Action σ EmissionError Nat := do
  sink.handOver path stream.chunks
  match stream.stopped with
  | some e => throw (.lookup e)
  | none => return stream.chunks.length

/-- How a source is called in a record. -/
def sourceName (path : Option String) : String :=
  match path with
  | some p => if p.isEmpty then "<source>" else p
  | none => "<source>"

/-- The record of chunks that were handed over. -/
def emissionRecord (count : Nat) (path : Option String) : LogRecord :=
  .debug ("Emitted " ++ toString count ++ " chunk(s) from " ++ sourceName path)

/-- The record of a source that was read. -/
def unitRecord (u : Java.CompilationUnit) : LogRecord :=
  .debug ("Parsed " ++ sourceName u.path ++ ": package=" ++ quoted u.package ++ ", " ++
    toString u.imports.length ++ " import(s), " ++ toString u.types.length ++
    " type declaration(s)")

end SourceShelf
