import SourceShelf.Chunk.Emission
import SourceShelf.Java.Outline
import SourceShelf.Source.Loading

/-!
# Handing out the chunks of a source

A source is read and parsed as a whole before its first chunk is handed out.
So a sink gets nothing of a file that cannot be read or is no Java.
-/

namespace SourceShelf

/-- A sink that keeps the chunks it is handed. -/
def Sink.list : Sink (List Chunk) := ⟨fun c => modify (· ++ [c])⟩

variable {σ : Type}

/-- Hands over the chunks of a text. -/
def Sink.emitText (sink : Sink σ) (o : ChunkOptions) (text : String)
    (path : Option String := none) : Action σ EmissionError Nat := do
  let u ← Action.ofExcept ((Java.parse text path o.includeLocalTypes).mapError .failure)
  sink.emit u.path (u.chunks o)

/-- Hands over the chunks of the file where a path leads. -/
def Sink.emitFile {α : Type} (sink : Sink σ) (o : ChunkOptions) (bytesOf : α → ByteArray)
    (t : Files.Disk α) (p : Files.Path) : Action σ EmissionError Nat := do
  let source ← Action.ofExcept ((SourceText.load bytesOf t p).mapError .failure)
  sink.emitText o source.text (some p.text)

end SourceShelf
