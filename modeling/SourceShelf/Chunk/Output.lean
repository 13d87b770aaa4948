import SourceShelf.Chunk.Basic
import SourceShelf.Json.Printer

/-!
# Written chunks

Chunks are written between banners, for people, or as JSON Lines, one object
on each line.
-/

namespace SourceShelf

/-- How chunks are written out. -/
inductive ChunkFormat where
  | text | jsonLines
deriving DecidableEq, Repr, Inhabited

namespace ChunkFormat

/-- The names of the formats. -/
def names : List String := ["text", "jsonl"]

/-- The format with a given name. -/
def ofName? : String → Option ChunkFormat
  | "text" => some text
  | "jsonl" => some jsonLines
  | _ => none

end ChunkFormat

/-- The line in front of a chunk. -/
def startBanner : String := "=== EMBEDDING CHUNK START ==="

/-- The line behind a chunk. -/
def endBanner : String := "=== EMBEDDING CHUNK END ==="

namespace Chunk

/-- A chunk between banners. -/
def banner (c : Chunk) : String := startBanner ++ "\n" ++ c.text ++ "\n" ++ endBanner ++ "\n\n"

/-- A chunk as an object. -/
def toJson (c : Chunk) : Json.Value :=
  .obj [("symbol", c.symbol.elim .null .str), ("kind", .str c.kind.name),
    ("start_line", .int c.startLine), ("end_line", .int c.endLine), ("text", .str c.text)]

/-- A chunk on a line. -/
def jsonLine (c : Chunk) : String := Json.Layout.line.text c.toJson ++ "\n"

/-- A chunk written in a format. -/
def written (c : Chunk) : ChunkFormat → String
  | .text => c.banner
  | .jsonLines => c.jsonLine

end Chunk

/-- Chunks written in a format, one after another. -/
def writtenChunks (f : ChunkFormat) (cs : List Chunk) : String := String.join (cs.map (·.written f))

end SourceShelf
