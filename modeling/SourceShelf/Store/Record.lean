import SourceShelf.Digest.Sha1
import SourceShelf.Store.Vector

/-!
# Records

A record is a chunk of a file with its vector.  Its identity depends on the
file, the declaration, the kind and the place among the chunks of the file, not
on the text.
-/

namespace SourceShelf

/-- An embedded chunk that is to be stored. -/
structure ChunkRecord where
  filePath : String
  fileSha256 : String := "sha"
  kind : String := "method"
  symbol : Option String := none
  startLine : Int := 1
  endLine : Int := 1
  text : String := ""
  embedding : Embedding := []
  ordinal : Int := 0
deriving Repr, Inhabited

/-- A file and lines in it. -/
def locationText (path : String) (startLine endLine : Int) : String :=
  path ++ ":" ++ toString startLine ++ "-" ++ toString endLine

namespace ChunkRecord

/-- What the identity of a record depends on. -/
def identity (r : ChunkRecord) : String :=
  "\x00".intercalate [r.filePath, toString r.ordinal, r.kind, r.symbol.getD "None",
    toString r.startLine, toString r.endLine]

/-- The identity of a record as a digest. -/
def chunkId (r : ChunkRecord) : String := Digest.sha1 r.identity.toUTF8

/-- Where the chunk of a record stands. -/
def location (r : ChunkRecord) : String := locationText r.filePath r.startLine r.endLine

end ChunkRecord

/-- A stored record. -/
structure Row where
  chunkId : String
  filePath : String
  fileSha256 : String
  kind : String
  symbol : Option String
  startLine : Int
  endLine : Int
  text : String
  vector : Vector
deriving Repr, Inhabited

namespace Row

/-- The row of a record. -/
def ofRecord (r : ChunkRecord) : Except VectorError Row :=
  (Vector.ofEmbedding r.embedding).map fun v =>
    { chunkId := r.chunkId
      filePath := r.filePath
      fileSha256 := r.fileSha256
      kind := r.kind
      symbol := r.symbol
      startLine := r.startLine
      endLine := r.endLine
      text := r.text
      vector := v }

/-- Where the chunk of a row stands. -/
def location (r : Row) : String := locationText r.filePath r.startLine r.endLine

/-- True for a number of 64 bits. -/
def fits (n : Int) : Bool := -0x8000000000000000 ≤ n && n < 0x8000000000000000

/-- True if the lines of a row can be stored. -/
def storable (r : Row) : Bool := fits r.startLine && fits r.endLine

end Row

end SourceShelf
